import AssemblerIndex.Table
import AssemblerIndex.Text.LetterCase

/-!
# Libraries

A library finds members by name.  A member holds a macro definition or statements to copy, and its
address is the name of its file in the index.
-/

namespace AssemblerIndex

/-- A member of a library. -/
structure LibraryMember where
  uri : String
  text : String
  deriving DecidableEq, Repr, Inhabited

/-- Members by name. -/
structure Library where
  find? : String → Option LibraryMember
  /-- all members that can be found -/
  members : List LibraryMember
  mem_of_find? : ∀ name m, find? name = some m → m ∈ members

namespace Library

/-- The number of characters of all members. -/
def extent (l : Library) : Nat := l.members.foldl (fun n m => n + m.text.length) 0

/-- Members held in memory; names are compared in capital letters, and of two members of one name the
last one counts. -/
def ofMembers (members : List (String × LibraryMember)) : Library :=
  let table := Table.ofList (members.map fun m => (Text.upper m.1, m.2))
  { find? := fun name => table.find? (Text.upper name)
    members := table.values
    mem_of_find? := fun _ _ h => Table.mem_values_of_find? h }

/-- The library without members. -/
def empty : Library := ofMembers []

instance : Inhabited Library := ⟨empty⟩

end Library

end AssemblerIndex
