import AssemblerIndex.Table

/-!
# JSON values

The values that settings are read from and answers are written as.  A number is kept as an integer
if it is written as one; every other number keeps only its text.
-/

namespace AssemblerIndex

/-- A JSON value; the members of an object have distinct names. -/
inductive Json where
  | null
  | bool (b : Bool)
  | integer (n : Int)
  | real (text : String)
  | string (s : String)
  | array (items : List Json)
  | object (members : List (String × Json))
  deriving Inhabited, Repr

namespace Json

/-- The object with the given members, in order of their names. -/
def ofMembers (members : List (String × Json)) : Json :=
  .object (members.mergeSort fun a b => decide (a.1 ≤ b.1))

/-- The integer of a natural number. -/
def nat (n : Nat) : Json := .integer n

/-- A value that may be missing. -/
def optional {α : Type} (f : α → Json) : Option α → Json
  | some a => f a
  | none => .null

/-- An array of encoded values. -/
def list {α : Type} (f : α → Json) (l : List α) : Json := .array (l.map f)

/-- The member of an object with the given name. -/
def member? (j : Json) (name : String) : Option Json :=
  match j with
  | .object members => members.lookup name
  | _ => none

/-- A truth value under the given name. -/
def bool? (j : Json) (name : String) : Option Bool :=
  match j.member? name with
  | some (.bool b) => some b
  | _ => none

/-- An integer of 64 bits, sign included, under the given name. -/
def int? (j : Json) (name : String) : Option Int :=
  match j.member? name with
  | some (.integer n) => if -0x8000000000000000 ≤ n ∧ n < 0x8000000000000000 then some n else none
  | _ => none

/-- A text under the given name. -/
def string? (j : Json) (name : String) : Option String :=
  match j.member? name with
  | some (.string s) => some s
  | _ => none

/-- The texts in an array under the given name; elements of other kinds are passed over. -/
def strings? (j : Json) (name : String) : Option (List String) :=
  match j.member? name with
  | some (.array items) => some (items.filterMap fun
      | .string s => some s
      | _ => none)
  | _ => none

end Json

end AssemblerIndex
