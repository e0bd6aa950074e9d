import AssemblerIndex.Assembly.Record
import AssemblerIndex.Expression.Substitution
import AssemblerIndex.Library

/-!
# Assemblies

An assembly follows the statements of a source.  What is being processed is a stack of listings: the
open code, the copy members opened from it, and on top of them the bodies of macro calls.  The state
is that of the assembler together with what is recorded for the index.
-/

namespace AssemblerIndex

/-- The copy member that a member of a library is under a name. -/
def LibraryMember.copyMember (found : LibraryMember) (name : String) : CopyMember :=
  { name, body := (statementsOf found.text.toList).toArray, location := ⟨found.uri, 0, 0⟩ }

/-- A list of statements that is being processed. -/
inductive Listing where
  | openCode (statements : Array Statement) (file : String)
  | copyMember (m : CopyMember)
  | macroBody (d : MacroDefinition)
  deriving Inhabited

/-- A listing and the index of the statement in it that is processed next. -/
structure Activation where
  listing : Listing
  index : Nat := 0
  deriving Inhabited

namespace Activation

/-- The statements of the listing. -/
def statements (p : Activation) : Array Statement :=
  match p.listing with
  | .openCode statements _ => statements
  | .copyMember m => m.body
  | .macroBody d => d.body

/-- The statement that is processed next. -/
def statement? (p : Activation) : Option Statement := p.statements[p.index]?

/-- The definition whose body is being processed. -/
def definition? (p : Activation) : Option MacroDefinition :=
  match p.listing with
  | .macroBody d => some d
  | _ => none

/-- The file that the statement was written in. -/
def file (p : Activation) : String :=
  match p.listing with
  | .openCode _ file => file
  | .copyMember m => m.location.file
  | .macroBody d =>
    (((d.nests[p.index]?).bind (·.getLast?)).map (·.location.file)).getD d.location.file

end Activation

/-- An assembly. -/
structure Assembly where
  context : Context
  library : Library
  settings : Settings
  /-- the listings that are being processed, innermost first -/
  control : List Activation
  files : Table SourceFile
  /-- the records of macro definitions, last one first -/
  records : List MacroRecord := []
  /-- the occurrences in open code and its copy members, last one first -/
  occurrences : FileOccurrences := []
  /-- the declarations in open code and its copy members -/
  declarations : List Declaration := []
  /-- names for which the library holds no macro definition of that name -/
  refused : List String := []
  /-- the transitions of the assembler that were not possible, last one first -/
  failures : List ContextError := []
  deriving Inhabited

/-- How processing goes on behind a statement. -/
inductive Flow where
  /-- with the next statement -/
  | next
  /-- with another statement of the listing -/
  | jump (index : Nat)
  /-- with a further listing, and then with the next statement -/
  | enter (l : Listing)
  /-- with none: the listing is left -/
  | exit
  deriving Inhabited

namespace Assembly

/-- The assembly of a source that starts in a given state. -/
def start (x : Context) (text : String) (library : Library) (settings : Settings) : Assembly :=
  { context := x
    library
    settings
    control := [{ listing := .openCode (statementsOf text.toList).toArray x.file }]
    files := Table.ofList [(x.file, ⟨.openCode, .ofString text⟩)] }

/-- Changes the state of the assembler. -/
def mapContext (f : Context → Context) (a : Assembly) : Assembly := { a with context := f a.context }

/-- Notes that a transition was not possible. -/
def fail (a : Assembly) (e : ContextError) : Assembly := { a with failures := e :: a.failures }

/-- Makes a transition of the assembler; one that is not possible is noted and changes nothing
else. -/
def attempt (f : Context → Except ContextError Context) (a : Assembly) : Assembly :=
  match f a.context with
  | .ok x => { a with context := x }
  | .error e => a.fail e

/-- Notes names that have been met. -/
def meet (a : Assembly) (names : List String) : Assembly := a.mapContext (·.meet names)

/-- Enters a file; one that was entered before stays as it is. -/
def addFile (a : Assembly) (file : String) (content : FileContent) (text : String) : Assembly :=
  if a.files.contains file then a
  else { a with files := a.files.insert file ⟨content, .ofString text⟩ }

/-- The value of an expression. -/
def evaluate (a : Assembly) (s : List Char) : SetValue := Expression.evaluate a.context s

/-- The copy member of a name, loaded from the library if need be. -/
def copyMember? (a : Assembly) (name : String) : Assembly × Option CopyMember :=
  let a := a.meet [name]
  match a.context.copyMembers.find? name with
  | some m => (a, some m)
  | none =>
    match a.library.find? name with
    | some found =>
      let m := found.copyMember name
      ((a.mapContext (·.addCopyMember m)).addFile found.uri (.member m) found.text, some m)
    | none => (a, none)

end Assembly

end AssemblerIndex
