import AssemblerIndex.Occurrence
import AssemblerIndex.Processing
import AssemblerIndex.Text.SourceText
import AssemblerIndex.Variable.SetValue

/-!
# What an assembly records

Beside the state of the assembler, an assembly keeps what questions about the source are answered
from: the files it has seen, the macro definitions with the lines they consist of, the declarations of
variable symbols, and the occurrences of all symbols by file.
-/

namespace AssemblerIndex

/-- What a file holds. -/
inductive FileContent where
  | openCode
  | definition (d : MacroDefinition)
  | member (m : CopyMember)
  deriving Inhabited

/-- A file that was seen. -/
structure SourceFile where
  content : FileContent
  text : SourceText
  deriving Inhabited

/-- What declares a variable symbol. -/
inductive DeclarationKind where
  | parameter
  | set (type : SetType) (isGlobal : Bool)
  deriving DecidableEq, Repr, Inhabited

/-- The place where a variable symbol is declared. -/
structure Declaration where
  name : String
  kind : DeclarationKind
  file : String
  pos : Position
  /-- the index of the statement in the body of a macro -/
  bodyIndex : Option Nat := none
  /-- the processing stack of a declaration in open code -/
  stack : ProcessingStack := []
  deriving DecidableEq, Repr, Inhabited

/-- Adds a declaration, unless the name is declared already. -/
def declareOnce (ds : List Declaration) (d : Declaration) : List Declaration :=
  if ds.any (·.name == d.name) then ds else ds ++ [d]

/-- The lines from `first` up to, but not including, `behind`. -/
structure LineRange where
  first : Nat
  behind : Nat
  deriving DecidableEq, Repr, Inhabited

namespace LineRange

/-- The line lies in the range. -/
def contains (r : LineRange) (line : Nat) : Bool := r.first ≤ line && line < r.behind

/-- The number of lines. -/
def size (r : LineRange) : Nat := r.behind - r.first

/-- The smallest range that covers two ranges. -/
def hull (a b : LineRange) : LineRange := ⟨min a.first b.first, max a.behind b.behind⟩

/-- The lines of a statement. -/
def ofSpan (s : Span) : LineRange := ⟨s.start.line, s.stop.line + 1⟩

end LineRange

/-- Occurrences and the files they are in, in the order in which they were found. -/
abbrev FileOccurrences := List (String × Occurrence)

/-- A macro definition and what belongs to it. -/
structure MacroRecord where
  definition : MacroDefinition
  /-- the definition was found in a library -/
  isExternal : Bool
  /-- the lines that the definition consists of: its own, and those of each copy member -/
  scopes : Table (List LineRange)
  occurrences : FileOccurrences
  declarations : List Declaration
  deriving Inhabited

/-- The record is of a definition at the given line of a file. -/
def MacroRecord.isAt (r : MacroRecord) (l : Location) : Bool :=
  r.definition.location.file == l.file && r.definition.location.pos.line == l.pos.line

end AssemblerIndex
