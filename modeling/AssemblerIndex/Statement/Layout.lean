import AssemblerIndex.Statement.Operands
import AssemblerIndex.Text.SourceText

/-!
# The fixed layout of statements

A line that starts with `*` or `.*` is a comment.  Otherwise the label begins in the first column,
a blank there means that there is none; a character other than a space in the continuation column
continues the statement on the next line, from the continue column on; the columns behind are not
read.  Label, instruction and operands are separated by spaces.  The operands end at the first space
outside of quotes and parentheses, but if a comma stands before it and the statement is continued,
they go on in the next line.
-/

namespace AssemblerIndex

/-- The column whose content continues a statement. -/
def continuationColumn : Nat := 71

/-- The column where a continued statement goes on. -/
def continueColumn : Nat := 15

/-- The line is a comment. -/
def isComment (line : List Char) : Bool :=
  match line with
  | '*' :: _ => true
  | '.' :: '*' :: _ => true
  | _ => false

/-- The statement in the line goes on in the next one. -/
def isContinued (text : List Char) : Bool :=
  match text[continuationColumn]? with
  | some c => c != ' '
  | none => false

/-! ### Lines that belong together -/

/-- A line and its number. -/
structure NumberedLine where
  row : Nat
  text : List Char
  deriving DecidableEq, Repr, Inhabited

/-- The lines of each statement.  `open?` holds the lines of a statement that is continued here, last
line first.  Comments and blank lines belong to no statement. -/
def statementLines (row : Nat) (open? : Option (List NumberedLine)) :
    List (List Char) → List (List NumberedLine)
  | [] => []
  | line :: rest =>
    let goesOn := isContinued line && !rest.isEmpty
    match open? with
    | none =>
      if isComment line || Text.isBlankLine line then statementLines (row + 1) none rest
      else if goesOn then statementLines (row + 1) (some [⟨row, line⟩]) rest
      else [⟨row, line⟩] :: statementLines (row + 1) none rest
    | some ls =>
      if goesOn then statementLines (row + 1) (some (⟨row, line⟩ :: ls)) rest
      else (⟨row, line⟩ :: ls).reverse :: statementLines (row + 1) none rest

/-! ### Characters in their columns -/

/-- A character and its place in the source. -/
structure Glyph where
  char : Char
  pos : Position
  deriving DecidableEq, Repr, Inhabited

/-- An element of a statement: a character, or the point where a further line begins. -/
inductive Cell where
  | glyph (g : Glyph)
  | lineStart
  deriving DecidableEq, Repr, Inhabited

/-- The cells of one line from a column on. -/
def cellsFrom (row column : Nat) : List Char → List Cell
  | [] => []
  | c :: rest => .glyph ⟨c, row, column⟩ :: cellsFrom row (column + 1) rest

/-- The cells of a further line of a statement. -/
def continuedCells (l : NumberedLine) : List Cell :=
  .lineStart :: cellsFrom l.row continueColumn ((l.text.take continuationColumn).drop continueColumn)

/-- The cells of the lines of a statement. -/
def statementCells : List NumberedLine → List Cell
  | [] => []
  | l :: ls => cellsFrom l.row 0 (l.text.take continuationColumn) ++ ls.flatMap continuedCells

/-- The characters of a list of cells. -/
def cellChars (cells : List Cell) : List Char :=
  cells.filterMap fun
    | .glyph g => some g.char
    | .lineStart => none

/-- The first character of a list of cells. -/
def nextChar? : List Cell → Option Char
  | [] => none
  | .glyph g :: _ => some g.char
  | .lineStart :: rest => nextChar? rest

/-- The stretch that a character takes. -/
def Glyph.span (g : Glyph) : Span := ⟨g.pos, g.pos.line, g.pos.column + 1⟩

/-- The field that consists of the given characters, last character first. -/
def fieldOf? : List Glyph → Option Field
  | [] => none
  | g :: earlier =>
    some ⟨((g :: earlier).map Glyph.char).reverse, ((g :: earlier).getLast (by simp)).pos, g.span.stop⟩

/-! ### Fields -/

/-- The characters up to the next space, last character first behind `taken`, and the rest. -/
def takeWord (taken : List Glyph) : List Cell → List Glyph × List Cell
  | [] => (taken, [])
  | .lineStart :: rest => takeWord taken rest
  | .glyph g :: rest =>
    if g.char = ' ' then (taken, .glyph g :: rest) else takeWord (g :: taken) rest

/-- The cells from the next character on that is not a space. -/
def dropSpaces : List Cell → List Cell
  | [] => []
  | .lineStart :: rest => dropSpaces rest
  | .glyph g :: rest => if g.char = ' ' then dropSpaces rest else .glyph g :: rest

/-- What is known of an operand field while it is read; lists hold their last element first. -/
structure OperandScan where
  nesting : Nesting := {}
  /-- all characters passed, those between the pieces of the field included -/
  passed : List Char := []
  /-- the last character passed -/
  last : Option Glyph := none
  /-- the characters of the field -/
  field : List Glyph := []
  /-- the characters of the operand that is being read -/
  current : List Glyph := []
  /-- the operands that are complete -/
  operands : List Field := []
  deriving Inhabited

/-- What reading the cells of an operand field is about: the field itself, the next line start, or
the first character in that line. -/
inductive ScanMode where
  | reading | seekingLine | resuming
  deriving DecidableEq, Repr

namespace OperandScan

/-- Passes a character that does not belong to the field. -/
def pass (s : OperandScan) (g : Glyph) : OperandScan := { s with passed := g.char :: s.passed, last := some g }

/-- Completes the operand being read; an empty one takes the given stretch. -/
def complete (s : OperandScan) (otherwise : Span) : OperandScan :=
  { s with
    current := []
    operands := (fieldOf? s.current).getD ⟨[], otherwise⟩ :: s.operands }

/-- Takes in a character of the field, in front of `next`. -/
def take (s : OperandScan) (g : Glyph) (next : Option Char) : OperandScan :=
  let s' := if g.char = ',' ∧ s.nesting.isClosed then s.complete g.span
    else { s with
      current := g :: s.current
      nesting := s.nesting.after s.passed g.char next }
  { s'.pass g with field := g :: s.field }

/-- A space here ends the field or a piece of it. -/
def endsAt (s : OperandScan) (g : Glyph) : Bool := g.char == ' ' && s.nesting.isClosed

/-- The field may go on in a further line: its last character is a comma. -/
def mayResume (s : OperandScan) : Bool := s.passed.head? == some ','

/-- Reads the cells of an operand field; what is left over are the remarks. -/
def scan (mode : ScanMode) (s : OperandScan) : List Cell → OperandScan × List Cell
  | [] => (s, [])
  | .lineStart :: rest => scan (if mode = .seekingLine then .resuming else mode) s rest
  | .glyph g :: rest =>
    match mode with
    | .seekingLine => scan .seekingLine (s.pass g) rest
    | mode =>
      if mode = .resuming ∧ g.char = ' ' then scan .resuming (s.pass g) rest
      else if s.endsAt g then
        if s.mayResume ∧ Cell.lineStart ∈ rest then scan .seekingLine (s.pass g) rest
        else (s, .glyph g :: rest)
      else scan .reading (s.take g (nextChar? rest)) rest

/-- The operands in order; a comma at the end is followed by an empty one. -/
def result (s : OperandScan) : List Field :=
  match fieldOf? s.current, s.field, s.last with
  | some f, _, _ => (f :: s.operands).reverse
  | none, _ :: _, some g => (⟨[], g.span⟩ :: s.operands).reverse
  | none, _, _ => s.operands.reverse

end OperandScan

/-- The statement in a list of cells. -/
def statementOf (cells : List Cell) (span : Span) : Statement :=
  let (label, rest) := takeWord [] cells
  let (instruction, rest) := takeWord [] (dropSpaces rest)
  let (operands, rest) := OperandScan.scan .reading {} (dropSpaces rest)
  { label := fieldOf? label
    instruction := fieldOf? instruction
    operandField := fieldOf? operands.field
    operands := operands.result
    remarks := Text.trim (cellChars rest)
    span }

/-- The stretch that the lines of a statement take. -/
def linesSpan (ls : List NumberedLine) : Span :=
  match ls, ls.getLast? with
  | first :: _, some last => ⟨⟨first.row, 0⟩, last.row, last.text.length⟩
  | _, _ => default

/-- The statements of a source. -/
def statementsOf (source : List Char) : List Statement :=
  (statementLines 0 none (recordLines source)).map fun ls =>
    statementOf (statementCells ls) (linesSpan ls)

end AssemblerIndex
