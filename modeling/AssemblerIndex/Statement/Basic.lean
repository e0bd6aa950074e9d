import AssemblerIndex.Text.LetterCase
import AssemblerIndex.Text.Position

/-!
# Statements

A statement has up to four fields: a label, an instruction, operands and remarks.  Each field keeps
the stretch of the source it was written in, so that a continued operand may extend over lines.
-/

namespace AssemblerIndex

/-- A piece of a statement and the stretch it was written in. -/
structure Field where
  text : List Char
  span : Span
  deriving DecidableEq, Repr, Inhabited

/-- A statement and its fields. -/
structure Statement where
  label : Option Field
  instruction : Option Field
  /-- the operand field as a whole -/
  operandField : Option Field
  operands : List Field
  remarks : List Char
  /-- from the first column of the first line to the end of the last line -/
  span : Span
  deriving DecidableEq, Repr, Inhabited

/-- The text of a field that may be missing. -/
def fieldText : Option Field → List Char
  | some f => f.text
  | none => []

namespace Statement

/-- The place that stands for the statement: its instruction, or else its start. -/
def position (s : Statement) : Position :=
  match s.instruction with
  | some f => f.span.start
  | none => s.span.start

/-- The label as written. -/
def labelText (s : Statement) : List Char := fieldText s.label

/-- The operand field as written. -/
def operandText (s : Statement) : List Char := fieldText s.operandField

/-- The operation code: the instruction in capital letters. -/
def opcode (s : Statement) : String := String.ofList (Text.upperChars (fieldText s.instruction))

/-- The sequence symbol that labels the statement, without its period and in capital letters. -/
def sequenceLabel? (s : Statement) : Option (String × Position) :=
  match s.label with
  | some ⟨'.' :: name, span⟩ => some (String.ofList (Text.upperChars name), span.start)
  | _ => none

/-- The ordinary symbol that labels the statement, in capital letters. -/
def ordinaryLabel? (s : Statement) : Option String :=
  let label := s.labelText
  if label.isEmpty || label.head? == some '.' || label.contains '&' then none
  else some (String.ofList (Text.upperChars label))

end Statement

end AssemblerIndex
