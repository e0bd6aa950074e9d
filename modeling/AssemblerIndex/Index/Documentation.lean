import AssemblerIndex.Macro
import AssemblerIndex.Statement.Layout

/-!
# The documentation of macros

What a source says about a macro: the comments in front of its `MACRO` line, the prototype with its
continuations, and the comments that follow; and the prototype as a user would write the call.
-/

namespace AssemblerIndex

namespace SourceText

/-- The comment lines right in front of a line. -/
def commentsAbove (t : SourceText) : Nat → List (List Char)
  | 0 => []
  | n + 1 => if isComment (t.line n) then t.commentsAbove n ++ [t.line n] else []

/-- The comment lines from a line on. -/
def commentsFrom (t : SourceText) (n : Nat) : List (List Char) :=
  if n < t.lineCount ∧ isComment (t.line n) then t.line n :: t.commentsFrom (n + 1) else []
termination_by t.lineCount - n

/-- The last line of the statement that starts in a line. -/
def lastLineFrom (t : SourceText) (n : Nat) : Nat :=
  if n + 1 < t.lineCount ∧ isContinued (t.line n) then t.lastLineFrom (n + 1) else n
termination_by t.lineCount - n

/-- The lines that document a macro, given the line of its prototype; the line in front of that holds
`MACRO`. -/
def documentation (t : SourceText) (prototype : Nat) : List (List Char) :=
  let last := t.lastLineFrom prototype
  t.commentsAbove (prototype - 1)
    ++ (List.range' prototype (last + 1 - prototype)).map t.line
    ++ t.commentsFrom (last + 1)

end SourceText

/-- Lines with a line feed behind each. -/
def joinLines (lines : List (List Char)) : String := String.ofList (lines.flatMap (· ++ ['\n']))

/-- A parameter as it is written in a prototype. -/
def Parameter.written (p : Parameter) : String :=
  match p.default with
  | some d => "&" ++ p.name ++ "=" ++ String.ofList d.text
  | none => "&" ++ p.name

/-- The prototype as a user would write the call. -/
def MacroDefinition.signature (d : MacroDefinition) : String :=
  let label := match d.labelParameter with
    | some l => "&" ++ l ++ " "
    | none => ""
  let parameters := ",".intercalate (d.parameters.map Parameter.written)
  label ++ d.name ++ (if d.parameters.isEmpty then "" else " " ++ parameters)

end AssemblerIndex
