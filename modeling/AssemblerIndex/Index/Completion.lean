import AssemblerIndex.Index.Hover

/-!
# Completions

What may be inserted at a place: variable symbols behind `&`, sequence symbols behind a period, and
operation codes where the instruction of a statement is being written.
-/

namespace AssemblerIndex

/-- What a completion inserts. -/
inductive CompletionKind where
  | variable_ | sequence | generating | directive | macroCall
  deriving DecidableEq, Repr, Inhabited

/-- A completion; the label is what is inserted. -/
structure Completion where
  label : String
  kind : CompletionKind
  detail : String
  /-- more about it, as markdown -/
  documentation : Option String := none
  deriving DecidableEq, Repr, Inhabited

/-! ### Where instructions are written -/

/-- Blanks, and perhaps a word that has begun behind them. -/
def startsWithBlanks (line : List Char) : Bool :=
  line.head?.any Text.isBlank && (Text.trimStart line).all (!Text.isBlank ·)

/-- A word of at least two characters, none of them a `*` at its front, then blanks and a word that
has begun. -/
def followsLabel : List Char → Bool
  | a :: b :: rest =>
    let word := Text.trimStart (rest.dropWhile (!Text.isBlank ·))
    a != '*' && b != '*' && !word.isEmpty && word.all (!Text.isBlank ·)
  | _ => false

/-- The end of the text, which is the front of a line, lies in the instruction field. -/
def endsInInstruction (line : List Char) : Bool := followsLabel line || startsWithBlanks line

/-- The place lies in the instruction field of a line that does not continue another one. -/
def SourceText.isInInstruction (t : SourceText) (p : Position) : Bool :=
  !(0 < p.line && isContinued (t.line (p.line - 1))) && endsInInstruction (t.lineBefore p)

namespace Index

/-- The variable symbols that are declared in a macro definition, or else in open code. -/
def variableCompletions (x : Index) (scope : Option MacroRecord) : List Completion :=
  (x.declarationsIn scope).map fun d =>
    { label := "&" ++ d.name, kind := .variable_, detail := d.summary }

/-- The sequence symbols of a macro definition, or else of open code, in order of their names. -/
def sequenceCompletions (x : Index) (scope : Option MacroRecord) : List Completion :=
  let labels := match scope with
    | some r => r.definition.labels
    | none => x.context.openCode.sequenceSymbols
  labels.sorted.map fun e =>
    { label := "." ++ e.1, kind := .sequence, detail := "Sequence symbol" }

/-- An operation code in the case that is asked for. -/
def writtenCode (x : Index) (name : String) : String :=
  if x.settings.lowerCaseCompletions then Text.lower name else name

/-- The kind of completion for a kind of instruction. -/
def completionKind : InstructionKind → CompletionKind
  | .machine | .mnemonic => .generating
  | .assembler | .conditionalAssembly => .directive

/-- The completion for an instruction. -/
def instructionCompletion (x : Index) (i : Instruction) : Completion :=
  { label := x.writtenCode i.name
    kind := completionKind i.kind
    detail := i.summary
    documentation := some (i.brief ++ "  \n" ++ i.description) }

/-- The completion for a macro. -/
def macroCompletion (x : Index) (d : MacroDefinition) : Completion :=
  { label := x.writtenCode d.name
    kind := .macroCall
    detail := d.signature
    documentation := some (x.macroHover d) }

/-- All instructions and macros, each in order of their names. -/
def instructionCompletions (x : Index) : List Completion :=
  catalogue.map x.instructionCompletion
    ++ x.context.macros.sorted.map fun e => x.macroCompletion e.2

/-- What may be inserted at a place.  `trigger` is the character that was typed, if it is known. -/
def completions (x : Index) (file : String) (p : Position) (trigger : Option Char) :
    List Completion :=
  match x.files.find? file with
  | none => []
  | some f =>
    let scope := f.recordAt? p.line
    let typed := trigger.getD (f.text.charBefore p)
    if typed = '&' then x.variableCompletions scope
    else if typed = '.' then x.sequenceCompletions scope
    else if f.text.isInInstruction p then x.instructionCompletions
    else []

end Index

end AssemblerIndex
