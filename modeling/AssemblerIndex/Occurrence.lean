import AssemblerIndex.Macro
import AssemblerIndex.Statement.Layout

/-!
# Occurrences of symbols

The symbols that a statement mentions as it is written, before anything is substituted, each with the
stretch of the source it takes.  Symbols of a continued field are found on its first line only.
-/

namespace AssemblerIndex

/-- What a symbol stands for. -/
inductive OccurrenceKind where
  | ordinary | sequence | variable_ | instruction | copyMember
  deriving DecidableEq, Repr, Inhabited

/-- A place where a symbol is mentioned. -/
structure Occurrence where
  kind : OccurrenceKind
  name : String
  span : Span
  /-- the macro that an instruction calls -/
  callee : Option MacroDefinition := none
  deriving Inhabited

namespace Occurrence

/-- The symbol means something within one macro definition or within open code only. -/
def isScoped (o : Occurrence) : Bool := o.kind == .variable_ || o.kind == .sequence

/-- The number of the macro definition that is called. -/
def calleeSerial (o : Occurrence) : Option Nat := o.callee.map (·.serial)

/-- Two occurrences are of the same symbol, if they are in the same scope. -/
def isSimilar (a b : Occurrence) : Bool :=
  a.kind == b.kind && a.name == b.name && a.calleeSerial == b.calleeSerial

end Occurrence

/-! ### Scanning a field -/

/-- Which symbols the operands of an instruction may hold. -/
inductive OperandStyle where
  /-- variable symbols and sequence symbols -/
  | conditional
  /-- ordinary symbols inside of parentheses only, as in `A(LABEL)` -/
  | data
  | ordinary
  deriving DecidableEq, Repr, Inhabited

/-- The style of the operands of an operation code. -/
def operandStyle (opcode : String) : OperandStyle :=
  if opcode ∈ ["AIF", "AGO", "SETA", "SETB", "SETC", "LCLA", "LCLB", "LCLC", "GBLA", "GBLB", "GBLC",
    "ACTR", "MNOTE", "AREAD"] then .conditional
  else if opcode ∈ ["DC", "DS", "DXD"] then .data
  else .ordinary

/-- The operators that are written as words. -/
def wordOperators : List String :=
  ["EQ", "NE", "LT", "LE", "GT", "GE", "AND", "OR", "NOT", "XOR"]

/-- Where a scan of a field stands. -/
structure FieldScan where
  /-- the characters passed, last character first -/
  passed : List Char := []
  quoted : Bool := false
  depth : Int := 0
  deriving Inhabited

namespace FieldScan

/-- Passes characters that form one unit. -/
def pass (f : FieldScan) (cs : List Char) : FieldScan := { f with passed := cs.reverse ++ f.passed }

/-- The column in the field. -/
def column (f : FieldScan) : Nat := f.passed.length

/-- The preceding character makes what follows part of a name or of a variable symbol. -/
def insideName (f : FieldScan) : Bool :=
  f.passed.head?.any fun p => isNameChar p || p == '&' || p == '.'

/-- A period here may start a sequence symbol. -/
def mayStartSequence (f : FieldScan) : Bool := f.passed.head?.all fun p => p == ')' || p == ','

/-- Takes a parenthesis into account. -/
def nested (f : FieldScan) (c : Char) : FieldScan :=
  if c = '(' then { f with depth := f.depth + 1 }
  else if c = ')' then { f with depth := f.depth - 1 }
  else f

end FieldScan

/-- A symbol found in a field: its kind, its name as written, and the columns it takes. -/
structure Found where
  kind : OccurrenceKind
  name : List Char
  first : Nat
  behind : Nat
  deriving DecidableEq, Repr, Inhabited

/-- A word that is no ordinary symbol here. -/
def isSkipped (style : OperandStyle) (depth : Int) (word : List Char) (follow : Option Char) : Bool :=
  follow == some '\'' || follow == some '=' || style == .conditional
    || (style == .data && depth == 0)
    || wordOperators.contains (String.ofList (Text.upperChars word))

/-- The symbols in the rest of a field.  Without a style only variable symbols are looked for. -/
def findSymbols (style : Option OperandStyle) (f : FieldScan) (s : List Char) : List Found :=
  match s with
  | [] => []
  | c :: rest =>
    let name := rest.takeWhile isNameChar
    let behind := rest.dropWhile isNameChar
    let found (kind : OccurrenceKind) (text : List Char) : Found :=
      ⟨kind, text, f.column, f.column + name.length + 1⟩
    let startsName := rest.head?.any isNameStart
    if c = '\'' ∧ isAttributeQuote f.passed rest.head? = false then
      findSymbols style { f.pass [c] with quoted := !f.quoted } rest
    else if c = '&' ∧ rest.head? = some '&' then
      findSymbols style (f.pass [c, '&']) rest.tail
    else if c = '&' ∧ startsName then
      found .variable_ name :: findSymbols style (f.pass (c :: name)) behind
    else match f.quoted, style with
      | false, some style' =>
        let g := f.nested c
        if c = '.' ∧ startsName ∧ f.mayStartSequence then
          found .sequence name :: findSymbols style (g.pass (c :: name)) behind
        else if isNameStart c ∧ !f.insideName then
          let more := findSymbols style (g.pass (c :: name)) behind
          if isSkipped style' g.depth (c :: name) behind.head? then more
          else found .ordinary (c :: name) :: more
        else if c.isDigit then findSymbols style (g.pass (c :: name)) behind
        else findSymbols style (g.pass [c]) rest
      | _, _ => findSymbols style (f.pass [c]) rest
termination_by s.length
decreasing_by
  all_goals
    have := (List.dropWhile_sublist isNameChar (l := rest)).length_le
    simp only [List.length_cons, List.length_tail]
    omega

/-- The stretch of columns of a field; a continued field has none behind its first line. -/
def Field.columns? (f : Field) (first behind : Nat) : Option Span :=
  let start := f.span.start
  if start.line ≠ f.span.stop.line ∧ continuationColumn < start.column + behind then none
  else some ⟨⟨start.line, start.column + first⟩, start.line, start.column + behind⟩

/-- The occurrence of a name as written. -/
def occurrence (kind : OccurrenceKind) (name : List Char) (span : Span) : Occurrence :=
  { kind, name := String.ofList (Text.upperChars name), span }

/-- The occurrences in a field. -/
def fieldOccurrences (style : Option OperandStyle) (f : Field) : List Occurrence :=
  (findSymbols style {} f.text).filterMap fun o =>
    (f.columns? o.first o.behind).map (occurrence o.kind o.name)

/-! ### Statements -/

/-- The occurrences in a label. -/
def labelOccurrences (f : Field) : List Occurrence :=
  if f.text.contains '&' then fieldOccurrences none f
  else match f.text with
    | '.' :: name => [occurrence .sequence name f.span]
    | name => [occurrence .ordinary name f.span]

/-- The occurrences in an instruction field, with the macro that it calls. -/
def instructionOccurrences (callee : Option MacroDefinition) (f : Field) : List Occurrence :=
  if f.text.contains '&' then fieldOccurrences none f
  else [{ occurrence .instruction f.text f.span with callee }]

/-- The occurrences in the operands of an operation code. -/
def operandOccurrences (opcode : String) (operands : List Field) : List Occurrence :=
  let scanned := operands.flatMap (fieldOccurrences (some (operandStyle opcode)))
  match operands with
  | first :: _ =>
    if opcode = "COPY" ∧ !first.text.isEmpty ∧ !first.text.contains '&' then
      [occurrence .copyMember first.text first.span]
    else scanned
  | [] => scanned

/-- The occurrences in a statement that calls the given macro, if any. -/
def Statement.occurrences (s : Statement) (callee : Option MacroDefinition) : List Occurrence :=
  (s.label.map labelOccurrences).getD []
    ++ (s.instruction.map (instructionOccurrences callee)).getD []
    ++ operandOccurrences s.opcode s.operands

end AssemblerIndex
