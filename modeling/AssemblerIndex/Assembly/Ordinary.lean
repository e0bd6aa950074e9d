import AssemblerIndex.Assembly.Definition
import AssemblerIndex.DataOperand

/-!
# Ordinary assembly

Sections, location counters, equates, data and machine instructions: what defines ordinary symbols
and moves the location counter.  No object code is generated.
-/

namespace AssemblerIndex

/-- What ends an assembly before its time. -/
inductive AssemblyFault where
  /-- an operand ends with the parenthesis that opens its nominal values -/
  | nothingOpened
  deriving DecidableEq, Repr

/-! ### Signed terms -/

/-- A term and whether it is subtracted. -/
structure SignedTerm where
  isNegative : Bool
  text : List Char
  deriving DecidableEq, Repr, Inhabited

/-- Where the splitting of an expression into terms stands; parentheses may be unbalanced. -/
structure TermScan where
  quoted : Bool := false
  depth : Int := 0
  deriving Inhabited

/-- Takes a character between `before` and `next` into account. -/
def TermScan.after (n : TermScan) (before : List Char) (c : Char) (next : Option Char) : TermScan :=
  if c = '\'' ∧ isAttributeQuote before next = false then { n with quoted := !n.quoted }
  else if n.quoted then n
  else if c = '(' then { n with depth := n.depth + 1 }
  else if c = ')' then { n with depth := n.depth - 1 }
  else n

/-- Splits the rest of an expression behind `before` at the signs outside of quotes and parentheses;
`current` is the term so far, last character first, and a sign that starts a term belongs to it. -/
def signedTermsFrom (n : TermScan) (isNegative : Bool) (before current : List Char) :
    List Char → List SignedTerm
  | [] => [⟨isNegative, current.reverse⟩]
  | c :: rest =>
    if (c = '+' ∨ c = '-') ∧ !n.quoted ∧ n.depth = 0 ∧ current ≠ [] then
      ⟨isNegative, current.reverse⟩ :: signedTermsFrom n (c = '-') (c :: before) [] rest
    else signedTermsFrom (n.after before c rest.head?) isNegative (c :: before) (c :: current) rest

/-- Splits a sum such as `A+B-C` into its terms. -/
def signedTerms (s : List Char) : List SignedTerm := signedTermsFrom {} false [] [] s

namespace SymbolTable

/-- The value of the symbol that a text names in any case. -/
def named? (t : SymbolTable) (s : List Char) : Option Symbol :=
  t.find? (String.ofList (Text.upperChars s))

/-- The value of a term: the location counter, a self-defining term, or a symbol.  A term that stands
for the location counter starts the unnamed section if no section is in use. -/
def termValue (t : SymbolTable) (s : List Char) : SymbolTable × SymbolValue :=
  if s = ['*'] then (t.ensureSection, t.ensureSection.place)
  else match SelfDefiningTerm.value? s with
    | some n => (t, .absolute n)
    | none => (t, ((t.named? s).map (·.value)).getD .undefined)

/-- The sum of terms on top of an absolute part and possibly a place in a section.  Two places of one
section may cancel out; every other combination is undefined, and the terms behind it are not
looked at. -/
def sumTerms (t : SymbolTable) (absolute : Int32) (base : Option (Nat × Int32)) :
    List SignedTerm → SymbolTable × SymbolValue
  | [] =>
    match base with
    | some (i, offset) => (t, .relocatable i (offset + absolute))
    | none => (t, .absolute absolute)
  | term :: rest =>
    let (t, value) := t.termValue term.text
    match value, term.isNegative, base with
    | .absolute n, isNegative, base =>
      t.sumTerms (absolute + (if isNegative then -n else n)) base rest
    | .relocatable i offset, false, none => t.sumTerms absolute (some (i, offset)) rest
    | .relocatable i offset, true, some (j, start) =>
      if j = i then t.sumTerms (absolute + (start - offset)) none rest else (t, .undefined)
    | _, _, _ => (t, .undefined)

/-- The value of a sum of terms. -/
def sumValue (t : SymbolTable) (s : List Char) : SymbolTable × SymbolValue :=
  t.sumTerms 0 none (signedTerms s)

end SymbolTable

namespace Assembly

/-! ### Definitions of symbols -/

/-- Changes the table of ordinary symbols. -/
def mapSymbols (f : SymbolTable → SymbolTable) (a : Assembly) : Assembly :=
  a.mapContext fun x => { x with symbols := f x.symbols }

/-- The place of the label of a statement, or of the statement itself. -/
def labelLocation (file : String) (s : Statement) : Location :=
  match s.label with
  | some l => ⟨file, l.span.start⟩
  | none => ⟨file, s.position⟩

/-- Defines the label of a statement. -/
def defineLabel (a : Assembly) (file : String) (s : Statement) (value : SymbolValue)
    (attributes : SymbolAttributes) : Assembly :=
  match s.ordinaryLabel? with
  | none => a
  | some name =>
    let a := a.meet [name]
    a.mapSymbols (·.define
      { name, value, attributes, location := labelLocation file s, stack := a.context.stack })

/-- Goes on with the section that the label of a statement names, or starts it. -/
def startSection (a : Assembly) (file : String) (s : Statement) (kind : SectionKind) : Assembly :=
  let name := s.ordinaryLabel?.getD ""
  let a := a.meet [name]
  a.mapSymbols (·.setSection name kind (labelLocation file s) a.context.stack)

/-- Goes on with the location counter that the label of a statement names, or starts it. -/
def startCounter (a : Assembly) (file : String) (s : Statement) : Assembly :=
  match s.ordinaryLabel? with
  | none => a
  | some name =>
    let a := a.meet [name]
    a.mapSymbols (·.setCounter name (labelLocation file s) a.context.stack)

/-- The self-defining term in an operand. -/
def operandTerm? (s : Statement) (i : Nat) : Option Int32 :=
  (s.operands[i]?).bind fun o => SelfDefiningTerm.value? o.text

/-- The length attribute of the symbol that an `EQU` with the given first operand defines.  Without a second
operand the symbol takes that of the symbol that the first one names. -/
def equateLength (t : SymbolTable) (s : Statement) (first : Field) : Option UInt32 :=
  match operandTerm? s 1, t.named? first.text with
  | some n, _ => some n.toUInt32
  | none, some symbol => symbol.attributes.length
  | none, none => if first.text = ['*'] then some 1 else none

/-- Processes an `EQU`: its operands are the value, the length and the type of the symbol. -/
def equate (a : Assembly) (file : String) (s : Statement) : Assembly :=
  match s.operands with
  | [] => a
  | first :: _ =>
    let (t, value) := a.context.symbols.sumValue first.text
    let type := match operandTerm? s 2 with
      | some n => Ebcdic.decode n.toUInt32.toUInt8
      | none => 'U'
    (a.mapSymbols fun _ => t).defineLabel file s value
      (.ofType .equate type (equateLength t s first))

/-- Processes the operands of a `DC` or `DS`; the first usable one defines the label. -/
def defineData (a : Assembly) (file : String) (s : Statement) (labelled : Bool) :
    List Field → Except AssemblyFault Assembly
  | [] => .ok a
  | o :: rest =>
    match DataOperand.parse o.text with
    | .error .untyped => defineData a file s labelled rest
    | .error .nothingOpened => .error .nothingOpened
    | .ok d =>
      let a := a.mapSymbols (·.align d.alignment)
      let a := if labelled then a
        else a.defineLabel file s a.context.symbols.place
          (.ofType .data d.type (some d.length.toUInt32))
      defineData (a.mapSymbols (·.reserve d.size)) file s true rest

/-- The number of bytes that a machine instruction takes. -/
def machineLength (opcode : String) : Nat :=
  match instruction? opcode with
  | some i => if i.length = 0 then 4 else i.length
  | none => 4

/-- Processes a machine instruction. -/
def machine (a : Assembly) (file : String) (s : Statement) (opcode : String) : Assembly :=
  let length := machineLength opcode
  let a := a.mapSymbols (·.align 2)
  let a := a.defineLabel file s a.context.symbols.place
    (.ofType .machine 'I' (some (UInt32.ofNat length)))
  a.mapSymbols (·.reserve (Int32.ofNat length))

/-- Processes an `OPSYN`: makes the label a synonym of the operand, or takes it out of use. -/
def defineSynonym (a : Assembly) (s : Statement) : Assembly :=
  match s.ordinaryLabel? with
  | none => a
  | some name =>
    let a := a.meet [name]
    match s.operands with
    | ⟨c :: cs, _⟩ :: _ =>
      let target := String.ofList (Text.upperChars (c :: cs))
      let a := a.meet [target]
      let a :=
        if a.context.macros.contains target || (instructionKind? target).isSome then a
        else (a.loadMacro target).1
      a.attempt (·.addSynonym name target)
    | _ => a.mapContext (·.removeSynonym name)

/-- Processes a statement whose operation code is no macro. -/
def ordinary (a : Assembly) (file : String) (s : Statement) (opcode : String) :
    Except AssemblyFault Assembly :=
  match opcode with
  | "CSECT" | "START" => .ok (a.startSection file s .executable)
  | "DSECT" => .ok (a.startSection file s .dummy)
  | "RSECT" => .ok (a.startSection file s .readonly)
  | "COM" => .ok (a.startSection file s .common)
  | "LOCTR" => .ok (a.startCounter file s)
  | "EQU" => .ok (a.equate file s)
  | "DC" | "DS" => a.defineData file s false s.operands
  | "OPSYN" => .ok (a.defineSynonym s)
  | _ =>
    match instructionKind? opcode with
    | some .machine | some .mnemonic => .ok (a.machine file s opcode)
    | _ => .ok a

end Assembly

end AssemblerIndex
