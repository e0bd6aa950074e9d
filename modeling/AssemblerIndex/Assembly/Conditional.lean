import AssemblerIndex.Assembly.Definition

/-!
# Conditional assembly

Declaring and assigning SET symbols, and branching to sequence symbols.  In a macro the target of a
branch is a label of its definition.  In open code it is a label of the same file that was passed or
that a search forward finds; the search notes the labels on its way.  Every branch lowers the branch
counter of its scope, and a counter below zero leaves the listing.
-/

namespace AssemblerIndex

/-- The statement is labelled by the sequence symbol, up to the case of ASCII letters. -/
def Statement.hasLabel (s : Statement) (name : String) : Bool :=
  match s.labelText with
  | '.' :: label => Text.sameAscii (String.ofList label) name
  | _ => false

namespace Assembly

/-! ### SET symbols -/

/-- Records the declaration of a SET symbol outside of macros. -/
def declaration (a : Assembly) (p : Activation) (name : String) (type : SetType) (isGlobal : Bool)
    (pos : Position) : Assembly :=
  match p.definition? with
  | some _ => a
  | none =>
    let d : Declaration :=
      { name, kind := .set type isGlobal, file := p.file, pos, stack := a.context.stack }
    { a with declarations := declareOnce a.declarations d }

/-- Declares the SET symbol that an operand names. -/
def declareOperand (p : Activation) (opcode : String) (a : Assembly) (o : Field) : Assembly :=
  match splitVariable o.text with
  | none => a
  | some (name, subscript) =>
    let isGlobal := declaresGlobals opcode
    let type := setTypeOf opcode
    let a := (a.meet [name]).mapContext fun x =>
      if isGlobal then x.declareGlobal name type subscript.isNone
      else x.declareLocal name type subscript.isNone
    a.declaration p name type isGlobal o.span.start

/-- Assigns the values of operands to a SET symbol or, from `base` on, to its elements; the rest is
passed over if the name is that of a parameter. -/
def assignOperands (a : Assembly) (name : String) (type : SetType) (base : Option Nat) :
    List Field → Assembly
  | [] => a
  | o :: rest =>
    match a.context.assign? name base ((a.evaluate o.text).coerce type) with
    | some x => assignOperands { a with context := x } name type (base.map (· + 1)) rest
    | none => a

/-- Processes an assignment; a name without a variable is declared by it. -/
def assign (a : Assembly) (p : Activation) (s : Statement) (opcode : String) : Assembly :=
  match splitVariable s.labelText with
  | none => a
  | some (name, subscript) =>
    let type := setTypeOf opcode
    let a := a.meet [name]
    let a := match a.context.visible? name, s.label with
      | none, some l =>
        (a.mapContext (·.declareLocal name type subscript.isNone)).declaration p name type false
          l.span.start
      | _, _ => a
    let base := subscript.map fun t => max 1 (a.evaluate t).toWord.toInt.toNat
    a.assignOperands name type base s.operands

/-! ### Branches -/

/-- Registers the sequence symbol that labels a statement of open code. -/
def noteLabel (a : Assembly) (file : String) (index : Nat) (s : Statement) : Assembly :=
  match s.sequenceLabel? with
  | none => a
  | some (name, pos) =>
    (a.meet [name]).attempt (·.addSequenceSymbol ⟨name, ⟨file, pos⟩, index⟩)

/-- Searches the statements from `index` on for a label outside of macro definitions, and registers
the labels on the way. -/
def seek (a : Assembly) (file target : String) (depth : Int) (index : Nat) :
    List Statement → Assembly × Option Nat
  | [] => (a, none)
  | s :: rest =>
    let depth := openDefinitions depth s.opcode
    if 0 < depth then a.seek file target depth (index + 1) rest
    else
      let a := a.noteLabel file index s
      if s.hasLabel target then (a, some index) else a.seek file target depth (index + 1) rest

/-- The statement of the listing that a sequence symbol labels. -/
def target? (a : Assembly) (p : Activation) (name : String) : Assembly × Option Nat :=
  match p.definition? with
  | some d => (a, (d.labels.find? name).map (·.offset))
  | none =>
    match (a.context.sequenceSymbol? name).filter (·.location.file == p.file) with
    | some l => (a, some l.offset)
    | none =>
      let ahead := (p.statements.extract (p.index + 1) p.statements.size).toList
      let (a, found) :=
        (a.mapContext (·.pushLevel .lookahead)).seek p.file name 0 (p.index + 1) ahead
      (a.attempt Context.popLevel, found)

/-- Branches to a sequence symbol; without it processing goes on. -/
def branch (a : Assembly) (p : Activation) (target : String) : Assembly × Flow :=
  let name := Text.upper target
  match (a.meet [name]).target? p name with
  | (a, some i) =>
    let a := a.mapContext (·.countBranch)
    if a.context.scope.branchCounter < 0 then (a, .exit) else (a, .jump i)
  | (a, none) => (a, .next)

/-- Branches to a sequence symbol if there is one to branch to. -/
def follow (a : Assembly) (p : Activation) : Option String → Assembly × Flow
  | some target => a.branch p target
  | none => (a, .next)

/-- The target that a further operand of a computed branch names. -/
def furtherTarget (o : Field) : String := String.ofList (o.text.dropWhile (· = '.'))

/-- The target of `AGO .TARGET` or of a computed `AGO (number).FIRST,.SECOND`. -/
def alwaysTarget? (a : Assembly) : List Field → Option String
  | [] => none
  | first :: rest =>
    match first.text with
    | '.' :: target => some (String.ofList target)
    | text =>
      match splitBranch text with
      | none => none
      | some (number, target) =>
        let k := (a.evaluate number).toWord.toInt
        if k < 1 then none else (target :: rest.map furtherTarget)[(k - 1).toNat]?

/-- The target of an `AIF`: that of the first operand whose condition holds. -/
def trueTarget? (a : Assembly) : List Field → Option String
  | [] => none
  | o :: rest =>
    match splitBranch o.text with
    | none => none
    | some (condition, target) =>
      if (a.evaluate condition).toBool then some target else trueTarget? a rest

/-- Processes a statement of conditional assembly; `none` if the operation code is none. -/
def conditional? (a : Assembly) (p : Activation) (s : Statement) (opcode : String) :
    Option (Assembly × Flow) :=
  if declaresSymbols opcode then some (s.operands.foldl (declareOperand p opcode) a, .next)
  else if assignsSymbol opcode then some (a.assign p s opcode, .next)
  else match opcode with
    | "AGO" => some (a.follow p (a.alwaysTarget? s.operands))
    | "AIF" => some (a.follow p (a.trueTarget? s.operands))
    | "ACTR" => some (a.mapContext (·.setBranchCounter (a.evaluate s.operandText).toWord), .next)
    | "MEXIT" => some (a, if p.definition?.isSome then .exit else .next)
    | "MEND" => some (a, .exit)
    | "ANOP" | "MNOTE" | "AEJECT" | "ASPACE" | "AREAD" | "ACTRL" => some (a, .next)
    | _ => none

end Assembly

end AssemblerIndex
