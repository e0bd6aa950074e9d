import AssemblerIndex.Assembly.Conditional
import AssemblerIndex.Assembly.Ordinary

/-!
# Running an assembly

A step processes one statement of the innermost listing.  A statement of open code is first noted as
it is written; then it is processed as conditional assembly, or else its variable symbols are replaced
and it is processed as a copy, a macro call or an ordinary statement.  A call and a copy enter a
further listing, and the run is over when no listing is left.
-/

namespace AssemblerIndex

/-- The argument of a macro call that an operand stands for; `NAME=` makes it a keyword argument. -/
def Argument.ofText (text : List Char) : Argument :=
  let name := text.takeWhile (· ≠ '=')
  match text.dropWhile (· ≠ '=') with
  | _ :: value =>
    if name.head?.any isNameStart && name.all isNameChar then
      { keyword := some (String.ofList (Text.upperChars name)), data := .ofText value }
    else { keyword := none, data := .ofText text }
  | [] => { keyword := none, data := .ofText text }

namespace Assembly

/-! ### Statements -/

/-- Notes the label and the occurrences of a statement in open code. -/
def noteStatement (a : Assembly) (p : Activation) (s : Statement) : Assembly :=
  let file := p.file
  let (a, callee) := (a.noteLabel file p.index s).macro? s.opcode
  let found := s.occurrences callee
  let a := a.meet (found.map (·.name))
  { a with occurrences := (found.map (file, ·)).reverse ++ a.occurrences }

/-- The data that a call binds to the label parameter; a sequence symbol is not passed on. -/
def labelData? (s : Statement) : Option MacroData :=
  match s.label with
  | some l => if l.text.head? = some '.' then none else some (.single l.text)
  | none => none

/-- Calls a macro, unless the calls are nested too deeply already. -/
def callMacro (a : Assembly) (d : MacroDefinition) (s : Statement) : Assembly × Flow :=
  if a.settings.maxNesting.toNat < a.context.depth then (a, .next)
  else
    let args := s.operands.map fun o => Argument.ofText o.text
    let a := a.meet (args.filterMap (·.keyword))
    match a.context.enterMacro d.name (labelData? s) args with
    | .error e => (a.fail e, .next)
    | .ok x =>
      let entered := (x.invocation?.map (·.definition)).getD d
      ({ a with context := x }, .enter (.macroBody entered))

/-- Opens the copy member that a `COPY` statement names, unless it is open already. -/
def copy (a : Assembly) (s : Statement) : Assembly × Flow :=
  match s.operands with
  | ⟨c :: cs, _⟩ :: _ =>
    match a.copyMember? (String.ofList (Text.upperChars (c :: cs))) with
    | (a, none) => (a, .next)
    | (a, some m) =>
      if a.context.openCopyMembers.contains m.name then (a, .next)
      else match a.context.enterCopy m.name with
        | .ok x => ({ a with context := x }, .enter (.copyMember m))
        | .error e => (a.fail e, .next)
  | _ => (a, .next)

/-- Processes a statement whose variable symbols have been replaced. -/
def processSubstituted (a : Assembly) (p : Activation) (s : Statement) :
    Except AssemblyFault (Assembly × Flow) :=
  if s.opcode.isEmpty then .ok (a, .next)
  else
    let a := a.meet [s.opcode]
    let opcode := a.context.operation s.opcode
    let inMacro := p.definition?.isSome
    if opcode.isEmpty then .ok (a, .next)
    else if opcode = "COPY" then .ok (if inMacro then (a, .next) else a.copy s)
    else if opcode = "END" then .ok (a, if inMacro then .next else .exit)
    else match a.macro? opcode with
      | (a, some d) => .ok (a.callMacro d s)
      | (a, none) => (a.ordinary p.file s opcode).map (·, .next)

/-- What comes before a statement is executed: one of open code is noted. -/
def prepare (a : Assembly) (p : Activation) (s : Statement) : Assembly :=
  (if p.definition?.isSome then a else a.noteStatement p s).meet [s.opcode]

/-- Processes a statement. -/
def process (a : Assembly) (p : Activation) (s : Statement) :
    Except AssemblyFault (Assembly × Flow) :=
  let a := a.prepare p s
  match a.conditional? p s (a.context.operation s.opcode) with
  | some r => .ok r
  | none => a.processSubstituted p (s.substituted a.context)

/-! ### Listings -/

/-- The statements of a listing from the current one on, with their nests. -/
def nestedStatements (p : Activation) : List NestedStatement :=
  match p.definition? with
  | some d => d.nestedBody.drop p.index
  | none => (p.statements.toList.drop p.index).map (.direct p.file)

/-- Moves the state of the assembler to a statement. -/
def moveTo (a : Assembly) (p : Activation) (s : Statement) : Assembly :=
  a.mapContext fun x =>
    if p.definition?.isSome then x.setMacroStatement p.index else x.track s p.index

/-- The transition that leaving a listing makes. -/
def leaving : Listing → Context → Except ContextError Context
  | .openCode _ _ => .ok
  | .copyMember _ => Context.leaveCopy
  | .macroBody _ => Context.leaveMacro

/-- Leaves the innermost listing. -/
def leave (a : Assembly) : Assembly :=
  match a.control with
  | [] => a
  | p :: outer => { a with control := outer }.attempt (leaving p.listing)

/-- Goes on behind a statement of the innermost listing, of which `outer` are the others.  An exit from
open code ends it together with its copy members. -/
def proceed (a : Assembly) (p : Activation) (outer : List Activation) : Flow → Assembly
  | .next => { a with control := { p with index := p.index + 1 } :: outer }
  | .jump i => { a with control := { p with index := i } :: outer }
  | .enter l => { a with control := { listing := l } :: { p with index := p.index + 1 } :: outer }
  | .exit =>
    if p.definition?.isSome then a.leave else a.control.foldl (fun a _ => a.leave) a

/-- Reads the definition that starts at the current statement, and goes on behind it. -/
def readDefinition (a : Assembly) (p : Activation) (outer : List Activation) : Assembly :=
  let items := throughMend 0 (nestedStatements p)
  let a := match p.definition? with
    | some _ => (a.define items false).1
    | none =>
      ((a.mapContext (·.pushLevel .macroDefinition)).define items false).1.attempt Context.popLevel
  a.proceed p outer (.jump (p.index + items.length))

/-- Processes the next statement. -/
def step (a : Assembly) : Except AssemblyFault Assembly :=
  match a.control with
  | [] => .ok a
  | p :: outer =>
    match p.statement? with
    | none => .ok a.leave
    | some s =>
      let a := a.moveTo p s
      if s.opcode = "MACRO" then .ok (a.readDefinition p outer)
      else if s.opcode = "MEND" ∧ p.definition?.isSome then .ok a.leave
      else (a.process p s).map fun r => r.1.proceed p outer r.2

/-- Every listing has been left. -/
def isFinished (a : Assembly) : Bool := a.control.isEmpty

/-- Takes steps until the assembly is finished, but at most the given number. -/
def run : Nat → Assembly → Except AssemblyFault Assembly
  | 0, a => .ok a
  | n + 1, a =>
    if a.isFinished then .ok a
    else match a.step with
      | .ok a => run n a
      | .error e => .error e

/-- A number of steps that no assembly takes in any practical time. -/
def stepLimit : Nat := 0x4000000000000000

/-- The end of an assembly. -/
def finish (a : Assembly) : Except AssemblyFault Assembly := a.run stepLimit

end Assembly

end AssemblerIndex
