import AssemblerIndex.Context.Sources

/-!
# Macros and operation codes

A macro call gets a scope of its own with the system variables of the call.  An operation code may be
made a synonym of another one or be taken out of use.
-/

namespace AssemblerIndex.Context

/-! ### Operation codes -/

/-- Makes an operation code a synonym of another one, or of what that one is a synonym of. -/
def addSynonym (x : Context) (name target : String) : Except ContextError Context :=
  let enter (t : String) : Context := { x with synonyms := x.synonyms.insert name t }
  match x.synonyms.find? target with
  | some t => .ok (enter t)
  | none =>
    if x.macros.contains target || (instructionKind? target).isSome then .ok (enter target)
    else .error (.undefinedOpcode target)

/-- Takes an operation code out of use. -/
def removeSynonym (x : Context) (name : String) : Context :=
  { x with synonyms := x.synonyms.insert name "" }

/-- The operation code that a name denotes, the empty name if it is out of use.  A synonym of a code
that was taken out of use afterwards is out of use, too. -/
def operation (x : Context) (name : String) : String :=
  match x.synonyms.find? name with
  | none => name
  | some target =>
    if target ≠ name ∧ x.synonyms.find? target = some "" then "" else target

/-! ### Macros -/

/-- Registers a macro in the place of an earlier one of its name.  The definition as registered is
the second component. -/
def addMacro (x : Context) (d : MacroDefinition) : Context × MacroDefinition :=
  let d := { d with serial := x.registrations }
  ({ x with macros := x.macros.insert d.name d, registrations := x.registrations + 1 }, d)

/-- A system variable of a call. -/
def callVariable (type : SetType) (v : SetValue) : Binding :=
  .own ((SetSymbol.declared type true false).assign none v)

/-- The names of the macros that are being expanded, innermost first, and of open code. -/
def callChain (x : Context) : List MacroData :=
  (x.calls.map fun c => .single c.invocation.definition.name.toList) ++ [.single "OPEN CODE".toList]

/-- The scope of a call that is about to be entered; `x` already holds the call. -/
def callScope (x : Context) (s : Scope) : Scope :=
  let section_ := x.symbols.currentSection?
  let text (f : Section → String) : SetValue := .character ((section_.map f).getD "").toList
  let vars := [
    ("SYSECT", callVariable .character (text (·.name))),
    ("SYSNDX", callVariable .arithmetic (.arithmetic (Int32.ofNat x.callCount))),
    ("SYSSTYP", callVariable .character (text (·.kind.systemType))),
    ("SYSLOC", callVariable .character (text (·.counter.name))),
    ("SYSNEST", callVariable .arithmetic (.arithmetic (Int32.ofNat x.calls.length)))]
  { s with
    bindings := vars.foldl (fun t e => t.insert e.1 e.2) s.bindings
    systemVariables := s.systemVariables.insert "SYSMAC" (.sysList (.composite x.callChain)) }

/-- Enters a macro call. -/
def enterMacro (x : Context) (name : String) (label : Option MacroData) (args : List Argument) :
    Except ContextError Context :=
  match x.macros.find? name with
  | none => .error (.unknownMacro name)
  | some d =>
    let entered : Call := { invocation := d.call label args, scope := .start x.branchLimit x.systemGlobals }
    let x := { x with calls := entered :: x.calls }
    let x := x.mapScope x.callScope
    let x := x.meet ["SYSLIST", "SYSECT", "SYSNDX", "SYSSTYP", "SYSLOC", "SYSNEST", "SYSMAC"]
    .ok { x.visit d.location.file with callCount := x.callCount + 1 }

/-- Leaves the innermost macro call. -/
def leaveMacro (x : Context) : Except ContextError Context :=
  match x.calls with
  | _ :: cs => .ok { x with calls := cs }
  | [] => .error .openCodeExit

end AssemblerIndex.Context
