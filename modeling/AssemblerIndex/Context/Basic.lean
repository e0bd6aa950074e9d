import AssemblerIndex.Instruction.Catalogue
import AssemblerIndex.Moment
import AssemblerIndex.Settings
import AssemblerIndex.Symbol
import Std.Data.TreeSet

/-!
# The state of an assembly

Open code and each macro call have a scope with variables of their own; the calls come innermost
first.  Global SET symbols live outside of the scopes, and a scope only tells that a name stands for
one.  Beside the scopes stand the sources with their open copy members, the levels of processing,
the tables of macros, copy members and synonyms, and the ordinary symbols.
-/

namespace AssemblerIndex

/-- What a name in a scope stands for. -/
inductive Binding where
  /-- a SET symbol of the scope -/
  | own (s : SetSymbol)
  /-- the global SET symbol of that name -/
  | userGlobal
  /-- the global system variable of that name -/
  | systemGlobal
  deriving Inhabited

/-- The names and labels of open code or of one macro call. -/
structure Scope where
  bindings : Table Binding := {}
  systemVariables : Table Variable := {}
  sequenceSymbols : Table SequenceSymbol := {}
  branchCounter : Int32
  /-- the number of times that the branch counter was set -/
  branchCounterChanges : Int32 := 0
  deriving Inhabited

/-- A macro call that is being expanded. -/
structure Call where
  invocation : Invocation
  scope : Scope
  deriving Inhabited

/-- The state of an assembly. -/
structure Context where
  /-- the file of the open code -/
  file : String
  /-- the initial branch counter of every scope -/
  branchLimit : Int32
  /-- the names that have been met -/
  names : Std.TreeSet String
  openCode : Scope
  /-- the macro calls, innermost first -/
  calls : List Call := []
  /-- the outermost source -/
  base : Source
  /-- the further sources, innermost first -/
  sources : List Source := []
  /-- the levels of processing on top of ordinary processing, innermost first -/
  levels : List Level := []
  globals : Table SetSymbol := {}
  systemGlobals : Table SetSymbol
  macros : Table MacroDefinition := {}
  /-- the number of macro definitions that were registered -/
  registrations : Nat := 0
  copyMembers : Table CopyMember := {}
  /-- operation codes and what they are synonyms of; nothing for one that was removed -/
  synonyms : Table String := {}
  symbols : SymbolTable := {}
  /-- the number of macro calls so far -/
  callCount : Nat := 0
  visited : List String
  deriving Inhabited

/-- A transition that is not possible. -/
inductive ContextError where
  | unknownMacro (name : String)
  | unknownCopyMember (name : String)
  | sequenceSymbolInMacro
  | undefinedOpcode (name : String)
  | openCodeExit
  | copyUnderflow
  | snapshotDepth
  | processingUnderflow
  deriving DecidableEq, Repr

/-- The wording of an error. -/
def ContextError.message : ContextError → String
  | .unknownMacro name => "unknown macro " ++ name
  | .unknownCopyMember name => "unknown copy member " ++ name
  | .sequenceSymbolInMacro => "adding sequence symbols to macro definition not allowed"
  | .undefinedOpcode name => "undefined operation code " ++ name
  | .openCodeExit => "open code cannot be left"
  | .copyUnderflow => "no copy member is open"
  | .snapshotDepth => "source snapshot requires a single processing frame"
  | .processingUnderflow => "processing stack underflow"

/-! ### The beginning of an assembly -/

/-- A global system variable with its value. -/
def systemGlobal (v : SetValue) (type : SetType) : SetSymbol :=
  (SetSymbol.declared type true true).assign none v

/-- The global system variables of an assembly that starts at a moment. -/
def systemGlobals (settings : Settings) (now : Moment) : Table SetSymbol :=
  Table.ofList [
    ("SYSDATC", systemGlobal (.character now.dateDigits) .character),
    ("SYSDATE", systemGlobal (.character now.dateSlashed) .character),
    ("SYSTIME", systemGlobal (.character now.timeOfDay) .character),
    ("SYSPARM", systemGlobal (.character settings.sysparm.toList) .character),
    ("SYSOPT_RENT", systemGlobal (.boolean settings.rent) .boolean)]

/-- A scope that knows the given global system variables. -/
def Scope.start (branchLimit : Int32) (systemGlobals : Table SetSymbol) : Scope :=
  { branchCounter := branchLimit, bindings := systemGlobals.map fun _ => .systemGlobal }

namespace Context

/-- The state in which the assembly of a file starts. -/
def start (file : String) (settings : Settings) (now : Moment) : Context :=
  let globals := AssemblerIndex.systemGlobals settings now
  let limit := Int32.ofInt settings.branchLimit
  { file
    branchLimit := limit
    names := Std.TreeSet.ofList ("" :: catalogue.map (·.name) ++ globals.names)
    openCode := .start limit globals
    base := .start file
    systemGlobals := globals
    visited := [file] }

/-- Notes names that have been met. -/
def meet (x : Context) (names : List String) : Context :=
  { x with names := x.names.insertMany names }

/-- Notes a file that was visited. -/
def visit (x : Context) (file : String) : Context :=
  if file ∈ x.visited then x else { x with visited := x.visited ++ [file] }

/-! ### Scopes -/

/-- The current scope. -/
def scope (x : Context) : Scope :=
  match x.calls with
  | c :: _ => c.scope
  | [] => x.openCode

/-- Changes the current scope. -/
def mapScope (f : Scope → Scope) (x : Context) : Context :=
  match x.calls with
  | c :: cs => { x with calls := { c with scope := f c.scope } :: cs }
  | [] => { x with openCode := f x.openCode }

/-- The innermost call. -/
def invocation? (x : Context) : Option Invocation := x.calls.head?.map (·.invocation)

/-- A macro is being expanded. -/
def isInMacro (x : Context) : Bool := !x.calls.isEmpty

/-- The number of scopes. -/
def depth (x : Context) : Nat := x.calls.length + 1

/-- Moves the innermost call to a statement. -/
def setMacroStatement (x : Context) (index : Nat) : Context :=
  match x.calls with
  | c :: cs =>
    { x with calls := { c with invocation := { c.invocation with current := index } } :: cs }
  | [] => x

/-! ### Variables -/

/-- The SET symbol that a binding of a name stands for. -/
def bound? (x : Context) (name : String) : Binding → Option SetSymbol
  | .own s => some s
  | .userGlobal => x.globals.find? name
  | .systemGlobal => x.systemGlobals.find? name

/-- The variable visible under a name: a SET symbol of the current scope, a system variable, or a
parameter of the current call. -/
def visible? (x : Context) (name : String) : Option Variable :=
  match x.scope.bindings.find? name with
  | some b => (x.bound? name b).map .set
  | none =>
    match x.scope.systemVariables.find? name with
    | some v => some v
    | none => x.invocation?.bind (·.parameters.find? name)

/-- Binds a name in the current scope. -/
def bind (x : Context) (name : String) (b : Binding) : Context :=
  x.mapScope fun s => { s with bindings := s.bindings.insert name b }

/-- Declares a SET symbol of the current scope; an earlier declaration stands. -/
def declareLocal (x : Context) (name : String) (type : SetType) (isScalar : Bool) : Context :=
  if x.scope.bindings.contains name then x
  else x.bind name (.own (.declared type isScalar false))

/-- Declares a global SET symbol, which is created by its first declaration. -/
def declareGlobal (x : Context) (name : String) (type : SetType) (isScalar : Bool) : Context :=
  let x := if x.globals.contains name then x
    else { x with globals := x.globals.insert name (.declared type isScalar true) }
  x.bind name .userGlobal

/-- Assigns the SET symbol visible under a name; `none` if there is none. -/
def assign? (x : Context) (name : String) (subscript : Option Nat) (v : SetValue) :
    Option Context :=
  match x.scope.bindings.find? name with
  | some (.own s) => some (x.bind name (.own (s.assign subscript v)))
  | some .userGlobal =>
    (x.globals.find? name).map fun s =>
      { x with globals := x.globals.insert name (s.assign subscript v) }
  | some .systemGlobal =>
    (x.systemGlobals.find? name).map fun s =>
      { x with systemGlobals := x.systemGlobals.insert name (s.assign subscript v) }
  | none => none

/-! ### Branches -/

/-- Sets the branch counter of the current scope. -/
def setBranchCounter (x : Context) (n : Int32) : Context :=
  x.mapScope fun s =>
    { s with branchCounter := n, branchCounterChanges := s.branchCounterChanges + 1 }

/-- Counts a branch in the current scope. -/
def countBranch (x : Context) : Context :=
  x.mapScope fun s => { s with branchCounter := s.branchCounter - 1 }

/-- Adds a sequence symbol of open code; an earlier one of its name stands. -/
def addSequenceSymbol (x : Context) (s : SequenceSymbol) : Except ContextError Context :=
  if x.isInMacro then .error .sequenceSymbolInMacro
  else if x.openCode.sequenceSymbols.contains s.name then .ok x
  else .ok { x with openCode :=
    { x.openCode with sequenceSymbols := x.openCode.sequenceSymbols.insert s.name s } }

/-- The sequence symbol of a name: in a macro one of its definition, else one of open code. -/
def sequenceSymbol? (x : Context) (name : String) : Option SequenceSymbol :=
  match x.invocation? with
  | some i => i.definition.labels.find? name
  | none => x.openCode.sequenceSymbols.find? name

end Context

end AssemblerIndex
