import AssemblerIndex.Proofs.Assembly.Core

/-!
# Definitions without places

What a macro does when it is called depends neither on the places of its statements nor on its number.  `bare`
leaves these out of a definition and of the calls in a state.  It leaves the table of macros out of a state, too, so
that states can be compared whose tables have been filled in another order.
-/

namespace AssemblerIndex

/-- The label without its place. -/
def SequenceSymbol.bare (l : SequenceSymbol) : SequenceSymbol := { l with location := default }

/-- The definition without its number, and without the places of its statements and labels. -/
def MacroDefinition.bare (d : MacroDefinition) : MacroDefinition :=
  { d with serial := 0, nests := #[], labels := d.labels.map SequenceSymbol.bare, location := default }

/-- The call of the bare definition. -/
def Call.bare (c : Call) : Call :=
  { c with invocation := { c.invocation with definition := c.invocation.definition.bare } }

/-- The state with calls of bare definitions, and without the table of macros. -/
def Context.bare (x : Context) : Context :=
  { x with calls := x.calls.map Call.bare, macros := {}, registrations := 0 }

namespace Table

variable {α β : Type} (f : α → β)

theorem map_insert (t : Table α) (n : String) (x : α) : (t.insert n x).map f = (t.map f).insert n (f x) := by
  obtain ⟨l⟩ := t
  refine congrArg mk (?_ : (insertEntry n x l).map (fun e => (e.1, f e.2)) = insertEntry n (f x) (l.map _))
  induction l with
  | nil => rfl
  | cons e rest ih =>
    rw [List.map_cons, insertEntry, insertEntry]
    split
    · rfl
    · rw [List.map_cons, ih]

end Table

namespace MacroDefinition

variable {d d' : MacroDefinition}

theorem name_of_bare (h : d.bare = d'.bare) : d.name = d'.name := congrArg (·.name) h

theorem body_of_bare (h : d.bare = d'.bare) : d.body = d'.body := congrArg (·.body) h

/-- The labels of a bare definition stand at the same statements. -/
theorem offset_of_bare (h : d.bare = d'.bare) (n : String) :
    (d.labels.find? n).map (·.offset) = (d'.labels.find? n).map (·.offset) := by
  have hl := congrArg (fun e : MacroDefinition => (e.labels.find? n).map (·.offset)) h
  simpa only [bare, Table.find?_map, Option.map_map, Function.comp_def, SequenceSymbol.bare] using hl

end MacroDefinition

namespace Context

variable {x y : Context}

theorem scope_bare (x : Context) : x.bare.scope = x.scope := by
  unfold scope bare
  cases x.calls <;> rfl

theorem visible?_bare (x : Context) : x.bare.visible? = x.visible? := by
  funext name
  have hparameters : x.bare.invocation?.bind (·.parameters.find? name) =
      x.invocation?.bind (·.parameters.find? name) := by
    unfold invocation? bare
    cases x.calls <;> rfl
  unfold visible?
  rw [scope_bare, hparameters]
  rfl

/-- Of the attributes only that of an operation code depends on the table of macros. -/
theorem symbolAttribute_bare (x : Context) {k : Attribute} (hk : k ≠ .opcode) :
    x.bare.symbolAttribute k = x.symbolAttribute k := by
  cases k with
  | opcode => exact absurd rfl hk
  | _ => rfl

theorem variableAttribute_bare (x : Context) {k : Attribute} (hk : k ≠ .opcode) :
    x.bare.variableAttribute k = x.variableAttribute k := by
  cases k with
  | opcode => exact absurd rfl hk
  | _ => rfl

/-! ### Changes of the state -/

theorem bare_mapScope (x : Context) (f : Scope → Scope) : (x.mapScope f).bare = x.bare.mapScope f := by
  unfold mapScope bare
  cases x.calls <;> rfl

theorem bare_bind (x : Context) (name : String) (b : Binding) : (x.bind name b).bare = x.bare.bind name b :=
  bare_mapScope ..

theorem bare_declareLocal (x : Context) (name : String) (type : SetType) (isScalar : Bool) :
    (x.declareLocal name type isScalar).bare = x.bare.declareLocal name type isScalar := by
  unfold declareLocal
  rw [scope_bare]
  split
  · rfl
  · exact bare_bind ..

theorem bare_declareGlobal (x : Context) (name : String) (type : SetType) (isScalar : Bool) :
    (x.declareGlobal name type isScalar).bare = x.bare.declareGlobal name type isScalar := by
  unfold declareGlobal
  dsimp only
  rw [bare_bind, show x.bare.globals = x.globals from rfl]
  split <;> rfl

theorem bare_assign? (x : Context) (name : String) (subscript : Option Nat) (v : SetValue) :
    (x.assign? name subscript v).map bare = x.bare.assign? name subscript v := by
  unfold assign?
  rw [scope_bare]
  split
  · exact congrArg some (bare_bind ..)
  · rw [show x.bare.globals = x.globals from rfl]
    cases x.globals.find? name <;> rfl
  · rw [show x.bare.systemGlobals = x.systemGlobals from rfl]
    cases x.systemGlobals.find? name <;> rfl
  · rfl

theorem macros_mapScope (x : Context) (f : Scope → Scope) : (x.mapScope f).macros = x.macros := by
  unfold mapScope
  cases x.calls <;> rfl

theorem macros_assign? {name : String} {subscript : Option Nat} {v : SetValue}
    (h : x.assign? name subscript v = some y) : y.macros = x.macros := by
  unfold assign? at h
  split at h
  · obtain rfl := Option.some.inj h
    exact macros_mapScope ..
  · obtain ⟨s, -, rfl⟩ := Option.map_eq_some_iff.1 h
    rfl
  · obtain ⟨s, -, rfl⟩ := Option.map_eq_some_iff.1 h
    rfl
  · cases h

/-- The change only depends on what the core and the bare state keep, and it leaves the macros alone. -/
structure Natural (f : Context → Context) : Prop where
  core : ∀ x, (f x).core = f x.core
  bare : ∀ x, (f x).bare = f x.bare
  macros : ∀ x, (f x).macros = x.macros

theorem natural_declareLocal (name : String) (type : SetType) (isScalar : Bool) :
    Natural (·.declareLocal name type isScalar) where
  core x := x.core_declareLocal name type isScalar
  bare x := x.bare_declareLocal name type isScalar
  macros x := by
    unfold declareLocal
    split
    · rfl
    · exact macros_mapScope ..

theorem natural_declareGlobal (name : String) (type : SetType) (isScalar : Bool) :
    Natural (·.declareGlobal name type isScalar) where
  core x := x.core_declareGlobal name type isScalar
  bare x := x.bare_declareGlobal name type isScalar
  macros x := by
    unfold declareGlobal
    dsimp only
    refine (macros_mapScope ..).trans ?_
    split <;> rfl

theorem natural_setBranchCounter (n : Int32) : Natural (·.setBranchCounter n) where
  core x := x.core_setBranchCounter n
  bare x := bare_mapScope x _
  macros x := macros_mapScope x _

theorem natural_countBranch : Natural (·.countBranch) where
  core := core_countBranch
  bare x := bare_mapScope x _
  macros x := macros_mapScope x _

theorem natural_setMacroStatement (index : Nat) : Natural (·.setMacroStatement index) where
  core x := x.core_setMacroStatement index
  bare x := by
    obtain ⟨_, _, _, _, calls⟩ := x
    cases calls <;> rfl
  macros x := by
    unfold setMacroStatement
    cases x.calls <;> rfl

theorem natural_leaveCall : Natural fun x => { x with calls := x.calls.tail } where
  core _ := rfl
  bare x := by
    unfold Context.bare
    cases x.calls <;> rfl
  macros _ := rfl

/-! ### Calls -/

/-- The state behind the entry of a call. -/
def called (x : Context) (c : Call) : Context :=
  { x with
    calls := { c with scope := callScope { x with calls := c :: x.calls } c.scope } :: x.calls
    callCount := x.callCount + 1 }

theorem callScope_bare (x : Context) (s : Scope) : x.bare.callScope s = x.callScope s := by
  have hchain : x.bare.callChain = x.callChain := by
    unfold callChain
    rw [show x.bare.calls = x.calls.map Call.bare from rfl, List.map_map]
    rfl
  have hlength : x.bare.calls.length = x.calls.length := List.length_map _
  unfold callScope
  rw [hchain, hlength]
  rfl

theorem bare_called (x : Context) (c : Call) : (x.called c).bare = x.bare.called c.bare := by
  have hscope : callScope { x with calls := c :: x.calls } c.scope =
      callScope { x.bare with calls := c.bare :: x.bare.calls } c.scope :=
    (callScope_bare { x with calls := c :: x.calls } c.scope).symm
  unfold called
  rw [hscope]
  rfl

/-- A macro is entered with the bindings of its bare definition. -/
theorem exists_enterMacro {name : String} {d : MacroDefinition} (hd : x.macros.find? name = some d)
    (label : Option MacroData) (args : List Argument) :
    ∃ y, x.enterMacro name label args = .ok y ∧ y.macros = x.macros ∧
      y.invocation?.map (·.definition) = some d ∧
      y.core.bare = x.core.bare.called ⟨d.bare.call label args, .start x.branchLimit x.systemGlobals⟩ := by
  generalize hc : (⟨d.call label args, .start x.branchLimit x.systemGlobals⟩ : Call) = c
  have hbare : (⟨d.bare.call label args, .start x.branchLimit x.systemGlobals⟩ : Call) = c.bare := hc ▸ rfl
  have hdefinition : c.invocation.definition = d := hc ▸ rfl
  unfold enterMacro
  rw [hd]
  dsimp only
  rw [hc, hbare, Assembly.mapScope_of_cons rfl]
  generalize hnames : meet _ _ = z
  obtain ⟨v, hv, -⟩ := Assembly.exists_visit z d.location.file
  rw [hv, ← hnames]
  exact ⟨_, rfl, rfl, congrArg some hdefinition, bare_called x.core c⟩

/-- Calls of definitions that are the same but for places are entered alike. -/
theorem bare_enterMacro (h : x.core.bare = y.core.bare) {name : String} {d d' : MacroDefinition}
    (hd : x.macros.find? name = some d) (hd' : y.macros.find? name = some d') (hbare : d.bare = d'.bare)
    (label : Option MacroData) (args : List Argument) :
    ∃ x' y', x.enterMacro name label args = .ok x' ∧ y.enterMacro name label args = .ok y' ∧
      x'.core.bare = y'.core.bare ∧ x'.macros = x.macros ∧ y'.macros = y.macros ∧
      x'.invocation?.map (·.definition) = some d ∧ y'.invocation?.map (·.definition) = some d' := by
  obtain ⟨x', hx, mx, ix, cx⟩ := exists_enterMacro hd label args
  obtain ⟨y', hy, my, iy, cy⟩ := exists_enterMacro hd' label args
  have hstart : Scope.start x.branchLimit x.systemGlobals = Scope.start y.branchLimit y.systemGlobals := by
    have hs := congrArg (fun z : Context => Scope.start z.branchLimit z.systemGlobals) h
    exact hs
  exact ⟨x', y', hx, hy, by rw [cx, cy, h, hbare, hstart], mx, my, ix, iy⟩

end Context

end AssemblerIndex
