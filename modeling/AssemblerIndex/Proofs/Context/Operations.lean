import AssemblerIndex.Context.Macros

/-!
# Operations on the state of an assembly

Whatever happens to the state of an assembly is an operation on it.  Eight operations can fail, and some of them check
in between their changes; so each of these is also given change by change, where a failure leaves behind what was
changed before it.

* `scopeStack`, `sourceStack`, `levelStack` — the three stacks, outermost first;
* `Operation`, `Operation.apply` — the operations and the states that they lead to;
* `Operation.perform` — the operations change by change;
* `perform_eq` — the changes lead to the state of `apply`, and a failure is in front of all of them;
* `failing_operations_change_nothing` — **when an operation fails, and that it then changes nothing**.
-/

namespace AssemblerIndex.Context

/-! ### The stacks -/

/-- The scopes, each with the macro call it belongs to, outermost first. -/
def scopeStack (x : Context) : List (Option Invocation × Scope) :=
  (none, x.openCode) :: x.calls.reverse.map fun c => (some c.invocation, c.scope)

/-- The sources, outermost first. -/
def sourceStack (x : Context) : List Source := x.base :: x.sources.reverse

/-- The levels of processing, outermost first; ordinary processing of open code is the outermost. -/
def levelStack (x : Context) : List Level := ⟨.ordinary, true⟩ :: x.levels.reverse

@[simp] theorem length_scopeStack (x : Context) : x.scopeStack.length = x.calls.length + 1 := by
  simp [scopeStack]

@[simp] theorem length_sourceStack (x : Context) : x.sourceStack.length = x.sources.length + 1 := by
  simp [sourceStack]

@[simp] theorem length_levelStack (x : Context) : x.levelStack.length = x.levels.length + 1 := by
  simp [levelStack]

/-! ### Operations -/

/-- An operation on the state of an assembly. -/
inductive Operation where
  | meet (names : List String)
  | declareLocal (name : String) (type : SetType) (isScalar : Bool)
  | declareGlobal (name : String) (type : SetType) (isScalar : Bool)
  | assign (name : String) (subscript : Option Nat) (v : SetValue)
  | setSymbols (symbols : SymbolTable)
  | addSequenceSymbol (s : SequenceSymbol)
  | setBranchCounter (n : Int32)
  | countBranch
  | addSynonym (name target : String)
  | removeSynonym (name : String)
  | addMacro (d : MacroDefinition)
  | enterMacro (name : String) (label : Option MacroData) (args : List Argument)
  | leaveMacro
  | setMacroStatement (index : Nat)
  | addCopyMember (m : CopyMember)
  | enterCopy (name : String)
  | leaveCopy
  | setCursor (level index : Nat)
  | pushLevel (kind : ProcessingKind)
  | pushSource (kind : ProcessingKind) (file : String)
  | popLevel
  | setPosition (p : Position)
  | setIndices (beginIndex endIndex endLine : Nat)
  | restore (p : Snapshot)

/-- The state that an operation leads to, or why it fails. -/
def Operation.apply (x : Context) : Operation → Except ContextError Context
  | meet names => .ok (x.meet names)
  | declareLocal name type isScalar => .ok (x.declareLocal name type isScalar)
  | declareGlobal name type isScalar => .ok (x.declareGlobal name type isScalar)
  | assign name subscript v => .ok ((x.assign? name subscript v).getD x)
  | setSymbols symbols => .ok { x with symbols }
  | addSequenceSymbol s => x.addSequenceSymbol s
  | setBranchCounter n => .ok (x.setBranchCounter n)
  | countBranch => .ok x.countBranch
  | addSynonym name target => x.addSynonym name target
  | removeSynonym name => .ok (x.removeSynonym name)
  | addMacro d => .ok (x.addMacro d).1
  | enterMacro name label args => x.enterMacro name label args
  | leaveMacro => x.leaveMacro
  | setMacroStatement index => .ok (x.setMacroStatement index)
  | addCopyMember m => .ok (x.addCopyMember m)
  | enterCopy name => x.enterCopy name
  | leaveCopy => x.leaveCopy
  | setCursor level index => .ok (x.setCursor level index)
  | pushLevel kind => .ok (x.pushLevel kind)
  | pushSource kind file => .ok (x.pushSource kind file)
  | popLevel => x.popLevel
  | setPosition p => .ok (x.setPosition p)
  | setIndices beginIndex endIndex endLine => .ok (x.setIndices beginIndex endIndex endLine)
  | restore p => x.restore p

/-! ### Change by change -/

/-- Changes of the state one after the other.  A failure leaves behind the state as it was changed so far. -/
abbrev Transition (α : Type) := EStateM ContextError Context α

namespace Transition

/-- Enters a macro call: its scope comes first, then the system variables of the call. -/
def enterMacro (name : String) (label : Option MacroData) (args : List Argument) : Transition Unit := do
  match (← get).macros.find? name with
  | none => throw (.unknownMacro name)
  | some d =>
    modify fun x => x.meet ["SYSLIST"]
    modify fun x =>
      { x with calls := { invocation := d.call label args, scope := .start x.branchLimit x.systemGlobals } :: x.calls }
    modify fun x => x.mapScope x.callScope
    modify fun x => x.meet ["SYSECT", "SYSNDX", "SYSSTYP", "SYSLOC", "SYSNEST", "SYSMAC"]
    modify fun x => x.visit d.location.file
    modify fun x => { x with callCount := x.callCount + 1 }

/-- Leaves the innermost macro call. -/
def leaveMacro : Transition Unit := do
  if (← get).scopeStack.length < 2 then throw .openCodeExit
  else modify fun x => { x with calls := x.calls.tail }

/-- Takes the innermost level off, then its source if it has one. -/
def popLevel : Transition Unit := do
  if (← get).levelStack.length < 2 then throw .processingUnderflow
  else
    let popped := (← get).levels.head?
    modify fun x => { x with levels := x.levels.tail }
    if popped.any (·.ownsSource) then modify fun x => { x with sources := x.sources.tail }

/-- A cursor on the copy member of a frame. -/
def cursor (f : CopyFrame) : Transition CopyCursor := do
  match (← get).copyMembers.find? f.member with
  | some m => return ⟨m, f.offset⟩
  | none => throw (.unknownCopyMember f.member)

/-- Makes the cursors first, then moves the only source. -/
def restore (p : Snapshot) : Transition Unit := do
  if (← get).levelStack.length ≠ 1 then throw .snapshotDepth
  else
    let cursors ← p.copyFrames.mapM cursor
    modify fun x => x.mapSource fun s => { s with location := p.location }
    modify fun x => x.mapSource fun s => { s with beginIndex := p.beginIndex }
    modify fun x => x.mapSource fun s => { s with endIndex := p.endIndex }
    modify fun x => x.mapSource fun s => { s with endLine := p.endLine }
    modify fun x => x.mapSource fun s => { s with copyStack := cursors.reverse }

/-- Adds a sequence symbol of open code; an earlier one of its name stands. -/
def addSequenceSymbol (s : SequenceSymbol) : Transition Unit := do
  if 1 < (← get).scopeStack.length then throw .sequenceSymbolInMacro
  else if !(← get).scope.sequenceSymbols.contains s.name then
    modify fun x => x.mapScope fun c => { c with sequenceSymbols := c.sequenceSymbols.insert s.name s }

/-- Finds out what the target stands for, then enters the synonym. -/
def addSynonym (name target : String) : Transition Unit := do
  let x ← get
  let code ← match x.synonyms.find? target with
    | some code => pure code
    | none =>
      if x.macros.contains target || (instructionKind? target).isSome then pure target
      else throw (.undefinedOpcode target)
  modify fun x => { x with synonyms := x.synonyms.insert name code }

/-- Opens a copy member in the current source. -/
def enterCopy (name : String) : Transition Unit := do
  match (← get).copyMembers.find? name with
  | none => throw (.unknownCopyMember name)
  | some m => modify fun x => x.mapSource fun s => { s with copyStack := { member := m } :: s.copyStack }

/-- Takes the innermost open copy member off, and fails afterwards if there was none. -/
def leaveCopy : Transition Unit := do
  let left := (← get).source.copyStack.head?
  modify fun x => x.mapSource fun s => { s with copyStack := s.copyStack.tail }
  if left.isNone then throw .copyUnderflow

end Transition

/-- An operation change by change; one that cannot fail is a single change. -/
def Operation.perform : Operation → Transition Unit
  | addSequenceSymbol s => Transition.addSequenceSymbol s
  | addSynonym name target => Transition.addSynonym name target
  | enterMacro name label args => Transition.enterMacro name label args
  | leaveMacro => Transition.leaveMacro
  | enterCopy name => Transition.enterCopy name
  | leaveCopy => Transition.leaveCopy
  | popLevel => Transition.popLevel
  | restore p => Transition.restore p
  | op => modify fun x => (op.apply x).toOption.getD x

/-- The outcome of a transition that changes nothing where it fails. -/
def outcome (x : Context) : Except ContextError Context → EStateM.Result ContextError Context Unit
  | .ok y => .ok () y
  | .error e => .error e x

section

variable {α : Type} (x : Context)

theorem bind_apply {β : Type} (t : Transition β) (k : β → Transition α) :
    (t >>= k) x = match t x with
      | .ok b y => k b y
      | .error e y => .error e y := by
  show EStateM.bind t k x = _
  unfold EStateM.bind
  cases t x with
  | ok b y => rfl
  | error e y => rfl

@[simp] theorem get_bind_apply (k : Context → Transition α) : (get >>= k) x = k x x := rfl

@[simp] theorem modify_bind_apply (f : Context → Context) (k : PUnit → Transition α) :
    (modify f >>= k) x = k ⟨⟩ (f x) := rfl

@[simp] theorem modify_apply (f : Context → Context) : (modify f : Transition PUnit) x = .ok ⟨⟩ (f x) := rfl

@[simp] theorem throw_bind_apply {β : Type} (e : ContextError) (k : β → Transition α) :
    ((throw e : Transition β) >>= k) x = .error e x := rfl

@[simp] theorem pure_apply (a : α) : (pure a : Transition α) x = .ok a x := rfl

end

section

variable (x : Context)

theorem performs_enterMacro (name : String) (label : Option MacroData) (args : List Argument) :
    Transition.enterMacro name label args x = x.outcome (x.enterMacro name label args) := by
  unfold Transition.enterMacro Context.enterMacro
  rw [get_bind_apply]
  cases x.macros.find? name with
  | none => rfl
  | some d =>
    -- the names are noted in two steps, `SYSLIST` before the scope is there
    have hnames : ∀ t : Std.TreeSet String,
        (t.insertMany ["SYSLIST"]).insertMany ["SYSECT", "SYSNDX", "SYSSTYP", "SYSLOC", "SYSNEST", "SYSMAC"] =
          t.insertMany ["SYSLIST", "SYSECT", "SYSNDX", "SYSSTYP", "SYSLOC", "SYSNEST", "SYSMAC"] := fun t =>
      Std.TreeSet.insertMany_append.symm
    have hcount : ∀ y : Context, (y.visit d.location.file).callCount = y.callCount := by
      intro y
      unfold visit
      split <;> rfl
    simp only [modify_bind_apply, modify_apply, outcome, meet, mapScope, hnames, hcount]
    rfl

theorem performs_leaveMacro : Transition.leaveMacro x = x.outcome x.leaveMacro := by
  unfold Transition.leaveMacro Context.leaveMacro
  rw [get_bind_apply, length_scopeStack]
  cases h : x.calls with
  | nil => rfl
  | cons c cs =>
    rw [List.length_cons, if_neg (by omega), modify_apply, h]
    rfl

theorem performs_popLevel : Transition.popLevel x = x.outcome x.popLevel := by
  unfold Transition.popLevel Context.popLevel
  rw [get_bind_apply, length_levelStack]
  cases h : x.levels with
  | nil => rfl
  | cons l ls =>
    rw [List.length_cons, if_neg (by omega), get_bind_apply, modify_bind_apply, h]
    cases hl : l.ownsSource with
    | true => simp [hl, outcome]
    | false => simp [hl, outcome]

theorem performs_addSequenceSymbol (s : SequenceSymbol) :
    Transition.addSequenceSymbol s x = x.outcome (x.addSequenceSymbol s) := by
  unfold Transition.addSequenceSymbol Context.addSequenceSymbol isInMacro
  rw [get_bind_apply, length_scopeStack]
  cases h : x.calls with
  | cons c cs =>
    rw [List.length_cons, if_pos (by omega)]
    rfl
  | nil =>
    have hscope : x.scope = x.openCode := by
      unfold scope
      rw [h]
    rw [List.length_nil, if_neg (by omega), get_bind_apply, hscope]
    cases x.openCode.sequenceSymbols.contains s.name with
    | true => rfl
    | false =>
      simp [mapScope, h, outcome]

theorem performs_addSynonym (name target : String) :
    Transition.addSynonym name target x = x.outcome (x.addSynonym name target) := by
  unfold Transition.addSynonym Context.addSynonym
  rw [get_bind_apply]
  cases x.synonyms.find? target with
  | some t => rfl
  | none =>
    by_cases h : (x.macros.contains target || (instructionKind? target).isSome) = true
    · simp [h, outcome]
    · simp [h, outcome]

theorem performs_enterCopy (name : String) : Transition.enterCopy name x = x.outcome (x.enterCopy name) := by
  unfold Transition.enterCopy Context.enterCopy
  rw [get_bind_apply]
  cases x.copyMembers.find? name with
  | none => rfl
  | some m => rfl

theorem mapSource_congr {f g : Source → Source} (h : f x.source = g x.source) : x.mapSource f = x.mapSource g := by
  unfold source at h
  unfold mapSource
  cases hs : x.sources with
  | nil =>
    rw [hs, List.headD_nil] at h
    dsimp only
    rw [h]
  | cons s ss =>
    rw [hs, List.headD_cons] at h
    dsimp only
    rw [h]

@[simp] theorem mapSource_mapSource (f g : Source → Source) :
    (x.mapSource f).mapSource g = x.mapSource fun s => g (f s) := by
  unfold mapSource
  cases hs : x.sources with
  | nil => rfl
  | cons s ss => rfl

theorem mapSource_id : x.mapSource (fun s => s) = x := by
  unfold mapSource
  split
  · rename_i hs
    rw [← hs]
  · rfl

theorem performs_leaveCopy : Transition.leaveCopy x = x.outcome x.leaveCopy := by
  unfold Transition.leaveCopy Context.leaveCopy
  rw [get_bind_apply, modify_bind_apply]
  cases h : x.source.copyStack with
  | nil =>
    -- there is nothing to take off
    have hsame : (x.mapSource fun s => { s with copyStack := s.copyStack.tail }) = x := by
      refine (mapSource_congr x ?_).trans x.mapSource_id
      rw [h, List.tail_nil, ← h]
    rw [hsame]
    rfl
  | cons c cs =>
    have hleft : (x.mapSource fun s => { s with copyStack := s.copyStack.tail }) =
        x.mapSource fun s => { s with copyStack := cs } := by
      refine mapSource_congr x ?_
      rw [h, List.tail_cons]
    rw [hleft]
    rfl

theorem performs_cursors (fs : List CopyFrame) :
    fs.mapM Transition.cursor x =
      match x.cursors fs with
      | .ok cs => .ok cs x
      | .error e => .error e x := by
  induction fs with
  | nil => rfl
  | cons f fs ih =>
    have hfirst : Transition.cursor f x = match x.copyMembers.find? f.member with
        | some m => .ok ⟨m, f.offset⟩ x
        | none => .error (.unknownCopyMember f.member) x := by
      unfold Transition.cursor
      rw [get_bind_apply]
      cases x.copyMembers.find? f.member with
      | some m => rfl
      | none => rfl
    rw [List.mapM_cons, bind_apply, hfirst, cursors]
    cases x.copyMembers.find? f.member with
    | none => rfl
    | some m =>
      show (fs.mapM Transition.cursor >>= _) x = _
      rw [bind_apply, ih]
      cases x.cursors fs with
      | ok cs => rfl
      | error e => rfl

theorem performs_restore (p : Snapshot) : Transition.restore p x = x.outcome (x.restore p) := by
  unfold Transition.restore Context.restore
  rw [get_bind_apply, length_levelStack]
  cases hl : x.levels with
  | cons l ls =>
    rw [List.length_cons, if_pos (by omega)]
    rfl
  | nil =>
    rw [List.length_nil, if_neg (by omega), List.isEmpty_nil, if_pos rfl, bind_apply, performs_cursors]
    cases x.cursors p.copyFrames with
    | error e => rfl
    | ok cs =>
      simp only [modify_bind_apply, modify_apply, outcome, mapSource_mapSource]

/-- The changes of an operation lead to the state that it says, and no change is made in front of a failure. -/
theorem perform_eq (op : Operation) (x : Context) : op.perform x = x.outcome (op.apply x) := by
  cases op with
  | addSequenceSymbol s => exact performs_addSequenceSymbol x s
  | addSynonym name target => exact performs_addSynonym x name target
  | enterMacro name label args => exact performs_enterMacro x name label args
  | leaveMacro => exact performs_leaveMacro x
  | enterCopy name => exact performs_enterCopy x name
  | leaveCopy => exact performs_leaveCopy x
  | popLevel => exact performs_popLevel x
  | restore p => exact performs_restore x p
  | _ => rfl

end

/-! ### Failures -/

/-- The operation fails in the state. -/
def Fails (x : Context) (op : Operation) : Prop := ∃ e y, op.perform x = .error e y

section

variable {x y : Context} {e : ContextError}

theorem perform_eq_error {op : Operation} : op.perform x = .error e y ↔ op.apply x = .error e ∧ y = x := by
  rw [perform_eq]
  cases op.apply x with
  | ok z => simp [outcome]
  | error d => simp [outcome, eq_comm]

theorem fails_iff {op : Operation} : Fails x op ↔ ∃ e, op.apply x = .error e := by
  constructor
  · rintro ⟨e, y, h⟩
    exact ⟨e, (perform_eq_error.1 h).1⟩
  · rintro ⟨e, h⟩
    exact ⟨e, x, perform_eq_error.2 ⟨h, rfl⟩⟩

theorem fails_enterMacro {name : String} {label : Option MacroData} {args : List Argument} :
    Fails x (.enterMacro name label args) ↔ x.macros.find? name = none := by
  rw [fails_iff]
  show (∃ e, x.enterMacro name label args = .error e) ↔ _
  unfold enterMacro
  cases x.macros.find? name with
  | none => simp
  | some d => simp

theorem fails_leaveMacro : Fails x .leaveMacro ↔ x.scopeStack.length = 1 := by
  rw [fails_iff, length_scopeStack]
  show (∃ e, x.leaveMacro = .error e) ↔ _
  unfold leaveMacro
  cases x.calls with
  | nil => simp
  | cons c cs => simp

theorem fails_popLevel : Fails x .popLevel ↔ x.levelStack.length = 1 := by
  rw [fails_iff, length_levelStack]
  show (∃ e, x.popLevel = .error e) ↔ _
  unfold popLevel
  cases x.levels with
  | nil => simp
  | cons l ls => simp

theorem cursors_fail_iff (fs : List CopyFrame) :
    (∃ e, x.cursors fs = .error e) ↔ ∃ f ∈ fs, x.copyMembers.find? f.member = none := by
  induction fs with
  | nil => simp [cursors]
  | cons f fs ih =>
    simp only [List.mem_cons, exists_eq_or_imp, ← ih, cursors]
    cases x.copyMembers.find? f.member with
    | none => simp
    | some m =>
      cases x.cursors fs with
      | ok cs => simp [Except.map]
      | error e => simp [Except.map]

theorem fails_restore {p : Snapshot} :
    Fails x (.restore p) ↔
      1 < x.levelStack.length ∨ ∃ f ∈ p.copyFrames, x.copyMembers.find? f.member = none := by
  rw [fails_iff, length_levelStack, ← cursors_fail_iff]
  show (∃ e, x.restore p = .error e) ↔ _
  unfold restore
  cases x.levels with
  | cons l ls => simp
  | nil =>
    cases x.cursors p.copyFrames with
    | ok cs => simp
    | error e => simp

theorem fails_addSequenceSymbol {s : SequenceSymbol} :
    Fails x (.addSequenceSymbol s) ↔ 1 < x.scopeStack.length := by
  rw [fails_iff, length_scopeStack]
  show (∃ e, x.addSequenceSymbol s = .error e) ↔ _
  unfold addSequenceSymbol isInMacro
  cases x.calls with
  | cons c cs => simp
  | nil =>
    cases x.openCode.sequenceSymbols.contains s.name with
    | true => simp
    | false => simp

theorem fails_addSynonym {name target : String} :
    Fails x (.addSynonym name target) ↔
      x.synonyms.find? target = none ∧ x.macros.find? target = none ∧ instructionKind? target = none := by
  rw [fails_iff]
  show (∃ e, x.addSynonym name target = .error e) ↔ _
  unfold addSynonym Table.contains
  cases x.synonyms.find? target with
  | some t => simp
  | none =>
    cases x.macros.find? target with
    | some d => simp
    | none =>
      cases instructionKind? target with
      | some k => simp
      | none => simp

theorem fails_enterCopy {name : String} : Fails x (.enterCopy name) ↔ x.copyMembers.find? name = none := by
  rw [fails_iff]
  show (∃ e, x.enterCopy name = .error e) ↔ _
  unfold enterCopy
  cases x.copyMembers.find? name with
  | none => simp
  | some m => simp

theorem fails_leaveCopy : Fails x .leaveCopy ↔ x.source.copyStack = [] := by
  rw [fails_iff]
  show (∃ e, x.leaveCopy = .error e) ↔ _
  unfold leaveCopy
  cases x.source.copyStack with
  | nil => simp
  | cons c cs => simp

end

/-- **When an operation fails, and that it then changes nothing**: the changes that are made one after the other lead
to the state of the operation, or else to the failure with the state as it was. -/
theorem failing_operations_change_nothing (x : Context) :
    (∀ name label args, Fails x (.enterMacro name label args) ↔ x.macros.find? name = none) ∧
    (Fails x .leaveMacro ↔ x.scopeStack.length = 1) ∧
    (Fails x .popLevel ↔ x.levelStack.length = 1) ∧
    (∀ p, Fails x (.restore p) ↔
      1 < x.levelStack.length ∨ ∃ f ∈ p.copyFrames, x.copyMembers.find? f.member = none) ∧
    (∀ s, Fails x (.addSequenceSymbol s) ↔ 1 < x.scopeStack.length) ∧
    (∀ name target, Fails x (.addSynonym name target) ↔
      x.synonyms.find? target = none ∧ x.macros.find? target = none ∧ instructionKind? target = none) ∧
    (∀ name, Fails x (.enterCopy name) ↔ x.copyMembers.find? name = none) ∧
    (Fails x .leaveCopy ↔ x.source.copyStack = []) ∧
    (∀ (op : Operation) e y, op.perform x = .error e y → y = x) ∧
    ∀ op : Operation, op.perform x = x.outcome (op.apply x) :=
  ⟨fun _ _ _ => fails_enterMacro, fails_leaveMacro, fails_popLevel, fun _ => fails_restore,
    fun _ => fails_addSequenceSymbol, fun _ _ => fails_addSynonym, fun _ => fails_enterCopy, fails_leaveCopy,
    fun _ _ _ h => (perform_eq_error.1 h).2, fun op => perform_eq op x⟩

end AssemblerIndex.Context
