import AssemblerIndex.Proofs.Context.StackOrder
import Mathlib.Data.List.Induction

/-!
# What names stand for in the scopes

An operation changes what names stand for in the current scope only, and it does so in three ways: a SET symbol is
declared, a global one is declared, or a SET symbol of the scope itself is assigned.  All else that it does to the
variables it does to the global SET symbols and to the global system variables, which the scopes share.

* `Vocabulary`, `vocabularies` — what the scopes know of names, outermost first;
* `boundIn?`, `seenIn?`, `reads?` — what a name stands for in any of the scopes, its variable there, and its value;
* `Rebinds`, `Revised` — what an operation does to the vocabularies;
* `AlikeIn` — a scope knows the same of a name in two states;
* `Stores` — an assignment of a SET symbol that scopes share;
* `PerformedIn` — an operation that was performed in a scope that still stands;
* `boundIn?_run` — **a name stands for something else in a scope only through an operation on it in that scope**.
-/

namespace AssemblerIndex.Context

/-! ### Vocabularies -/

/-- What a scope knows of names, and the macro it belongs to; open code belongs to none. -/
structure Vocabulary where
  bindings : Table Binding
  systemVariables : Table Variable
  parameters : Table Variable
  macroName : Option String

/-- What a scope of the stack knows of names. -/
def vocabulary (e : Option Invocation × Scope) : Vocabulary :=
  { bindings := e.2.bindings
    systemVariables := e.2.systemVariables
    parameters := (e.1.map (·.parameters)).getD {}
    macroName := e.1.map (·.definition.name) }

/-- What the scopes know of names, outermost first. -/
def vocabularies (x : Context) : List Vocabulary := x.scopeStack.map vocabulary

/-- The vocabulary in which a name stands for something else. -/
def Vocabulary.bind (w : Vocabulary) (name : String) (b : Binding) : Vocabulary :=
  { w with bindings := w.bindings.insert name b }

@[simp] theorem Vocabulary.find?_bind (w : Vocabulary) (name n : String) (b : Binding) :
    (w.bind name b).bindings.find? n = if n = name then some b else w.bindings.find? n :=
  Table.find?_insert ..

/-- What a name stands for in a scope; the scopes are counted from the outermost. -/
def boundIn? (x : Context) (i : Nat) (name : String) : Option Binding :=
  x.vocabularies[i]?.bind (·.bindings.find? name)

/-- The variable that a vocabulary has under a name. -/
def Vocabulary.seen? (w : Vocabulary) (x : Context) (name : String) : Option Variable :=
  match w.bindings.find? name with
  | some b => (x.bound? name b).map .set
  | none =>
    match w.systemVariables.find? name with
    | some v => some v
    | none => w.parameters.find? name

/-- The variable that is visible under a name in a scope. -/
def seenIn? (x : Context) (i : Nat) (name : String) : Option Variable :=
  x.vocabularies[i]?.bind (·.seen? x name)

/-- The value that is read under a name in a scope. -/
def reads? (x : Context) (i : Nat) (name : String) (subscripts : List Nat) : Option SetValue :=
  (x.seenIn? i name).map (·.value subscripts)

section

variable (x : Context)

@[simp] theorem length_vocabularies : x.vocabularies.length = x.depth := by
  simp [vocabularies, depth]

theorem vocabularies_eq : x.vocabularies =
    vocabulary (none, x.openCode) :: x.calls.reverse.map fun c => vocabulary (some c.invocation, c.scope) := by
  simp [vocabularies, scopeStack]

/-- The last vocabulary is that of the current scope. -/
theorem vocabularies_concat :
    x.vocabularies = x.vocabularies.dropLast ++ [vocabulary (x.invocation?, x.scope)] := by
  rw [vocabularies_eq]
  unfold invocation? scope
  cases x.calls with
  | nil => rfl
  | cons c cs => simp [List.dropLast_cons_of_ne_nil]

/-- A list of vocabularies that differ in the last one only has the same length. -/
theorem length_revised (w : Vocabulary) : (x.vocabularies.dropLast ++ [w]).length = x.depth := by
  simp [depth]

theorem vocabularies_current : x.vocabularies[x.calls.length]? = some (vocabulary (x.invocation?, x.scope)) := by
  have hlength : x.vocabularies.dropLast.length = x.calls.length := by simp [depth]
  rw [vocabularies_concat, ← hlength, List.getElem?_concat_length]

theorem boundIn?_current (name : String) : x.boundIn? x.calls.length name = x.scope.bindings.find? name := by
  rw [boundIn?, vocabularies_current]
  rfl

/-- In the current scope a name is seen as the assembler looks it up. -/
theorem visible?_eq (name : String) : x.visible? name = x.seenIn? x.calls.length name := by
  rw [seenIn?, vocabularies_current, Option.bind_some]
  unfold visible? Vocabulary.seen? vocabulary
  dsimp only
  cases x.scope.bindings.find? name with
  | some b => rfl
  | none =>
    cases x.scope.systemVariables.find? name with
    | some v => rfl
    | none =>
      cases x.invocation? with
      | none => rfl
      | some v => rfl

theorem seenIn?_of_bound {i : Nat} {name : String} {b : Binding} (h : x.boundIn? i name = some b) :
    x.seenIn? i name = (x.bound? name b).map .set := by
  unfold boundIn? at h
  obtain ⟨w, hw, hb⟩ := Option.bind_eq_some_iff.1 h
  rw [seenIn?, hw, Option.bind_some, Vocabulary.seen?, hb]

end

/-! ### Variables in storage -/

/-- The operation has to do with names: it declares or assigns one, or it enters or leaves a scope. -/
def Operation.namesVariables : Operation → Bool
  | declareLocal .. | declareGlobal .. | assign .. | enterMacro .. | leaveMacro => true
  | _ => false

/-- What the scopes know of names, the SET symbols that they share, and the number of macro calls. -/
def storage (x : Context) : List Vocabulary × Table SetSymbol × Table SetSymbol × Nat :=
  (x.vocabularies, x.globals, x.systemGlobals, x.callCount)

section

variable {x y : Context}

/-- A change of the current scope is one of the last vocabulary. -/
theorem vocabularies_mapScope (x : Context) (f : Scope → Scope) :
    (x.mapScope f).vocabularies = x.vocabularies.dropLast ++ [vocabulary (x.invocation?, f x.scope)] := by
  rw [vocabularies_eq, vocabularies_eq]
  unfold mapScope invocation? scope
  cases x.calls with
  | nil => rfl
  | cons c cs => simp [List.dropLast_cons_of_ne_nil]

theorem globals_mapScope (x : Context) (f : Scope → Scope) :
    (x.mapScope f).globals = x.globals ∧ (x.mapScope f).systemGlobals = x.systemGlobals ∧
      (x.mapScope f).callCount = x.callCount ∧ (x.mapScope f).calls.length = x.calls.length := by
  unfold mapScope
  split
  · rename_i hcalls
    exact ⟨rfl, rfl, rfl, by rw [hcalls]; rfl⟩
  · exact ⟨rfl, rfl, rfl, rfl⟩

theorem storage_mapScope (x : Context) (f : Scope → Scope) :
    (x.mapScope f).storage =
      (x.vocabularies.dropLast ++ [vocabulary (x.invocation?, f x.scope)], x.globals, x.systemGlobals, x.callCount) := by
  obtain ⟨hglobals, hsystem, hcount, -⟩ := x.globals_mapScope f
  rw [storage, vocabularies_mapScope, hglobals, hsystem, hcount]

/-- A change that names have no part in. -/
theorem storage_mapScope_of_vocabulary (x : Context) {f : Scope → Scope}
    (hf : ∀ v s, vocabulary (v, f s) = vocabulary (v, s)) : (x.mapScope f).storage = x.storage := by
  rw [storage_mapScope, hf, ← vocabularies_concat]
  rfl

@[simp] theorem storage_meet (x : Context) (names : List String) : (x.meet names).storage = x.storage := rfl

@[simp] theorem storage_visit (x : Context) (file : String) : (x.visit file).storage = x.storage := by
  unfold visit
  split <;> rfl

theorem storage_mapSource (x : Context) (f : Source → Source) : (x.mapSource f).storage = x.storage := by
  unfold mapSource
  split <;> rfl

theorem storage_setMacroStatement (x : Context) (index : Nat) :
    (x.setMacroStatement index).storage = x.storage := by
  have hvoc : (x.setMacroStatement index).vocabularies = x.vocabularies := by
    rw [vocabularies_eq, vocabularies_eq]
    unfold setMacroStatement
    split
    · rename_i hcalls
      simp [hcalls, vocabulary]
    · rfl
  unfold storage
  rw [hvoc]
  unfold setMacroStatement
  split <;> rfl

theorem storage_addSequenceSymbol {s : SequenceSymbol} (h : x.addSequenceSymbol s = .ok y) :
    y.storage = x.storage := by
  unfold addSequenceSymbol at h
  split at h
  · cases h
  · split at h
    · cases h
      rfl
    · cases h
      rw [storage, storage, vocabularies_eq, vocabularies_eq]
      rfl

theorem storage_addSynonym {name target : String} (h : x.addSynonym name target = .ok y) :
    y.storage = x.storage := by
  unfold addSynonym at h
  split at h
  · cases h
    rfl
  · split at h
    · cases h
      rfl
    · cases h

theorem storage_addCopyMember (x : Context) (m : CopyMember) : (x.addCopyMember m).storage = x.storage := by
  obtain ⟨v, t, heq, -, -⟩ := Assembly.exists_addCopyMember x m
  rw [heq]
  rfl

theorem storage_enterCopy {name : String} (h : x.enterCopy name = .ok y) : y.storage = x.storage := by
  unfold enterCopy at h
  split at h
  · cases h
    exact storage_mapSource ..
  · cases h

theorem storage_leaveCopy (h : x.leaveCopy = .ok y) : y.storage = x.storage := by
  unfold leaveCopy at h
  split at h
  · cases h
    exact storage_mapSource ..
  · cases h

theorem storage_popLevel (h : x.popLevel = .ok y) : y.storage = x.storage := by
  obtain ⟨l, ls, -, rfl⟩ := popLevel_eq_ok h
  rfl

theorem storage_restore {p : Snapshot} (h : x.restore p = .ok y) : y.storage = x.storage := by
  unfold restore at h
  split at h
  · split at h
    · cases h
      exact storage_mapSource ..
    · cases h
  · cases h

/-- The operations that have nothing to do with names leave the variables alone. -/
theorem storage_apply {op : Operation} (h : op.apply x = .ok y) (hidle : op.namesVariables = false) :
    y.storage = x.storage := by
  cases op with
  | declareLocal name type isScalar => cases hidle
  | declareGlobal name type isScalar => cases hidle
  | assign name subscript v => cases hidle
  | enterMacro name label args => cases hidle
  | leaveMacro => cases hidle
  | addSequenceSymbol s => exact storage_addSequenceSymbol h
  | addSynonym name target => exact storage_addSynonym h
  | enterCopy name => exact storage_enterCopy h
  | leaveCopy => exact storage_leaveCopy h
  | popLevel => exact storage_popLevel h
  | restore p => exact storage_restore h
  | meet names =>
    cases h
    rfl
  | setSymbols symbols =>
    cases h
    rfl
  | setBranchCounter n =>
    cases h
    exact storage_mapScope_of_vocabulary _ fun _ _ => rfl
  | countBranch =>
    cases h
    exact storage_mapScope_of_vocabulary _ fun _ _ => rfl
  | removeSynonym name =>
    cases h
    rfl
  | addMacro d =>
    cases h
    rfl
  | setMacroStatement index =>
    cases h
    exact storage_setMacroStatement ..
  | addCopyMember m =>
    cases h
    exact storage_addCopyMember ..
  | setCursor level index =>
    cases h
    exact storage_mapSource ..
  | pushLevel kind =>
    cases h
    rfl
  | pushSource kind file =>
    cases h
    rfl
  | setPosition p =>
    cases h
    exact storage_mapSource ..
  | setIndices beginIndex endIndex endLine =>
    cases h
    exact storage_mapSource ..

end

/-! ### What an operation does to names -/

/-- The operation makes a name of the current scope stand for something else. -/
inductive Rebinds (x : Context) : Operation → String → Binding → Prop where
  /-- a name is declared that the scope did not have -/
  | declareLocal {name : String} (type : SetType) (isScalar : Bool) (new : x.scope.bindings.find? name = none) :
      Rebinds x (.declareLocal name type isScalar) name (.own (.declared type isScalar false))
  | declareGlobal (name : String) (type : SetType) (isScalar : Bool) :
      Rebinds x (.declareGlobal name type isScalar) name .userGlobal
  /-- a SET symbol of the scope itself is assigned -/
  | assign {name : String} {s : SetSymbol} (subscript : Option Nat) (v : SetValue)
      (own : x.scope.bindings.find? name = some (.own s)) :
      Rebinds x (.assign name subscript v) name (.own (s.assign subscript v))

/-- The name of a variable that an operation declares or assigns. -/
def Operation.subject? : Operation → Option String
  | declareLocal name _ _ => some name
  | declareGlobal name _ _ => some name
  | assign name _ _ => some name
  | _ => none

/-- The operation enters a macro call and succeeds. -/
def Operation.enters (op : Operation) (x : Context) : Bool :=
  match op with
  | enterMacro name label args => (x.enterMacro name label args).isOk
  | _ => false

/-- The state with a call on top that has not got its system variables yet. -/
def entering (x : Context) (d : MacroDefinition) (label : Option MacroData) (args : List Argument) : Context :=
  { x with calls := ⟨d.call label args, .start x.branchLimit x.systemGlobals⟩ :: x.calls }

/-- What an operation does to the vocabularies. -/
inductive Revised (op : Operation) (x y : Context) : Prop where
  | kept (same : y.vocabularies = x.vocabularies) (none : ∀ name b, ¬ Rebinds x op name b) (quiet : op.enters x = false)
  | rebound (name : String) (b : Binding) (rebinds : Rebinds x op name b)
      (eq : y.vocabularies = x.vocabularies.dropLast ++ [(vocabulary (x.invocation?, x.scope)).bind name b])
  | entered (name : String) (label : Option MacroData) (args : List Argument) (is : op = .enterMacro name label args)
      (eq : x.enterMacro name label args = .ok y)
  | left (is : op = .leaveMacro) (eq : y.vocabularies = x.vocabularies.dropLast)

/-- The operation assigns a SET symbol that the current scope shares with others under a name. -/
def Stores (x : Context) (b : Binding) (name : String) (op : Operation) (subscript : Option Nat) (v : SetValue) : Prop :=
  op = .assign name subscript v ∧ x.scope.bindings.find? name = some b

section

variable {x y : Context} {op : Operation}

theorem Rebinds.subject? {name : String} {b : Binding} (h : Rebinds x op name b) : op.subject? = some name := by
  cases h with
  | declareLocal type isScalar new => rfl
  | declareGlobal name type isScalar => rfl
  | assign subscript v own => rfl

theorem vocabularies_bind (x : Context) (name : String) (b : Binding) :
    (x.bind name b).vocabularies = x.vocabularies.dropLast ++ [(vocabulary (x.invocation?, x.scope)).bind name b] :=
  vocabularies_mapScope ..

theorem vocabularies_leaveMacro (h : x.leaveMacro = .ok y) : y.vocabularies = x.vocabularies.dropLast := by
  unfold leaveMacro at h
  split at h
  · rename_i c cs hcalls
    cases h
    simp [vocabularies_eq, hcalls, List.dropLast_cons_of_ne_nil]
  · cases h

/-- A call that is entered gets a vocabulary of its own, and it is counted. -/
theorem enterMacro_eq_ok {name : String} {label : Option MacroData} {args : List Argument}
    (h : x.enterMacro name label args = .ok y) :
    ∃ d, x.macros.find? name = some d ∧
      y.vocabularies = x.vocabularies ++ [vocabulary (some (d.call label args),
        (x.entering d label args).callScope (.start x.branchLimit x.systemGlobals))] ∧
      y.globals = x.globals ∧ y.systemGlobals = x.systemGlobals ∧ y.callCount = x.callCount + 1 := by
  unfold enterMacro at h
  split at h
  · cases h
  · rename_i d hd
    obtain rfl := Except.ok.inj h
    refine ⟨d, hd, ?_⟩
    have hstorage : ∀ z : Context, ∀ n, ({ z with callCount := n } : Context).storage =
        (z.storage.1, z.storage.2.1, z.storage.2.2.1, n) := fun _ _ => rfl
    suffices heq : storage _ = (x.vocabularies ++ [_], x.globals, x.systemGlobals, x.callCount + 1) by
      simpa only [storage, Prod.mk.injEq] using heq
    rw [hstorage, storage_visit, storage_meet, storage_mapScope]
    simp [vocabularies_eq, invocation?, scope, entering, List.dropLast_cons_of_ne_nil, meet, globals_mapScope]

theorem vocabularies_declareGlobal (x : Context) (name : String) (type : SetType) (isScalar : Bool) :
    (x.declareGlobal name type isScalar).vocabularies =
      x.vocabularies.dropLast ++ [(vocabulary (x.invocation?, x.scope)).bind name .userGlobal] := by
  unfold declareGlobal
  dsimp only
  rw [vocabularies_bind]
  split <;> rfl

/-- The operations that have nothing to do with variables leave them alone. -/
theorem Revised.of_storage (h : y.storage = x.storage) (hname : op.subject? = none) (hquiet : op.enters x = false) :
    Revised op x y := by
  refine .kept (congrArg Prod.fst h) (fun name b hb => ?_) hquiet
  rw [hb.subject?] at hname
  cases hname

theorem Revised.declareLocal (x : Context) (name : String) (type : SetType) (isScalar : Bool) :
    Revised (.declareLocal name type isScalar) x (x.declareLocal name type isScalar) := by
  unfold Context.declareLocal
  split
  · rename_i hold
    refine .kept rfl ?_ rfl
    rintro n b ⟨⟩
    rename_i hnew
    rw [Table.contains, hnew] at hold
    cases hold
  · rename_i hnew
    rw [Table.contains, Bool.not_eq_true, Option.isSome_eq_false_iff, Option.isNone_iff_eq_none] at hnew
    exact .rebound _ _ (.declareLocal type isScalar hnew) (vocabularies_bind ..)

/-- An assignment binds a SET symbol of the scope itself anew; it leaves the vocabularies alone where the SET symbol is
shared or there is none. -/
theorem Revised.assign (x : Context) (name : String) (subscript : Option Nat) (v : SetValue) :
    Revised (.assign name subscript v) x ((x.assign? name subscript v).getD x) := by
  cases hbound : x.scope.bindings.find? name with
  | none =>
    refine .kept ?_ ?_ rfl
    · simp [assign?, hbound]
    · rintro n b ⟨⟩
      simp_all
  | some b =>
    cases b with
    | own s =>
      refine .rebound _ _ (.assign subscript v hbound) ?_
      simp only [assign?, hbound, Option.getD_some]
      exact vocabularies_bind ..
    | userGlobal =>
      refine .kept ?_ ?_ rfl
      · cases hs : x.globals.find? name with
        | none => simp [assign?, hbound, hs]
        | some s =>
          simp only [assign?, hbound, hs, Option.map_some, Option.getD_some]
          rfl
      · rintro n b ⟨⟩
        simp_all
    | systemGlobal =>
      refine .kept ?_ ?_ rfl
      · cases hs : x.systemGlobals.find? name with
        | none => simp [assign?, hbound, hs]
        | some s =>
          simp only [assign?, hbound, hs, Option.map_some, Option.getD_some]
          rfl
      · rintro n b ⟨⟩
        simp_all

/-- Each operation that succeeds revises the vocabularies in one of the ways. -/
theorem revised_apply (h : op.apply x = .ok y) : Revised op x y := by
  cases op with
  | declareLocal name type isScalar =>
    cases h
    exact .declareLocal ..
  | declareGlobal name type isScalar =>
    cases h
    exact .rebound _ _ (.declareGlobal ..) (vocabularies_declareGlobal ..)
  | assign name subscript v =>
    cases h
    exact .assign ..
  | enterMacro name label args => exact .entered name label args rfl h
  | leaveMacro => exact .left rfl (vocabularies_leaveMacro h)
  | _ => exact .of_storage (storage_apply h rfl) rfl rfl

/-- An operation that fails enters no call. -/
theorem enters_of_error {e : ContextError} (h : op.apply x = .error e) : op.enters x = false := by
  cases op with
  | enterMacro name label args =>
    have hfail : x.enterMacro name label args = .error e := h
    unfold Operation.enters
    dsimp only
    rw [hfail]
    rfl
  | _ => rfl

/-- It has nothing to do with names, either. -/
theorem Revised.of_error {e : ContextError} (h : op.apply x = .error e) : Revised op x x := by
  refine .kept rfl (fun name b hb => ?_) (enters_of_error h)
  cases hb with
  | declareLocal type isScalar new => cases h
  | declareGlobal name type isScalar => cases h
  | assign subscript v own => cases h

/-- Each operation, failed or not, revises the vocabularies in one of the ways. -/
theorem revised_after (op : Operation) (x : Context) : Revised op x (op.after x) := by
  rw [after_eq]
  cases h : op.apply x with
  | ok y => exact revised_apply h
  | error e => exact .of_error h

/-! ### One scope -/

/-- A scope was there before, or it is that of a call that was entered. -/
theorem Revised.depth_cases (h : Revised op x y) {i : Nat} (hi : i < y.depth) :
    i < x.depth ∨ i = x.depth ∧ ∃ name label args, x.enterMacro name label args = .ok y := by
  rw [← length_vocabularies] at hi
  cases h with
  | kept same none quiet =>
    rw [same, length_vocabularies] at hi
    exact .inl hi
  | rebound name b rebinds eq =>
    rw [eq, length_revised] at hi
    exact .inl hi
  | entered name label args is eq =>
    obtain ⟨d, -, hvoc, -⟩ := enterMacro_eq_ok eq
    rw [hvoc, List.length_append, length_vocabularies, List.length_singleton] at hi
    rcases Nat.lt_or_ge i x.depth with hlt | hge
    · exact .inl hlt
    · exact .inr ⟨by omega, name, label, args, eq⟩
  | left is eq =>
    rw [eq, List.length_dropLast, length_vocabularies] at hi
    exact .inl (by omega)

/-- What a scope knows is revised where it is the current one, and else it stays as long as the scope stands. -/
theorem Revised.getElem? (h : Revised op x y) {i : Nat} (hi : i < x.depth) (hi' : i < y.depth) :
    y.vocabularies[i]? = x.vocabularies[i]? ∧ (i = x.calls.length → ∀ name b, ¬ Rebinds x op name b) ∨
      i = x.calls.length ∧ ∃ name b, Rebinds x op name b ∧
        y.vocabularies[i]? = x.vocabularies[i]?.map (·.bind name b) := by
  have hlength : x.vocabularies.dropLast.length = x.calls.length := by simp [depth]
  rw [← length_vocabularies] at hi hi'
  cases h with
  | kept same none quiet => exact .inl ⟨by rw [same], fun _ => none⟩
  | rebound name b rebinds eq =>
    rw [length_vocabularies, depth] at hi
    rcases Nat.lt_or_ge i x.calls.length with hlt | hge
    · refine .inl ⟨?_, fun hcurrent => absurd hcurrent (Nat.ne_of_lt hlt)⟩
      rw [eq, List.getElem?_append_left (by omega), List.getElem?_dropLast, if_pos]
      rw [length_vocabularies, depth]
      omega
    · obtain rfl : i = x.calls.length := by omega
      refine .inr ⟨rfl, name, b, rebinds, ?_⟩
      rw [vocabularies_current, eq, ← hlength, List.getElem?_concat_length]
      rfl
  | entered name label args is eq =>
    obtain ⟨d, -, hvoc, -⟩ := enterMacro_eq_ok eq
    subst is
    refine .inl ⟨by rw [hvoc, List.getElem?_append_left hi], fun _ n b hb => ?_⟩
    cases hb
  | left is eq =>
    subst is
    rw [eq, List.length_dropLast] at hi'
    refine .inl ⟨by rw [eq, List.getElem?_dropLast, if_pos hi'], fun _ n b hb => ?_⟩
    cases hb

/-- Only the bindings of a standing scope are ever changed. -/
theorem Revised.constant (h : Revised op x y) {i : Nat} (hi : i < x.depth) (hi' : i < y.depth) :
    y.vocabularies[i]?.map (fun w => { w with bindings := {} }) =
      x.vocabularies[i]?.map fun w => { w with bindings := {} } := by
  rcases h.getElem? hi hi' with ⟨same, -⟩ | ⟨-, name, b, -, eq⟩
  · rw [same]
  · rw [eq, Option.map_map]
    rfl

/-- A name stands for something else only where the operation rebinds it. -/
theorem Revised.boundIn? (h : Revised op x y) {i : Nat} (hi : i < x.depth) (hi' : i < y.depth) (name : String) :
    y.boundIn? i name = x.boundIn? i name ∧ (i = x.calls.length → ∀ b, ¬ Rebinds x op name b) ∨
      i = x.calls.length ∧ ∃ b, Rebinds x op name b ∧ y.boundIn? i name = some b := by
  rcases h.getElem? hi hi' with ⟨same, none⟩ | ⟨hcurrent, n, b, hb, eq⟩
  · left
    rw [Context.boundIn?, Context.boundIn?, same]
    exact ⟨rfl, fun hcurrent => none hcurrent name⟩
  · rw [Context.boundIn?, Context.boundIn?, eq, hcurrent, vocabularies_current, Option.map_some, Option.bind_some,
      Option.bind_some, Vocabulary.find?_bind]
    by_cases hn : name = n
    · subst hn
      exact .inr ⟨rfl, b, hb, if_pos rfl⟩
    · refine .inl ⟨if_neg hn, fun _ b' hb' => hn ?_⟩
      exact Option.some.inj (hb'.subject?.symm.trans hb.subject?)

end

/-- The scope knows the same of the name in both states. -/
structure AlikeIn (x y : Context) (i : Nat) (name : String) : Prop where
  bound : y.boundIn? i name = x.boundIn? i name
  constant : y.vocabularies[i]?.map (fun w => { w with bindings := {} }) =
    x.vocabularies[i]?.map fun w => { w with bindings := {} }

section

variable {x y : Context} {op : Operation} {name : String} {i : Nat}

theorem AlikeIn.trans {z : Context} (h : AlikeIn x y i name) (h' : AlikeIn y z i name) : AlikeIn x z i name :=
  ⟨h'.bound.trans h.bound, h'.constant.trans h.constant⟩

/-- Then the name is seen alike there, unless it stands for a shared SET symbol that has changed. -/
theorem AlikeIn.seenIn? (h : AlikeIn x y i name)
    (hshared : ∀ b, x.boundIn? i name = some b → y.bound? name b = x.bound? name b) :
    y.seenIn? i name = x.seenIn? i name := by
  obtain ⟨hbound, hconstant⟩ := h
  unfold boundIn? at hbound hshared
  unfold Context.seenIn?
  cases hw : x.vocabularies[i]? with
  | none =>
    rw [hw, Option.map_none, Option.map_eq_none_iff] at hconstant
    rw [hconstant]
    rfl
  | some w =>
    rw [hw, Option.map_some, Option.map_eq_some_iff] at hconstant
    obtain ⟨w', hw', hsame⟩ := hconstant
    rw [hw, hw', Option.bind_some, Option.bind_some] at hbound
    rw [hw, Option.bind_some] at hshared
    rw [hw', Option.bind_some, Option.bind_some, Vocabulary.seen?, Vocabulary.seen?, hbound]
    rw [Vocabulary.mk.injEq] at hsame
    obtain ⟨-, hsystem, hparameters, -⟩ := hsame
    cases hb : w.bindings.find? name with
    | some b => exact congrArg (Option.map Variable.set) (hshared b hb)
    | none => rw [hsystem, hparameters]

/-- An operation on another name, or in another scope, changes nothing that a standing scope knows of the name. -/
theorem Revised.alikeIn (h : Revised op x y) (hi : i < x.depth) (hi' : i < y.depth)
    (hop : i = x.calls.length → op.subject? ≠ some name) : AlikeIn x y i name := by
  refine ⟨?_, h.constant hi hi'⟩
  rcases h.boundIn? hi hi' name with ⟨same, -⟩ | ⟨hcurrent, b, hb, -⟩
  · exact same
  · exact absurd hb.subject? (hop hcurrent)

end

/-! ### What was performed in a scope -/

/-- The scope stands in front of the operations and behind each of them. -/
def Stands (x : Context) (ops : List Operation) (i : Nat) : Prop :=
  ∀ n, n ≤ ops.length → i < (x.run (ops.take n)).depth

/-- An operation with the property was performed while the scope was the current one, and the scope has stood since. -/
def PerformedIn (x : Context) (ops : List Operation) (i : Nat) (p : Operation → Prop) : Prop :=
  ∃ before op after, ops = before ++ op :: after ∧ p op ∧ (x.run before).depth = i + 1 ∧
    Stands (x.run before) (op :: after) i

section

variable {x : Context} {ops : List Operation} {op : Operation} {i : Nat} {p : Operation → Prop}

theorem run_concat (x : Context) (ops : List Operation) (op : Operation) :
    x.run (ops ++ [op]) = op.after (x.run ops) :=
  run_append ..

theorem stands_nil : Stands x [] i ↔ i < x.depth := by
  simp [Stands]

theorem stands_concat : Stands x (ops ++ [op]) i ↔ Stands x ops i ∧ i < (op.after (x.run ops)).depth := by
  have hlast : x.run ((ops ++ [op]).take (ops.length + 1)) = op.after (x.run ops) := by
    rw [List.take_of_length_le (by simp), run_concat]
  constructor
  · intro h
    refine ⟨fun n hn => ?_, ?_⟩
    · have hn' := h n (by rw [List.length_append]; omega)
      rwa [List.take_append_of_le_length hn] at hn'
    · rw [← hlast]
      exact h _ (by simp)
  · rintro ⟨h, hnow⟩ n hn
    rw [List.length_append, List.length_singleton] at hn
    rcases Nat.lt_or_ge ops.length n with hlt | hge
    · obtain rfl : n = ops.length + 1 := by omega
      rw [hlast]
      exact hnow
    · rw [List.take_append_of_le_length hge]
      exact h n hge

theorem Stands.first (h : Stands x ops i) : i < x.depth := h 0 (Nat.zero_le _)

theorem Stands.last (h : Stands x ops i) : i < (x.run ops).depth := by
  have hlast := h ops.length (Nat.le_refl _)
  rwa [List.take_length] at hlast

/-- The scopes beneath one that stands do stand. -/
theorem Stands.beneath (h : Stands x ops i) {j : Nat} (hj : j ≤ i) : Stands x ops j :=
  fun n hn => Nat.lt_of_le_of_lt hj (h n hn)

/-- Nothing is performed in a scope while there is one on top of it. -/
theorem Stands.not_performedIn (h : Stands x ops i) {j : Nat} (hj : j < i) : ¬ PerformedIn x ops j p := by
  rintro ⟨before, op, behind, rfl, -, hdepth, -⟩
  have hlt := h before.length (by simp)
  rw [List.take_left, hdepth] at hlt
  omega

/-- The last operation either was performed in the scope itself, or the scope still stands behind it. -/
theorem performedIn_concat : PerformedIn x (ops ++ [op]) i p ↔
    i < (op.after (x.run ops)).depth ∧ (PerformedIn x ops i p ∨ p op ∧ (x.run ops).depth = i + 1) := by
  constructor
  · rintro ⟨before, op', behind, heq, hp, hdepth, hstands⟩
    rcases List.eq_nil_or_concat behind with rfl | ⟨front, last, rfl⟩
    · obtain ⟨rfl, hop⟩ := List.append_inj' heq rfl
      obtain rfl := List.singleton_inj.1 hop
      exact ⟨hstands.last, .inr ⟨hp, hdepth⟩⟩
    · rw [List.concat_eq_append, ← List.cons_append] at hstands heq
      rw [← List.append_assoc] at heq
      obtain ⟨rfl, hop⟩ := List.append_inj' heq rfl
      obtain rfl := List.singleton_inj.1 hop
      obtain ⟨hstands, hnow⟩ := stands_concat.1 hstands
      rw [run_append]
      exact ⟨hnow, .inl ⟨before, op', front, rfl, hp, hdepth, hstands⟩⟩
  · rintro ⟨hnow, ⟨before, op', behind, rfl, hp, hdepth, hstands⟩ | ⟨hp, hdepth⟩⟩
    · refine ⟨before, op', behind ++ [op], by simp, hp, hdepth, ?_⟩
      rw [← List.cons_append, stands_concat, ← run_append]
      exact ⟨hstands, hnow⟩
    · refine ⟨ops, op, [], rfl, hp, hdepth, ?_⟩
      rw [← List.nil_append [op], stands_concat, stands_nil]
      exact ⟨by omega, hnow⟩

theorem not_performedIn_nil : ¬ PerformedIn x [] i p := by
  rintro ⟨before, op, behind, heq, -⟩
  simp at heq

/-- **A name stands for something else in a scope only through an operation on it in that scope.** -/
theorem boundIn?_run {name : String} (hstands : Stands x ops i)
    (hnone : ¬ PerformedIn x ops i fun op => op.subject? = some name) :
    (x.run ops).boundIn? i name = x.boundIn? i name := by
  induction ops using List.reverseRecOn with
  | nil => rfl
  | append_singleton ops op ih =>
    obtain ⟨hstands, hnow⟩ := stands_concat.1 hstands
    rw [performedIn_concat] at hnone
    rw [run_append, run_cons, run_nil, ← ih hstands fun h => hnone ⟨hnow, .inl h⟩]
    rcases (revised_after op (x.run ops)).boundIn? hstands.last hnow name with ⟨same, -⟩ | ⟨hcurrent, b, hb, -⟩
    · exact same
    · exact absurd ⟨hnow, .inr ⟨hb.subject?, by rw [depth, hcurrent]⟩⟩ hnone

/-- What else a scope knows stays as long as it stands. -/
theorem constant_run (hstands : Stands x ops i) :
    (x.run ops).vocabularies[i]?.map (fun w => { w with bindings := {} }) =
      x.vocabularies[i]?.map fun w => { w with bindings := {} } := by
  induction ops using List.reverseRecOn with
  | nil => rfl
  | append_singleton ops op ih =>
    obtain ⟨hstands, hnow⟩ := stands_concat.1 hstands
    rw [run_append, run_cons, run_nil, ← ih hstands]
    exact (revised_after op (x.run ops)).constant hstands.last hnow

/-- Operations that leave the name alone in the scope do not change what it knows of the name. -/
theorem alikeIn_run {name : String} (hstands : Stands x ops i)
    (hnone : ¬ PerformedIn x ops i fun op => op.subject? = some name) : AlikeIn x (x.run ops) i name :=
  ⟨boundIn?_run hstands hnone, constant_run hstands⟩

end

end AssemblerIndex.Context
