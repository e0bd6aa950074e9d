import AssemblerIndex.Proofs.Context.Scopes

/-!
# Variables that scopes share

A scope shares the global system variables from its beginning, and a global SET symbol from its declaration on.

* `DeclaredGlobal` — a standing scope has declared a name global; the scopes that share a global SET symbol are those that
  have declared it, `boundIn?_userGlobal_iff`;
* `Shifted` — what an operation can do to a shared SET symbol, `shifted_after`;
* `LastAssigned` — an assignment after which no sharing scope has assigned the same place; its value is what the sharing
  scopes read, `value_of_lastAssigned`.
-/

namespace AssemblerIndex

/-- The binding is to a SET symbol outside of the scopes. -/
def Binding.IsShared : Binding → Prop
  | .own _ => False
  | .userGlobal => True
  | .systemGlobal => True

/-! ### The places of a SET symbol -/

namespace SetSymbol

/-- The place that a subscript leads to; a scalar has one place only. -/
def place (s : SetSymbol) (subscript : Option Nat) : Option Nat := if s.isScalar then none else subscript

variable (s : SetSymbol) (subscript : Option Nat) (v : SetValue)

@[simp] theorem type_assign : (s.assign subscript v).type = s.type := by
  unfold assign
  split <;> rfl

@[simp] theorem isScalar_assign : (s.assign subscript v).isScalar = s.isScalar := by
  unfold assign
  split <;> rfl

/-- An assignment changes the value at its place only, and there it is the assigned one as the type has it. -/
theorem value_assign (subscripts : List Nat) : (s.assign subscript v).value subscripts =
    if s.place subscript = s.place subscripts.head? then v.coerce s.type else s.value subscripts := by
  unfold assign value place element
  cases hs : s.isScalar with
  | true => simp
  | false =>
    cases subscript with
    | none =>
      cases subscripts with
      | nil => simp
      | cons i is => simp
    | some i =>
      cases subscripts with
      | nil => simp
      | cons j js =>
        by_cases hij : i = j
        · subst hij
          simp
        · simp [Std.TreeMap.getElem?_insert, hij]

end SetSymbol

namespace Context

/-! ### The names of system variables -/

/-- The names of the global system variables. -/
def systemGlobalNames : List String := ["SYSDATC", "SYSDATE", "SYSTIME", "SYSPARM", "SYSOPT_RENT"]

/-- The names of the SET symbols that a call starts with. -/
def callVariableNames : List String := ["SYSECT", "SYSNDX", "SYSSTYP", "SYSLOC", "SYSNEST"]

section

variable {x y : Context} {name : String}

theorem find?_systemGlobals (settings : Settings) (now : Moment) (name : String) :
    ((AssemblerIndex.systemGlobals settings now).find? name).isSome = true ↔ name ∈ systemGlobalNames := by
  simp only [AssemblerIndex.systemGlobals, Table.ofList, List.foldl_cons, List.foldl_nil, Table.find?_insert,
    Table.find?_empty, systemGlobalNames, List.mem_cons, List.not_mem_nil, or_false]
  split_ifs <;> simp_all

theorem find?_callScope_of_notMem (x : Context) (s : Scope) (h : name ∉ callVariableNames) :
    (x.callScope s).bindings.find? name = s.bindings.find? name := by
  simp only [callVariableNames, List.mem_cons, List.not_mem_nil, or_false, not_or] at h
  simp [callScope, h]

theorem exists_callVariable (x : Context) (s : Scope) (h : name ∈ callVariableNames) :
    ∃ v, (x.callScope s).bindings.find? name = some (.own v) := by
  simp only [callVariableNames, List.mem_cons, List.not_mem_nil, or_false] at h
  rcases h with rfl | rfl | rfl | rfl | rfl <;> simp [callScope, callVariable]

theorem notMem_callVariableNames (h : name ∈ systemGlobalNames) : name ∉ callVariableNames := by
  simp only [systemGlobalNames, List.mem_cons, List.not_mem_nil, or_false] at h
  rcases h with rfl | rfl | rfl | rfl | rfl <;> decide

/-- A scope that is entered knows the global system variables, and it has SET symbols of its own for the call. -/
theorem boundIn?_entered {macroName : String} {label : Option MacroData} {args : List Argument}
    (h : x.enterMacro macroName label args = .ok y) (name : String) :
    y.depth = x.depth + 1 ∧
    (name ∈ callVariableNames → ∃ v, y.boundIn? x.depth name = some (.own v)) ∧
    (name ∉ callVariableNames → y.boundIn? x.depth name = (x.systemGlobals.find? name).map fun _ => .systemGlobal) := by
  obtain ⟨d, -, hvoc, -⟩ := enterMacro_eq_ok h
  have hlast : y.boundIn? x.depth name =
      ((x.entering d label args).callScope (.start x.branchLimit x.systemGlobals)).bindings.find? name := by
    rw [boundIn?, hvoc, ← length_vocabularies, List.getElem?_concat_length]
    rfl
  refine ⟨?_, fun hcall => ?_, fun hcall => ?_⟩
  · rw [← length_vocabularies, hvoc, List.length_append, length_vocabularies]
    rfl
  · rw [hlast]
    exact exists_callVariable _ _ hcall
  · rw [hlast, find?_callScope_of_notMem _ _ hcall]
    exact Table.find?_map ..

end

/-! ### Who shares a global SET symbol -/

/-- The operation declares the name global. -/
def Operation.DeclaresGlobal (op : Operation) (name : String) : Prop :=
  ∃ type isScalar, op = .declareGlobal name type isScalar

/-- The scope, which still stands, has declared the name global. -/
def DeclaredGlobal (x : Context) (ops : List Operation) (i : Nat) (name : String) : Prop :=
  PerformedIn x ops i (·.DeclaresGlobal name)

section

variable {x y : Context} {op : Operation} {ops : List Operation} {i : Nat} {name : String}

theorem lt_depth_of_boundIn? {b : Binding} (h : x.boundIn? i name = some b) : i < x.depth := by
  obtain ⟨w, hw, -⟩ := Option.bind_eq_some_iff.1 h
  rw [← length_vocabularies]
  exact (List.getElem?_eq_some_iff.1 hw).1

/-- A name comes to stand for a global SET symbol by its declaration, and it never ceases to. -/
theorem Rebinds.userGlobal_iff {b : Binding} (h : Rebinds x op name b) :
    b = .userGlobal ↔ op.DeclaresGlobal name := by
  cases h with
  | declareLocal type isScalar new => simp [Operation.DeclaresGlobal]
  | declareGlobal name type isScalar => simp [Operation.DeclaresGlobal]
  | assign subscript v own => simp [Operation.DeclaresGlobal]

/-- A name that stands for a shared SET symbol can only be declared global. -/
theorem Rebinds.of_isShared {b c : Binding} (h : Rebinds x op name b)
    (hbound : x.scope.bindings.find? name = some c) (hc : c.IsShared) : b = .userGlobal := by
  cases h with
  | declareLocal type isScalar new =>
    rw [new] at hbound
    cases hbound
  | declareGlobal name type isScalar => rfl
  | assign subscript v own =>
    rw [own] at hbound
    obtain rfl := Option.some.inj hbound
    exact hc.elim

/-- The scopes that share a global SET symbol are those that have declared it. -/
theorem boundIn?_userGlobal_iff (hx : ∀ i, x.boundIn? i name ≠ some .userGlobal) :
    (x.run ops).boundIn? i name = some .userGlobal ↔ DeclaredGlobal x ops i name := by
  induction ops using List.reverseRecOn generalizing i with
  | nil => exact iff_of_false (hx i) not_performedIn_nil
  | append_singleton ops op ih =>
    rw [run_concat, DeclaredGlobal, performedIn_concat, ← DeclaredGlobal, ← ih]
    by_cases hi : i < (op.after (x.run ops)).depth
    · rcases (revised_after op (x.run ops)).depth_cases hi with hold | ⟨rfl, macroName, label, args, henter⟩
      · rcases (revised_after op (x.run ops)).boundIn? hold hi name with ⟨same, none⟩ | ⟨rfl, b, hb, heq⟩
        · rw [same]
          refine ⟨fun h => ⟨hi, .inl h⟩, ?_⟩
          rintro ⟨-, h | ⟨⟨type, isScalar, rfl⟩, hdepth⟩⟩
          · exact h
          · exact absurd (.declareGlobal ..) (none (by rw [depth] at hdepth; omega) .userGlobal)
        · rw [heq, Option.some.injEq]
          refine ⟨fun h => ⟨hi, .inr ⟨hb.userGlobal_iff.1 h, rfl⟩⟩, ?_⟩
          rintro ⟨-, h | ⟨h, -⟩⟩
          · rw [boundIn?_current] at h
            exact hb.of_isShared h trivial
          · exact hb.userGlobal_iff.2 h
      · obtain ⟨-, hcall, hother⟩ := boundIn?_entered henter name
        refine iff_of_false ?_ ?_
        · by_cases hname : name ∈ callVariableNames
          · obtain ⟨v, hv⟩ := hcall hname
            simp [hv]
          · rw [hother hname]
            simp
        · rintro ⟨-, h | ⟨-, h⟩⟩
          · exact absurd (lt_depth_of_boundIn? h) (Nat.lt_irrefl _)
          · omega
    · exact iff_of_false (fun h => hi (lt_depth_of_boundIn? h)) fun h => hi h.1

end

/-! ### The SET symbols that scopes share -/

/-- What an operation does to the SET symbol that scopes share under a name. -/
inductive Shifted (op : Operation) (x y : Context) (name : String) (b : Binding) : Prop where
  | kept (same : y.bound? name b = x.bound? name b) (silent : ∀ subscript v, ¬ Stores x b name op subscript v)
      (old : op.DeclaresGlobal name → b = .userGlobal → x.bound? name b ≠ none)
  | created (type : SetType) (isScalar : Bool) (is : op = .declareGlobal name type isScalar) (user : b = .userGlobal)
      (new : x.bound? name b = none) (eq : y.bound? name b = some (.declared type isScalar true))
  | stored (subscript : Option Nat) (v : SetValue) (stores : Stores x b name op subscript v)
      (eq : y.bound? name b = (x.bound? name b).map (·.assign subscript v))

section

variable {x y : Context} {op : Operation} {name : String} {b : Binding}

theorem bound?_congr (hglobals : y.globals = x.globals) (hsystem : y.systemGlobals = x.systemGlobals) :
    y.bound? name b = x.bound? name b := by
  cases b with
  | own s => rfl
  | userGlobal => exact congrArg (·.find? name) hglobals
  | systemGlobal => exact congrArg (·.find? name) hsystem

theorem globals_bind (x : Context) (name : String) (b : Binding) :
    (x.bind name b).globals = x.globals ∧ (x.bind name b).systemGlobals = x.systemGlobals := by
  obtain ⟨hglobals, hsystem, -, -⟩ := x.globals_mapScope fun s => { s with bindings := s.bindings.insert name b }
  exact ⟨hglobals, hsystem⟩

theorem globals_leaveMacro (h : x.leaveMacro = .ok y) : y.globals = x.globals ∧ y.systemGlobals = x.systemGlobals := by
  unfold leaveMacro at h
  split at h
  · cases h
    exact ⟨rfl, rfl⟩
  · cases h

theorem Shifted.declareGlobal (hb : b.IsShared) (x : Context) (n : String) (type : SetType) (isScalar : Bool) :
    Shifted (.declareGlobal n type isScalar) x (x.declareGlobal n type isScalar) name b := by
  unfold Context.declareGlobal
  cases hold : x.globals.find? n with
  | some s =>
    -- an earlier declaration stands
    simp only [Table.contains, hold, Option.isSome_some, if_true]
    obtain ⟨hglobals, hsystem⟩ := x.globals_bind n .userGlobal
    refine .kept (bound?_congr hglobals hsystem) (by simp [Stores]) ?_
    rintro ⟨type', isScalar', h⟩ rfl
    cases h
    simp [bound?, hold]
  | none =>
    simp only [Table.contains, hold, Option.isSome_none, Bool.false_eq_true, if_false]
    generalize hz : ({ x with globals := x.globals.insert n _ } : Context) = z
    obtain ⟨hglobals, hsystem⟩ := z.globals_bind n .userGlobal
    have hbind : (z.bind n .userGlobal).bound? name b = z.bound? name b := bound?_congr hglobals hsystem
    cases b with
    | own s => exact hb.elim
    | systemGlobal =>
      refine .kept (hbind.trans ?_) (by simp [Stores]) (by simp [Operation.DeclaresGlobal])
      rw [← hz]
      rfl
    | userGlobal =>
      have hfind : z.bound? name .userGlobal =
          if name = n then some (.declared type isScalar true) else x.globals.find? name := by
        rw [← hz]
        exact Table.find?_insert ..
      by_cases hn : name = n
      · subst hn
        rw [if_pos rfl] at hfind
        exact .created type isScalar rfl rfl hold (hbind.trans hfind)
      · rw [if_neg hn] at hfind
        refine .kept (hbind.trans hfind) (by simp [Stores]) ?_
        rintro ⟨type', isScalar', h⟩
        cases h
        exact absurd rfl hn

/-- The assignment of a shared SET symbol. -/
theorem bound?_assign_self {c : Binding} (hc : c.IsShared) {n : String} (hbound : x.scope.bindings.find? n = some c)
    (subscript : Option Nat) (v : SetValue) :
    ((x.assign? n subscript v).getD x).bound? n c = (x.bound? n c).map (·.assign subscript v) := by
  cases c with
  | own s => exact hc.elim
  | userGlobal =>
    cases hs : x.globals.find? n with
    | none => simp [assign?, hbound, bound?, hs]
    | some s => simp [assign?, hbound, bound?, hs]
  | systemGlobal =>
    cases hs : x.systemGlobals.find? n with
    | none => simp [assign?, hbound, bound?, hs]
    | some s => simp [assign?, hbound, bound?, hs]

/-- It leaves the other shared ones alone. -/
theorem bound?_assign_other {c : Binding} (hb : b.IsShared) {n : String} (hbound : x.scope.bindings.find? n = some c)
    (hother : ¬ (name = n ∧ b = c)) (subscript : Option Nat) (v : SetValue) :
    ((x.assign? n subscript v).getD x).bound? name b = x.bound? name b := by
  cases c with
  | own s =>
    obtain ⟨hglobals, hsystem⟩ := x.globals_bind n (.own (s.assign subscript v))
    simp only [assign?, hbound, Option.getD_some]
    exact bound?_congr hglobals hsystem
  | userGlobal =>
    cases hs : x.globals.find? n with
    | none => simp [assign?, hbound, hs]
    | some s =>
      cases b with
      | own s => exact hb.elim
      | userGlobal =>
        have hn : name ≠ n := fun hn => hother ⟨hn, rfl⟩
        simp [assign?, hbound, bound?, hs, hn]
      | systemGlobal => simp [assign?, hbound, bound?, hs]
  | systemGlobal =>
    cases hs : x.systemGlobals.find? n with
    | none => simp [assign?, hbound, hs]
    | some s =>
      cases b with
      | own s => exact hb.elim
      | userGlobal => simp [assign?, hbound, bound?, hs]
      | systemGlobal =>
        have hn : name ≠ n := fun hn => hother ⟨hn, rfl⟩
        simp [assign?, hbound, bound?, hs, hn]

theorem Shifted.assign (hb : b.IsShared) (x : Context) (n : String) (subscript : Option Nat) (v : SetValue) :
    Shifted (.assign n subscript v) x ((x.assign? n subscript v).getD x) name b := by
  by_cases h : name = n ∧ x.scope.bindings.find? n = some b
  · obtain ⟨rfl, hbound⟩ := h
    exact .stored subscript v ⟨rfl, hbound⟩ (bound?_assign_self hb hbound subscript v)
  · refine .kept ?_ ?_ (by simp [Operation.DeclaresGlobal])
    · cases hbound : x.scope.bindings.find? n with
      | none => simp [assign?, hbound]
      | some c =>
        refine bound?_assign_other hb hbound (fun h' => h ⟨h'.1, ?_⟩) subscript v
        rw [hbound, h'.2]
    · rintro subscript' v' ⟨hop, hbound⟩
      cases hop
      exact h ⟨rfl, hbound⟩

/-- Each operation, failed or not, shifts a shared SET symbol in one of the ways. -/
theorem shifted_after (hb : b.IsShared) (op : Operation) (x : Context) (name : String) :
    Shifted op x (op.after x) name b := by
  rw [after_eq]
  cases h : op.apply x with
  | error e =>
    refine .kept rfl ?_ ?_
    · rintro subscript v ⟨rfl, -⟩
      cases h
    · rintro ⟨type, isScalar, rfl⟩
      cases h
  | ok y =>
    have hidle (hstorage : y.storage = x.storage) (hop : op.subject? = none) : Shifted op x y name b := by
      simp only [storage, Prod.mk.injEq] at hstorage
      refine .kept (bound?_congr hstorage.2.1 hstorage.2.2.1) ?_ ?_
      · rintro subscript v ⟨rfl, -⟩
        cases hop
      · rintro ⟨type, isScalar, rfl⟩
        cases hop
    show Shifted op x y name b
    cases op with
    | declareLocal n type isScalar =>
      cases h
      refine .kept ?_ (by simp [Stores]) (by simp [Operation.DeclaresGlobal])
      unfold declareLocal
      split
      · rfl
      · obtain ⟨hglobals, hsystem⟩ := x.globals_bind n (.own (.declared type isScalar false))
        exact bound?_congr hglobals hsystem
    | declareGlobal n type isScalar =>
      cases h
      exact .declareGlobal hb ..
    | assign n subscript v =>
      cases h
      exact .assign hb ..
    | enterMacro n label args =>
      obtain ⟨d, -, -, hglobals, hsystem, -⟩ := enterMacro_eq_ok h
      exact .kept (bound?_congr hglobals hsystem) (by simp [Stores]) (by simp [Operation.DeclaresGlobal])
    | leaveMacro =>
      obtain ⟨hglobals, hsystem⟩ := globals_leaveMacro h
      exact .kept (bound?_congr hglobals hsystem) (by simp [Stores]) (by simp [Operation.DeclaresGlobal])
    | _ => exact hidle (storage_apply h rfl) rfl

/-- A declaration creates the global SET symbol unless there is one already, which it leaves as it is. -/
theorem find?_declareGlobal (x : Context) (name : String) (type : SetType) (isScalar : Bool) :
    (x.declareGlobal name type isScalar).globals.find? name =
      some ((x.globals.find? name).getD (.declared type isScalar true)) := by
  cases shifted_after (b := .userGlobal) trivial (.declareGlobal name type isScalar) x name with
  | kept same silent old =>
    obtain ⟨s, hs⟩ := Option.ne_none_iff_exists'.1 (old ⟨type, isScalar, rfl⟩ rfl)
    rw [show x.globals.find? name = some s from hs]
    exact same.trans hs
  | created type isScalar is user new eq =>
    cases is
    rw [show x.globals.find? name = none from new]
    exact eq
  | stored subscript v stores eq => cases stores.1

end

/-! ### The value that was assigned last -/

/-- Behind the operations `before`, a scope that shared the SET symbol has assigned it at the place. -/
def Assigned (shares : List Operation → Prop) (name : String) (s : SetSymbol) (before behind : List Operation)
    (place : Option Nat) : Prop :=
  ∃ front subscript v rest, behind = front ++ .assign name subscript v :: rest ∧ shares (before ++ front) ∧
    s.place subscript = place

/-- Among the assignments by scopes that shared the SET symbol, this is the last one at its place. -/
def LastAssigned (shares : List Operation → Prop) (name : String) (s : SetSymbol) (ops : List Operation)
    (subscript : Option Nat) (v : SetValue) : Prop :=
  ∃ before behind, ops = before ++ .assign name subscript v :: behind ∧ shares before ∧
    ¬ Assigned shares name s (before ++ [.assign name subscript v]) behind (s.place subscript)

section

variable {x : Context} {name : String} {b : Binding} {s s' : SetSymbol} {shares : List Operation → Prop}
  {before behind ops : List Operation}

/-- A shared SET symbol is never taken away, and it keeps its type and shape. -/
theorem shape_run (hb : b.IsShared) (hs : x.bound? name b = some s) (ops : List Operation) :
    ∃ s', (x.run ops).bound? name b = some s' ∧ s'.type = s.type ∧ s'.isScalar = s.isScalar := by
  refine run_induction (P := fun y => ∃ s', y.bound? name b = some s' ∧ s'.type = s.type ∧ s'.isScalar = s.isScalar)
    ⟨s, hs, rfl, rfl⟩ (fun op y hy => ?_) ops
  obtain ⟨s', hs', htype, hscalar⟩ := hy
  cases shifted_after hb op y name with
  | kept same silent old => exact ⟨s', same.trans hs', htype, hscalar⟩
  | created type isScalar is user new eq =>
    rw [new] at hs'
    cases hs'
  | stored subscript v stores eq =>
    refine ⟨s'.assign subscript v, ?_, ?_, ?_⟩
    · rw [eq, hs']
      rfl
    · rw [SetSymbol.type_assign, htype]
    · rw [SetSymbol.isScalar_assign, hscalar]

theorem assigned_concat {op : Operation} {place : Option Nat} :
    Assigned shares name s before (behind ++ [op]) place ↔ Assigned shares name s before behind place ∨
      ∃ subscript v, op = .assign name subscript v ∧ shares (before ++ behind) ∧ s.place subscript = place := by
  constructor
  · rintro ⟨front, subscript, v, rest, heq, hshares, hplace⟩
    rcases List.eq_nil_or_concat rest with rfl | ⟨rest, last, rfl⟩
    · obtain ⟨rfl, hop⟩ := List.append_inj' heq rfl
      exact .inr ⟨subscript, v, List.singleton_inj.1 hop, hshares, hplace⟩
    · rw [List.concat_eq_append, ← List.cons_append, ← List.append_assoc] at heq
      obtain ⟨rfl, -⟩ := List.append_inj' heq rfl
      exact .inl ⟨front, subscript, v, rest, rfl, hshares, hplace⟩
  · rintro (⟨front, subscript, v, rest, rfl, hshares, hplace⟩ | ⟨subscript, v, rfl, hshares, hplace⟩)
    · exact ⟨front, subscript, v, rest ++ [op], by simp, hshares, hplace⟩
    · exact ⟨behind, subscript, v, [], rfl, hshares, hplace⟩

theorem place_congr (h : s'.isScalar = s.isScalar) (subscript : Option Nat) : s'.place subscript = s.place subscript := by
  rw [SetSymbol.place, SetSymbol.place, h]

/-- At a place that no sharing scope assigns the value stays. -/
theorem value_run (before : List Operation) (hb : b.IsShared)
    (hshares : ∀ ops, shares ops ↔ (x.run ops).scope.bindings.find? name = some b)
    (hs : (x.run before).bound? name b = some s) {subscripts : List Nat}
    (hnone : ¬ Assigned shares name s before behind (s.place subscripts.head?)) :
    ∃ s', (x.run (before ++ behind)).bound? name b = some s' ∧ s'.isScalar = s.isScalar ∧
      s'.value subscripts = s.value subscripts := by
  induction behind using List.reverseRecOn with
  | nil => exact ⟨s, by rw [List.append_nil, hs], rfl, rfl⟩
  | append_singleton behind op ih =>
    rw [assigned_concat] at hnone
    obtain ⟨s', hs', hscalar, hvalue⟩ := ih fun h => hnone (.inl h)
    rw [← List.append_assoc, run_concat]
    cases shifted_after hb op (x.run (before ++ behind)) name with
    | kept same silent old => exact ⟨s', same.trans hs', hscalar, hvalue⟩
    | created type isScalar is user new eq =>
      rw [new] at hs'
      cases hs'
    | stored subscript v stores eq =>
      refine ⟨s'.assign subscript v, ?_, ?_, ?_⟩
      · rw [eq, hs']
        rfl
      · rw [SetSymbol.isScalar_assign, hscalar]
      · rw [SetSymbol.value_assign, if_neg, hvalue]
        rw [place_congr hscalar, place_congr hscalar]
        exact fun hplace => hnone (.inr ⟨subscript, v, stores.1, (hshares _).2 stores.2, hplace⟩)

/-- What the sharing scopes read is what was assigned last. -/
theorem value_of_lastAssigned (hb : b.IsShared)
    (hshares : ∀ ops, shares ops ↔ (x.run ops).scope.bindings.find? name = some b)
    (hthere : ∀ ops, shares ops → (x.run ops).bound? name b ≠ none) (hs : (x.run ops).bound? name b = some s)
    {subscript : Option Nat} {v : SetValue} (h : LastAssigned shares name s ops subscript v) :
    s.value subscript.toList = v.coerce s.type := by
  obtain ⟨before, behind, rfl, hbefore, hlast⟩ := h
  obtain ⟨r, hr⟩ := Option.ne_none_iff_exists'.1 (hthere before hbefore)
  -- the SET symbol behind the assignment
  have hassigned : (x.run (before ++ [.assign name subscript v])).bound? name b = some (r.assign subscript v) := by
    rw [run_concat, after_eq]
    refine (bound?_assign_self hb ((hshares before).1 hbefore) subscript v).trans ?_
    rw [hr]
    rfl
  rw [List.append_cons] at hs
  obtain ⟨s', hs', htype, hscalar⟩ := shape_run hb hassigned behind
  rw [← run_append] at hs'
  obtain rfl := Option.some.inj (hs.symm.trans hs')
  have hplace (q : Option Nat) : (r.assign subscript v).place q = s.place q := place_congr hscalar.symm q
  have hlast' : ¬ Assigned shares name (r.assign subscript v) (before ++ [.assign name subscript v]) behind
      ((r.assign subscript v).place subscript.toList.head?) := by
    rintro ⟨front, subscript', v', rest, heq, hfront, hsame⟩
    refine hlast ⟨front, subscript', v', rest, heq, hfront, ?_⟩
    rw [hplace, hplace] at hsame
    rw [hsame]
    cases subscript <;> rfl
  obtain ⟨s'', hs'', -, hvalue⟩ := value_run _ hb hshares hassigned hlast'
  obtain rfl := Option.some.inj (hs.symm.trans hs'')
  rw [hvalue, SetSymbol.value_assign, if_pos, htype, SetSymbol.type_assign]
  cases subscript <;> rfl

end

/-! ### From the start of an assembly -/

section

variable {file : String} {settings : Settings} {now : Moment} {ops : List Operation} {name : String} {i : Nat}

theorem boundIn?_start (file : String) (settings : Settings) (now : Moment) (i : Nat) (name : String) :
    (start file settings now).boundIn? i name =
      if i = 0 then ((AssemblerIndex.systemGlobals settings now).find? name).map fun _ => .systemGlobal else none := by
  cases i with
  | zero => exact Table.find?_map ..
  | succ i => rfl

/-- The scopes that share a global SET symbol are those that have declared it. -/
theorem boundIn?_start_userGlobal_iff : ((start file settings now).run ops).boundIn? i name = some .userGlobal ↔
    DeclaredGlobal (start file settings now) ops i name := by
  refine boundIn?_userGlobal_iff fun i => ?_
  rw [boundIn?_start]
  split <;> simp

/-- The global SET symbol of a scope that has declared it is there. -/
theorem DeclaredGlobal.exists_global {x : Context} (h : DeclaredGlobal x ops i name) :
    ∃ s, (x.run ops).globals.find? name = some s := by
  obtain ⟨before, op, behind, rfl, ⟨type, isScalar, rfl⟩, -, -⟩ := h
  obtain ⟨s', hs', -⟩ := shape_run (b := .userGlobal) trivial
    (find?_declareGlobal (x.run before) name type isScalar) behind
  rw [run_append, run_cons]
  exact ⟨s', hs'⟩

/-- The global system variables are never taken away, and no other ones come. -/
theorem find?_systemGlobals_run (file : String) (settings : Settings) (now : Moment) (ops : List Operation)
    (name : String) :
    (((start file settings now).run ops).systemGlobals.find? name).isSome = true ↔ name ∈ systemGlobalNames := by
  rw [← find?_systemGlobals settings now]
  refine run_induction (P := fun y => (y.systemGlobals.find? name).isSome = true ↔ _) Iff.rfl (fun op y hy => ?_) ops
  rw [← hy]
  show ((op.after y).bound? name .systemGlobal).isSome = true ↔ (y.bound? name .systemGlobal).isSome = true
  cases shifted_after (b := .systemGlobal) trivial op y name with
  | kept same silent old => rw [same]
  | created type isScalar is user new eq => cases user
  | stored subscript v stores eq => rw [eq, Option.isSome_map]

theorem find?_systemGlobals_eq_none (hname : name ∉ systemGlobalNames) :
    ((start file settings now).run ops).systemGlobals.find? name = none := by
  rw [← find?_systemGlobals_run file settings now ops, Option.not_isSome_iff_eq_none] at hname
  exact hname

/-- A scope knows each global system variable, unless it has declared the name global. -/
theorem boundIn?_systemGlobal (hname : name ∈ systemGlobalNames) (hi : i < ((start file settings now).run ops).depth) :
    ((start file settings now).run ops).boundIn? i name = some .userGlobal ∨
      ((start file settings now).run ops).boundIn? i name = some .systemGlobal := by
  induction ops using List.reverseRecOn generalizing i with
  | nil =>
    obtain rfl : i = 0 := Nat.lt_one_iff.1 hi
    obtain ⟨s, hs⟩ := Option.isSome_iff_exists.1 ((find?_systemGlobals settings now name).2 hname)
    right
    rw [run_nil, boundIn?_start, if_pos rfl, hs]
    rfl
  | append_singleton ops op ih =>
    rw [run_concat] at hi ⊢
    rcases (revised_after op _).depth_cases hi with hold | ⟨rfl, macroName, label, args, henter⟩
    · rcases (revised_after op _).boundIn? hold hi name with ⟨same, -⟩ | ⟨rfl, b, hb, heq⟩
      · rw [same]
        exact ih hold
      · left
        rw [heq]
        rcases ih hold with h | h <;>
        · rw [boundIn?_current] at h
          exact congrArg some (hb.of_isShared h trivial)
    · obtain ⟨-, -, hother⟩ := boundIn?_entered henter name
      obtain ⟨s, hs⟩ := Option.isSome_iff_exists.1 ((find?_systemGlobals_run _ _ _ ops name).2 hname)
      right
      rw [hother (notMem_callVariableNames hname), hs]
      rfl

/-- The scopes that share a global system variable are those that have not declared its name global. -/
theorem boundIn?_start_systemGlobal_iff (hname : name ∈ systemGlobalNames) :
    ((start file settings now).run ops).boundIn? i name = some .systemGlobal ↔
      i < ((start file settings now).run ops).depth ∧ ¬ DeclaredGlobal (start file settings now) ops i name := by
  rw [← boundIn?_start_userGlobal_iff]
  constructor
  · intro h
    refine ⟨lt_depth_of_boundIn? h, fun h' => ?_⟩
    rw [h] at h'
    cases h'
  · rintro ⟨hi, h⟩
    exact (boundIn?_systemGlobal hname hi).resolve_left h

/-- No other name stands for a global system variable. -/
theorem boundIn?_ne_systemGlobal (hname : name ∉ systemGlobalNames) :
    ((start file settings now).run ops).boundIn? i name ≠ some .systemGlobal := by
  induction ops using List.reverseRecOn generalizing i with
  | nil =>
    have hnone : ((start file settings now).run []).systemGlobals.find? name = none := find?_systemGlobals_eq_none hname
    rw [run_nil, boundIn?_start, show (AssemblerIndex.systemGlobals settings now).find? name = none from hnone]
    split <;> simp
  | append_singleton ops op ih =>
    rw [run_concat]
    intro h
    have hi := lt_depth_of_boundIn? h
    rcases (revised_after op _).depth_cases hi with hold | ⟨rfl, macroName, label, args, henter⟩
    · rcases (revised_after op _).boundIn? hold hi name with ⟨same, -⟩ | ⟨rfl, b, hb, heq⟩
      · rw [same] at h
        exact ih h
      · rw [heq] at h
        obtain rfl := Option.some.inj h
        cases hb
    · obtain ⟨-, hcall, hother⟩ := boundIn?_entered henter name
      by_cases hmem : name ∈ callVariableNames
      · obtain ⟨v, hv⟩ := hcall hmem
        rw [hv] at h
        cases h
      · rw [hother hmem, find?_systemGlobals_eq_none hname] at h
        cases h

end

end Context

end AssemblerIndex
