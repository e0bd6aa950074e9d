import AssemblerIndex.Proofs.Context.SharedVariables

/-!
# Global and local SET symbols

A global SET symbol is created by its first declaration, and every scope that declares it shares it, whatever type and
shape its declaration has.  The other SET symbols belong to one scope each.

* `UserGlobalShared` — the scopes that have declared a name global read the same, also those that do it later;
* `LocalsPrivate` — what the current scope does to its own SET symbols, no other scope sees, and what a call does leaves
  those of its caller alone;
* `globals_shared_locals_private` — **global SET symbols are shared, and local ones are private**.
-/

namespace AssemblerIndex.Context

/-- Behind the operations the scopes that have declared a name global share one SET symbol. -/
structure UserGlobalShared (x : Context) (ops : List Operation) (name : String) : Prop where
  shared : ∀ i, DeclaredGlobal x ops i name →
    ∃ s, (x.run ops).globals.find? name = some s ∧ (x.run ops).seenIn? i name = some (.set s)
  /-- its type and shape are those of the first declaration, also if the scope that made it has been left -/
  first : ∀ before type isScalar behind, ops = before ++ .declareGlobal name type isScalar :: behind →
    (∀ op ∈ before, ¬ op.DeclaresGlobal name) →
    ∃ s, (x.run ops).globals.find? name = some s ∧ s.type = type ∧ s.isScalar = isScalar
  /-- its value is what one of these scopes has assigned last, whether that scope still stands or not -/
  last : ∀ s subscript v, (x.run ops).globals.find? name = some s →
    LastAssigned (fun before => DeclaredGlobal x before (x.run before).calls.length name) name s ops subscript v →
    s.value subscript.toList = v.coerce s.type
  /-- a scope that declares the name now shares the SET symbol as it is, whatever type and shape it asks for -/
  later : ∀ s type isScalar, (x.run ops).globals.find? name = some s →
    let y := (x.run ops).declareGlobal name type isScalar
    y.globals.find? name = some s ∧ y.visible? name = some (.set s)

/-- Behind the operations the SET symbols of a scope are its own. -/
structure LocalsPrivate (x : Context) (ops : List Operation) : Prop where
  /-- what the current scope has not declared global it assigns for itself alone -/
  assigned : ∀ n subscript v, n ∉ systemGlobalNames → ¬ DeclaredGlobal x ops (x.run ops).calls.length n →
    ∀ i m, i ≠ (x.run ops).calls.length ∨ m ≠ n →
      ((Operation.assign n subscript v).after (x.run ops)).seenIn? i m = (x.run ops).seenIn? i m
  /-- a SET symbol that it creates is new, and it is seen nowhere else -/
  created : ∀ n type isScalar, (x.run ops).scope.bindings.find? n = none →
    let y := (x.run ops).declareLocal n type isScalar
    y.visible? n = some (.set (.declared type isScalar false)) ∧ n ∉ systemGlobalNames ∧
      ¬ DeclaredGlobal x (ops ++ [.declareLocal n type isScalar]) y.calls.length n ∧
      ∀ i m, i ≠ (x.run ops).calls.length ∨ m ≠ n → y.seenIn? i m = (x.run ops).seenIn? i m
  /-- while a macro is being expanded, and when it has been left, the caller's own SET symbols are as the caller left
  them -/
  returned : ∀ macroName label args y, (x.run ops).enterMacro macroName label args = .ok y →
    ∀ inner, Stands y inner (x.run ops).depth →
    ∀ n, n ∉ systemGlobalNames → ¬ DeclaredGlobal x ops (x.run ops).calls.length n →
      (y.run inner).seenIn? (x.run ops).calls.length n = (x.run ops).visible? n ∧
      ∀ z, (y.run inner).depth = y.depth → (y.run inner).leaveMacro = .ok z → z.visible? n = (x.run ops).visible? n

section

variable {x y : Context} {op : Operation} {ops : List Operation} {name : String} {i : Nat}

theorem Rebinds.unique {b b' : Binding} (h : Rebinds x op name b) (h' : Rebinds x op name b') : b' = b := by
  cases h with
  | declareLocal type isScalar new =>
    cases h' with
    | declareLocal _ _ _ => rfl
  | declareGlobal name type isScalar =>
    cases h' with
    | declareGlobal _ _ _ => rfl
  | assign subscript v own =>
    cases h' with
    | assign _ _ own' =>
      obtain rfl := Binding.own.inj (Option.some.inj (own.symm.trans own'))
      rfl

/-- Without a declaration there is no global SET symbol. -/
theorem find?_globals_eq_none (hx : x.globals.find? name = none) (hnone : ∀ op ∈ ops, ¬ op.DeclaresGlobal name) :
    (x.run ops).globals.find? name = none := by
  induction ops generalizing x with
  | nil => exact hx
  | cons op ops ih =>
    refine ih ?_ fun op' hop' => hnone op' (List.mem_cons_of_mem op hop')
    show (op.after x).bound? name .userGlobal = none
    cases shifted_after (b := .userGlobal) trivial op x name with
    | kept same silent old => exact same.trans hx
    | created type isScalar is user new eq => exact absurd ⟨type, isScalar, is⟩ (hnone op List.mem_cons_self)
    | stored subscript v stores eq =>
      rw [eq, show x.bound? name .userGlobal = none from hx]
      rfl

theorem bound?_own {b : Binding} (h : ¬ b.IsShared) : y.bound? name b = x.bound? name b := by
  cases b with
  | own s => rfl
  | userGlobal => exact absurd trivial h
  | systemGlobal => exact absurd trivial h

/-- An operation that neither declares a name global nor assigns it leaves the SET symbol that the name stands for
alone. -/
theorem bound?_after {b : Binding} (hdeclares : ¬ op.DeclaresGlobal name)
    (hstores : b.IsShared → ∀ subscript v, ¬ Stores x b name op subscript v) :
    (op.after x).bound? name b = x.bound? name b := by
  by_cases hshared : b.IsShared
  · cases shifted_after hshared op x name with
    | kept same silent old => exact same
    | created type isScalar is user new eq => exact absurd ⟨type, isScalar, is⟩ hdeclares
    | stored subscript v stores eq => exact absurd stores (hstores hshared subscript v)
  · exact bound?_own hshared

theorem vocabularies_of_le (h : x.depth ≤ i) : x.vocabularies[i]? = none := by
  rw [List.getElem?_eq_none_iff, length_vocabularies]
  exact h

/-- A declaration or an assignment enters and leaves no scope. -/
theorem Revised.depth_of_subject? (h : Revised op x y) {n : String} (hop : op.subject? = some n) : y.depth = x.depth := by
  rw [← y.length_vocabularies]
  cases h with
  | kept same silent quiet => rw [same, length_vocabularies]
  | rebound name b rebinds eq => rw [eq, length_revised]
  | entered name label args is eq =>
    subst is
    cases hop
  | left is eq =>
    subst is
    cases hop

/-- A declaration or an assignment changes what is seen under its own name in the current scope, and else only what
stands for the SET symbol that it changes. -/
theorem Revised.seenIn? (h : Revised op x y) {n : String} (hop : op.subject? = some n) {m : String}
    (hm : i ≠ x.calls.length ∨ m ≠ n) (hshared : ∀ b, x.boundIn? i m = some b → y.bound? m b = x.bound? m b) :
    y.seenIn? i m = x.seenIn? i m := by
  have hdepth := h.depth_of_subject? hop
  rcases Nat.lt_or_ge i x.depth with hi | hi
  · refine (h.alikeIn hi (hdepth ▸ hi) fun hcurrent hsubject => ?_).seenIn? hshared
    have hmn := Option.some.inj (hsubject.symm.trans hop)
    exact hm.elim (fun h => h hcurrent) fun h => h hmn
  · rw [Context.seenIn?, Context.seenIn?, vocabularies_of_le hi, vocabularies_of_le (hdepth ▸ hi)]
    rfl

/-- The binding of a name that the operation binds anew. -/
theorem Revised.boundIn?_of_rebinds (h : Revised op x y) {b : Binding} (hb : Rebinds x op name b) :
    y.boundIn? x.calls.length name = some b := by
  have hdepth := h.depth_of_subject? hb.subject?
  have hi : x.calls.length < x.depth := Nat.lt_succ_self _
  rcases h.boundIn? hi (hdepth ▸ hi) name with ⟨-, none⟩ | ⟨-, b', hb', heq⟩
  · exact absurd hb (none rfl b)
  · rw [heq, hb.unique hb']

end

section

variable {file : String} {settings : Settings} {now : Moment} {ops : List Operation} {name : String} {i : Nat}

/-- A name that a scope has not declared global, and that is not one of a global system variable, stands for no SET
symbol outside of the scopes. -/
theorem not_isShared (hname : name ∉ systemGlobalNames) (h : ¬ DeclaredGlobal (start file settings now) ops i name)
    {b : Binding} (hb : ((start file settings now).run ops).boundIn? i name = some b) : ¬ b.IsShared := by
  cases b with
  | own s => exact id
  | userGlobal => exact absurd (boundIn?_start_userGlobal_iff.1 hb) h
  | systemGlobal => exact absurd hb (boundIn?_ne_systemGlobal hname)

theorem DeclaredGlobal.seenIn? {i : Nat} (h : DeclaredGlobal (start file settings now) ops i name) :
    ((start file settings now).run ops).seenIn? i name =
      (((start file settings now).run ops).globals.find? name).map .set :=
  seenIn?_of_bound _ (boundIn?_start_userGlobal_iff.2 h)

theorem userGlobalShared (file : String) (settings : Settings) (now : Moment) (ops : List Operation) (name : String) :
    UserGlobalShared (start file settings now) ops name where
  shared i h := by
    obtain ⟨s, hs⟩ := h.exists_global
    refine ⟨s, hs, ?_⟩
    rw [h.seenIn?, hs]
    rfl
  first := by
    rintro before type isScalar behind rfl hnone
    have hcreated : ((start file settings now).run (before ++ [.declareGlobal name type isScalar])).bound? name .userGlobal =
        some (.declared type isScalar true) := by
      rw [run_concat]
      exact (find?_declareGlobal ..).trans (by rw [find?_globals_eq_none rfl hnone, Option.getD_none])
    obtain ⟨s, hs, htype, hscalar⟩ := shape_run (b := .userGlobal) trivial hcreated behind
    rw [← run_append, ← List.append_cons] at hs
    exact ⟨s, hs, htype, hscalar⟩
  last s subscript v hs hlast := by
    have hcurrent (before : List Operation) :
        DeclaredGlobal (start file settings now) before ((start file settings now).run before).calls.length name ↔
          ((start file settings now).run before).scope.bindings.find? name = some .userGlobal := by
      rw [← boundIn?_current, boundIn?_start_userGlobal_iff]
    exact value_of_lastAssigned (b := .userGlobal) trivial hcurrent
      (fun before h => Option.ne_none_iff_exists'.2 h.exists_global) hs hlast
  later s type isScalar hs := by
    generalize (start file settings now).run ops = x at hs
    have hrevised : Revised (.declareGlobal name type isScalar) x (x.declareGlobal name type isScalar) := revised_apply rfl
    have hdepth := hrevised.depth_of_subject? rfl
    have hfind : (x.declareGlobal name type isScalar).globals.find? name = some s := by
      rw [find?_declareGlobal, hs, Option.getD_some]
    have hbound := hrevised.boundIn?_of_rebinds (.declareGlobal name type isScalar)
    refine ⟨hfind, ?_⟩
    have hsame : (x.declareGlobal name type isScalar).calls.length = x.calls.length := Nat.succ.inj hdepth
    rw [visible?_eq, hsame, seenIn?_of_bound _ hbound]
    exact congrArg (Option.map Variable.set) hfind

theorem localsPrivate (file : String) (settings : Settings) (now : Moment) (ops : List Operation) :
    LocalsPrivate (start file settings now) ops where
  assigned n subscript v hn hlocal i m hm := by
    refine (revised_after _ _).seenIn? (n := n) rfl hm fun b hb => ?_
    refine bound?_after (by simp [Operation.DeclaresGlobal]) fun hshared subscript' v' stores => ?_
    obtain ⟨hop, hbound⟩ := stores
    cases hop
    rw [← boundIn?_current] at hbound
    exact not_isShared hn hlocal hbound hshared
  created n type isScalar hnew := by
    have hrevised : Revised (.declareLocal n type isScalar) ((start file settings now).run ops)
        (((start file settings now).run ops).declareLocal n type isScalar) := revised_apply rfl
    have hbound := hrevised.boundIn?_of_rebinds (.declareLocal type isScalar hnew)
    have hsame := Nat.succ.inj (hrevised.depth_of_subject? rfl)
    rw [← boundIn?_current] at hnew
    refine ⟨?_, fun hn => ?_, ?_, fun i m hm => ?_⟩
    · rw [visible?_eq, hsame, seenIn?_of_bound _ hbound]
      rfl
    · have hi : ((start file settings now).run ops).calls.length < ((start file settings now).run ops).depth :=
        Nat.lt_succ_self _
      rcases boundIn?_systemGlobal hn hi with h | h
      · rw [hnew] at h
        cases h
      · rw [hnew] at h
        cases h
    · rw [← boundIn?_start_userGlobal_iff, hsame, run_concat]
      intro h
      rw [show (Operation.declareLocal n type isScalar).after _ = _ from rfl] at h
      cases hbound.symm.trans h
    · refine hrevised.seenIn? (n := n) rfl hm fun b hb => ?_
      have hdeclares : ¬ (Operation.declareLocal n type isScalar).DeclaresGlobal m := by simp [Operation.DeclaresGlobal]
      exact bound?_after hdeclares (by simp [Stores])
  returned macroName label args y henter inner hstands n hn hlocal := by
    generalize hx : (start file settings now).run ops = x at henter hstands hlocal ⊢
    have hprivate (b : Binding) (hb : x.boundIn? x.calls.length n = some b) : ¬ b.IsShared := by
      subst hx
      exact not_isShared hn hlocal hb
    have hcaller : Stands y inner x.calls.length := hstands.beneath (Nat.le_succ _)
    have hentered : Revised (.enterMacro macroName label args) x y := revised_apply henter
    have hinside : AlikeIn x (y.run inner) x.calls.length n :=
      (hentered.alikeIn (Nat.lt_succ_self _) hcaller.first fun _ => by simp [Operation.subject?]).trans
        (alikeIn_run hcaller (hstands.not_performedIn (Nat.lt_succ_self _)))
    rw [visible?_eq]
    refine ⟨hinside.seenIn? fun b hb => bound?_own (hprivate b hb), fun z hdepth hleave => ?_⟩
    have hback : z.calls.length = x.calls.length := by
      have hlength := congrArg List.length (vocabularies_leaveMacro hleave)
      rw [List.length_dropLast, length_vocabularies, length_vocabularies, hdepth, (boundIn?_entered henter n).1] at hlength
      exact Nat.succ.inj hlength
    have hz : x.calls.length < z.depth := by
      rw [depth, hback]
      exact Nat.lt_succ_self _
    have hleft : Revised .leaveMacro (y.run inner) z := revised_apply hleave
    have houtside := hinside.trans (hleft.alikeIn hcaller.last hz fun _ => by simp [Operation.subject?])
    rw [visible?_eq, hback]
    exact houtside.seenIn? fun b hb => bound?_own (hprivate b hb)

end

/-- **Global SET symbols are shared, and local ones are private.** -/
theorem globals_shared_locals_private (file : String) (settings : Settings) (now : Moment) (ops : List Operation) :
    (∀ name, UserGlobalShared (start file settings now) ops name) ∧ LocalsPrivate (start file settings now) ops :=
  ⟨userGlobalShared file settings now ops, localsPrivate file settings now ops⟩

/-- A macro creates an array and assigns it; when it has been left, open code declares the name as a scalar of another
type and reads the array. -/
example :
    let m : MacroDefinition := { (default : MacroDefinition) with name := "M" }
    let x := (start "P" {} default).run [.addMacro m, .enterMacro "M" none [], .declareGlobal "G" .arithmetic false,
      .assign "G" (some 3) (.arithmetic 7), .leaveMacro, .declareGlobal "G" .character true]
    x.reads? 0 "G" [3] = some (.arithmetic 7) := rfl

end AssemblerIndex.Context
