import AssemblerIndex.Proofs.Context.SharedVariables

/-!
# The global system variables

Each scope begins with the names of the global system variables, and in it they stand for the SET symbols outside of
the scopes.  Nothing but a global declaration of such a name changes that, and only for the scope that makes it: there
the name stands for a global SET symbol of its own from then on.

* `SystemGlobalShared` — which scopes share a global system variable, and what they read;
* `system_globals_shared` — **the scopes share a global system variable as long as they do not declare it global**.
-/

namespace AssemblerIndex.Context

/-- Behind the operations the scopes share the global system variable. -/
structure SystemGlobalShared (x : Context) (ops : List Operation) (name : String) : Prop where
  /-- it is there, and of the type and shape of the beginning -/
  there : ∃ s₀ s, x.systemGlobals.find? name = some s₀ ∧ (x.run ops).systemGlobals.find? name = some s ∧
    s.type = s₀.type ∧ s.isScalar = s₀.isScalar
  /-- a scope that has not declared the name global shares it -/
  shared : ∀ i, i < (x.run ops).depth → ¬ DeclaredGlobal x ops i name →
    (x.run ops).boundIn? i name = some .systemGlobal ∧
      (x.run ops).seenIn? i name = ((x.run ops).systemGlobals.find? name).map .set
  /-- one that has declared the name global shares a global SET symbol in its place -/
  apart : ∀ i, DeclaredGlobal x ops i name →
    (x.run ops).boundIn? i name = some .userGlobal ∧ (x.run ops).seenIn? i name = ((x.run ops).globals.find? name).map .set
  /-- what one of the sharing scopes has assigned last is what each of them reads -/
  last : ∀ s subscript v, (x.run ops).systemGlobals.find? name = some s →
    LastAssigned (fun before => ¬ DeclaredGlobal x before (x.run before).calls.length name) name s ops subscript v →
    ∀ i, i < (x.run ops).depth → ¬ DeclaredGlobal x ops i name →
      (x.run ops).reads? i name subscript.toList = some (v.coerce s.type)
  /-- what none of them has assigned is what it was in the beginning -/
  untouched : ∀ s₀ subscripts, x.systemGlobals.find? name = some s₀ →
    ¬ Assigned (fun before => ¬ DeclaredGlobal x before (x.run before).calls.length name) name s₀ [] ops
      (s₀.place subscripts.head?) →
    ∀ i, i < (x.run ops).depth → ¬ DeclaredGlobal x ops i name →
      (x.run ops).reads? i name subscripts = some (s₀.value subscripts)

/-- **The scopes share a global system variable as long as they do not declare it global.** -/
theorem system_globals_shared (file : String) (settings : Settings) (now : Moment) (ops : List Operation) {name : String}
    (hname : name ∈ systemGlobalNames) : SystemGlobalShared (start file settings now) ops name := by
  generalize hx : start file settings now = x
  have hshared (ops : List Operation) (i : Nat) : (x.run ops).boundIn? i name = some .systemGlobal ↔
      i < (x.run ops).depth ∧ ¬ DeclaredGlobal x ops i name := by
    rw [← hx]
    exact boundIn?_start_systemGlobal_iff hname
  have hsees (ops : List Operation) (i : Nat) (hi : i < (x.run ops).depth) (h : ¬ DeclaredGlobal x ops i name) :
      (x.run ops).seenIn? i name = ((x.run ops).systemGlobals.find? name).map .set :=
    seenIn?_of_bound _ ((hshared ops i).2 ⟨hi, h⟩)
  have hcurrent (before : List Operation) : ¬ DeclaredGlobal x before (x.run before).calls.length name ↔
      (x.run before).scope.bindings.find? name = some .systemGlobal := by
    rw [← boundIn?_current, hshared]
    exact (and_iff_right (Nat.lt_succ_self _)).symm
  have hthere (ops : List Operation) : ∃ s, (x.run ops).systemGlobals.find? name = some s := by
    rw [← hx]
    exact Option.isSome_iff_exists.1 ((find?_systemGlobals_run ..).2 hname)
  obtain ⟨s₀, hs₀⟩ := hthere []
  obtain ⟨s, hs, htype, hscalar⟩ := shape_run (b := .systemGlobal) trivial hs₀ ops
  refine ⟨⟨s₀, s, hs₀, hs, htype, hscalar⟩, fun i hi h => ⟨(hshared ops i).2 ⟨hi, h⟩, hsees ops i hi h⟩, ?_, ?_, ?_⟩
  · intro i h
    have hbound : (x.run ops).boundIn? i name = some .userGlobal := by
      subst hx
      exact boundIn?_start_userGlobal_iff.2 h
    exact ⟨hbound, seenIn?_of_bound _ hbound⟩
  · intro s subscript v hs hlast i hi h
    have hvalue := value_of_lastAssigned (b := .systemGlobal) trivial hcurrent
      (fun before _ => Option.ne_none_iff_exists'.2 (hthere before)) hs hlast
    rw [reads?, hsees ops i hi h, hs, Option.map_some, Option.map_some]
    exact congrArg some hvalue
  · intro s₀' subscripts hs₀' hnone i hi h
    obtain ⟨s', hs', -, hvalue⟩ := value_run (b := .systemGlobal) [] trivial hcurrent hs₀' hnone
    rw [List.nil_append] at hs'
    have hfind : (x.run ops).systemGlobals.find? name = some s' := hs'
    rw [reads?, hsees ops i hi h, hfind, Option.map_some, Option.map_some]
    exact congrArg some hvalue

/-- A macro assigns `&SYSPARM`, and open code reads what it has assigned. -/
theorem system_parameter_shared_with_macro :
    let m : MacroDefinition := { (default : MacroDefinition) with name := "M" }
    let x := start "P" { sysparm := "OLD" } default
    let ops : List Operation := [.addMacro m, .enterMacro "M" none [], .assign "SYSPARM" none (.character "NEW".toList),
      .leaveMacro]
    SystemGlobalShared x ops "SYSPARM" ∧ (x.run ops).reads? 0 "SYSPARM" [] = some (.character "NEW".toList) := by
  refine ⟨system_globals_shared "P" { sysparm := "OLD" } default _ (by decide), ?_⟩
  rfl

/-- A macro that declares `&SYSPARM` global parts from the shared SET symbol: what it assigns is not what open code
reads. -/
theorem system_parameter_apart_behind_declaration :
    let m : MacroDefinition := { (default : MacroDefinition) with name := "M" }
    let x := start "P" { sysparm := "OLD" } default
    let ops : List Operation := [.addMacro m, .enterMacro "M" none [], .declareGlobal "SYSPARM" .character true,
      .assign "SYSPARM" none (.character "NEW".toList)]
    (x.run ops).depth = 2 ∧
      (x.run ops).boundIn? 0 "SYSPARM" = some .systemGlobal ∧ (x.run ops).boundIn? 1 "SYSPARM" = some .userGlobal ∧
      (x.run ops).reads? 0 "SYSPARM" [] = some (.character "OLD".toList) ∧
      (x.run ops).reads? 1 "SYSPARM" [] = some (.character "NEW".toList) :=
  ⟨rfl, rfl, rfl, rfl, rfl⟩

end AssemblerIndex.Context
