import AssemblerIndex.Proofs.Context.SharedVariables

/-!
# The system variables of a call

When a call is entered, its scope gets variables that tell where the call stands: its number among all calls, the
number of scopes beneath its own, and the names of the macros from its own down to open code.  They are the scope's own,
so whatever the calls within it do, it reads the same until it changes them itself.

* `entries` — the number of calls that operations enter;
* `callChain_eq` — the chain of macros as the scopes have it;
* `CallReads` — what the scope of a call reads;
* `call_variables_stay` — **a call reads its number, its depth and its chain of macros as long as it stands**.
-/

namespace AssemblerIndex.Context

/-! ### Counting calls -/

/-- The number of macro calls that the operations enter; calls that fail do not count. -/
def entries (x : Context) : List Operation → Nat
  | [] => 0
  | op :: ops => (op.enters x).toNat + (op.after x).entries ops

section

variable {x y : Context} {op : Operation}

theorem entries_append (x : Context) (ops ops' : List Operation) :
    x.entries (ops ++ ops') = x.entries ops + (x.run ops).entries ops' := by
  induction ops generalizing x with
  | nil => simp [entries]
  | cons op ops ih =>
    rw [List.cons_append, entries, ih, entries, run_cons, Nat.add_assoc]

theorem enters_of_ok {name : String} {label : Option MacroData} {args : List Argument}
    (h : x.enterMacro name label args = .ok y) : (Operation.enterMacro name label args).enters x = true := by
  unfold Operation.enters
  dsimp only
  rw [h]
  rfl

theorem enterMacro_of_enters {name : String} {label : Option MacroData} {args : List Argument}
    (h : (Operation.enterMacro name label args).enters x = true) :
    x.enterMacro name label args = .ok ((Operation.enterMacro name label args).after x) := by
  rw [after_eq]
  show x.enterMacro name label args = .ok ((x.enterMacro name label args).toOption.getD x)
  unfold Operation.enters at h
  dsimp only at h
  cases hcall : x.enterMacro name label args with
  | ok y => rfl
  | error e =>
    rw [hcall] at h
    cases h

theorem callCount_bind (x : Context) (name : String) (b : Binding) : (x.bind name b).callCount = x.callCount :=
  (x.globals_mapScope _).2.2.1

/-- Exactly the calls that are entered are counted. -/
theorem callCount_after (op : Operation) (x : Context) :
    (op.after x).callCount = x.callCount + (op.enters x).toNat := by
  rw [after_eq]
  cases h : op.apply x with
  | error e =>
    rw [enters_of_error h]
    rfl
  | ok y =>
    show y.callCount = _
    cases op with
    | declareLocal name type isScalar =>
      cases h
      unfold declareLocal
      split
      · rfl
      · exact callCount_bind ..
    | declareGlobal name type isScalar =>
      cases h
      unfold declareGlobal
      dsimp only
      rw [callCount_bind]
      split <;> rfl
    | assign name subscript v =>
      cases h
      cases hbound : x.scope.bindings.find? name with
      | none =>
        simp only [assign?, hbound, Option.getD_none]
        rfl
      | some b =>
        cases b with
        | own s =>
          simp only [assign?, hbound, Option.getD_some]
          exact callCount_bind ..
        | userGlobal =>
          simp only [assign?, hbound]
          cases x.globals.find? name with
          | none => rfl
          | some s => rfl
        | systemGlobal =>
          simp only [assign?, hbound]
          cases x.systemGlobals.find? name with
          | none => rfl
          | some s => rfl
    | enterMacro name label args =>
      obtain ⟨d, -, -, -, -, hcount⟩ := enterMacro_eq_ok h
      rw [enters_of_ok h, hcount]
      rfl
    | leaveMacro =>
      have hleave : x.leaveMacro = .ok y := h
      unfold leaveMacro at hleave
      split at hleave
      · cases hleave
        rfl
      · cases hleave
    | _ => exact congrArg (·.2.2.2) (storage_apply h rfl)

theorem callCount_run (x : Context) (ops : List Operation) : (x.run ops).callCount = x.callCount + x.entries ops := by
  induction ops generalizing x with
  | nil => rfl
  | cons op ops ih => rw [run_cons, ih, callCount_after, entries, Nat.add_assoc]

/-- There are not more scopes than calls were entered. -/
theorem depth_run_le (x : Context) (ops : List Operation) : (x.run ops).depth ≤ x.depth + x.entries ops := by
  induction ops generalizing x with
  | nil => exact Nat.le_refl _
  | cons op ops ih =>
    have hstep : (op.after x).depth ≤ x.depth + (op.enters x).toNat := by
      rw [← (op.after x).length_vocabularies]
      cases revised_after op x with
      | kept same silent quiet =>
        rw [same, length_vocabularies]
        exact Nat.le_add_right ..
      | rebound name b rebinds eq =>
        rw [eq, length_revised]
        exact Nat.le_add_right ..
      | entered name label args is eq =>
        obtain ⟨d, -, hvoc, -⟩ := enterMacro_eq_ok eq
        rw [hvoc, List.length_append, length_vocabularies, is, enters_of_ok eq]
        exact Nat.le_refl _
      | left is eq =>
        rw [eq, List.length_dropLast, length_vocabularies]
        omega
    rw [run_cons, entries]
    have := ih (op.after x)
    omega

end

/-! ### The scope of a call -/

/-- Behind operations in its calls, the scope of a call reads where the call stands: it is call number `k`, and its
scope has `d` scopes beneath it. -/
structure CallReads (x : Context) (ops : List Operation) (k d : Nat) : Prop where
  number : ¬ PerformedIn x ops d (·.subject? = some "SYSNDX") →
    ∃ w, (x.run ops).reads? d "SYSNDX" [] = some (.arithmetic w) ∧ w.toInt = k
  nesting : ¬ PerformedIn x ops d (·.subject? = some "SYSNEST") →
    ∃ w, (x.run ops).reads? d "SYSNEST" [] = some (.arithmetic w) ∧ w.toInt = d
  macros : ¬ PerformedIn x ops d (·.subject? = some "SYSMAC") →
    (∀ i < d, ∃ v s, (x.run ops).scopeStack[d - i]? = some (some v, s) ∧
      (x.run ops).reads? d "SYSMAC" [i] = some (.character v.definition.name.toList)) ∧
    (x.run ops).reads? d "SYSMAC" [d] = some (.character "OPEN CODE".toList)

section

variable {x y : Context} {ops : List Operation} {name : String} {d i : Nat}

/-- The scopes that belong to no macro are those of open code, and they are what the chain ends with. -/
theorem callChain_eq (x : Context) :
    x.callChain = x.vocabularies.reverse.map fun w => .single (w.macroName.getD "OPEN CODE").toList := by
  rw [vocabularies_eq, List.reverse_cons, List.map_append, ← List.map_reverse, List.reverse_reverse, List.map_map]
  rfl

/-- A SET symbol of a scope reads the same as long as the scope stands and does nothing to it. -/
theorem reads?_run_own {s : SetSymbol} (hstands : Stands x ops d) (hbound : x.boundIn? d name = some (.own s))
    (hnone : ¬ PerformedIn x ops d fun op => op.subject? = some name) (subscripts : List Nat) :
    (x.run ops).reads? d name subscripts = some (s.value subscripts) := by
  rw [← boundIn?_run hstands hnone] at hbound
  rw [reads?, seenIn?_of_bound _ hbound]
  rfl

/-- So does a system variable that no SET symbol of the scope hides. -/
theorem reads?_run_system {w : Vocabulary} {v : Variable} (hstands : Stands x ops d) (hw : x.vocabularies[d]? = some w)
    (hfree : w.bindings.find? name = none) (hv : w.systemVariables.find? name = some v)
    (hnone : ¬ PerformedIn x ops d fun op => op.subject? = some name) (subscripts : List Nat) :
    (x.run ops).reads? d name subscripts = some (v.value subscripts) := by
  have hunbound : x.boundIn? d name = none := by
    rw [boundIn?, hw]
    exact hfree
  have halike := (alikeIn_run hstands hnone).seenIn? fun b hb => by
    rw [hunbound] at hb
    cases hb
  rw [reads?, halike, seenIn?, hw, Option.bind_some, Vocabulary.seen?, hfree, hv]
  rfl

/-- The macro of a scope stays the same as long as the scope stands. -/
theorem macroName_run (hstands : Stands x ops d) :
    (x.run ops).vocabularies[d]?.map (·.macroName) = x.vocabularies[d]?.map (·.macroName) := by
  have hconstant := congrArg (Option.map (·.macroName)) (constant_run hstands)
  rw [Option.map_map, Option.map_map] at hconstant
  exact hconstant

/-- A list of macro names is read with subscripts that count from zero. -/
theorem value_sysList (items : List MacroData) (i : Nat) :
    (Variable.sysList (.composite items)).value [i] = .character (items[i]?.getD .absent).text := rfl

/-- The chain of a call leads from its own macro to open code, which is at the end. -/
theorem getElem?_callChain {w : Vocabulary} (hi : i < x.depth) (hw : x.vocabularies[x.depth - 1 - i]? = some w) :
    x.callChain[i]? = some (.single (w.macroName.getD "OPEN CODE").toList) := by
  rw [callChain_eq, List.getElem?_map, List.getElem?_reverse (by rwa [length_vocabularies]), length_vocabularies, hw]
  rfl

/-- All scopes but the outermost belong to macros. -/
theorem exists_macro_scope (hi : 0 < i) (hi' : i < x.depth) :
    ∃ v s, x.scopeStack[i]? = some (some v, s) ∧ x.vocabularies[i]? = some (vocabulary (some v, s)) := by
  obtain ⟨j, rfl⟩ := Nat.exists_eq_succ_of_ne_zero (Nat.ne_of_gt hi)
  have hj : j < x.calls.reverse.length := by
    rw [List.length_reverse]
    exact Nat.lt_of_succ_lt_succ hi'
  refine ⟨x.calls.reverse[j].invocation, x.calls.reverse[j].scope, ?_, ?_⟩
  · rw [scopeStack, List.getElem?_cons_succ, List.getElem?_map, List.getElem?_eq_getElem hj]
    rfl
  · rw [vocabularies_eq, List.getElem?_cons_succ, List.getElem?_map, List.getElem?_eq_getElem hj]
    rfl

end

section

variable {x y : Context} {macroName : String} {label : Option MacroData} {args : List Argument}

/-- What the scope of a call knows when the call has been entered. -/
theorem entered_knows (h : x.enterMacro macroName label args = .ok y)
    (hfree : x.systemGlobals.find? "SYSMAC" = none) :
    y.boundIn? x.depth "SYSNDX" =
        some (callVariable .arithmetic (.arithmetic (Int32.ofNat x.callCount))) ∧
      y.boundIn? x.depth "SYSNEST" = some (callVariable .arithmetic (.arithmetic (Int32.ofNat x.depth))) ∧
      ∃ w, y.vocabularies[x.depth]? = some w ∧ w.bindings.find? "SYSMAC" = none ∧
        w.systemVariables.find? "SYSMAC" = some (.sysList (.composite y.callChain)) := by
  have hbound := (boundIn?_entered h "SYSMAC").2.2 (by decide)
  obtain ⟨d, -, hvoc, -⟩ := enterMacro_eq_ok h
  have hlast : y.vocabularies[x.depth]? = some (vocabulary (some (d.call label args),
      (x.entering d label args).callScope (.start x.branchLimit x.systemGlobals))) := by
    rw [hvoc, ← length_vocabularies, List.getElem?_concat_length]
  have hchain : y.callChain = (x.entering d label args).callChain := by
    rw [callChain_eq, callChain_eq, hvoc]
    simp [vocabularies_eq, entering, vocabulary]
  rw [boundIn?, boundIn?, hlast, Option.bind_some, Option.bind_some]
  refine ⟨?_, ?_, _, rfl, ?_, ?_⟩
  · simp [vocabulary, callScope, entering]
  · simp [vocabulary, callScope, entering, depth]
  · rw [boundIn?, hlast, Option.bind_some, hfree] at hbound
    exact hbound
  · rw [hchain]
    simp [vocabulary, callScope]

end

/-- **A call reads its number, its depth and its chain of macros as long as it stands**, whatever calls are entered and
left within it, unless it declares or assigns these names itself. -/
theorem call_variables_stay (file : String) (settings : Settings) (now : Moment) {before behind : List Operation}
    {name : String} {label : Option MacroData} {args : List Argument} {y : Context}
    (henter : ((start file settings now).run before).enterMacro name label args = .ok y)
    (hstands : Stands y behind ((start file settings now).run before).depth)
    (hlimit : (start file settings now).entries (before ++ .enterMacro name label args :: behind) < 2147483648) :
    (start file settings now).run (before ++ .enterMacro name label args :: behind) = y.run behind ∧
      CallReads y behind ((start file settings now).entries before) ((start file settings now).run before).depth := by
  have hfree : ((start file settings now).run before).systemGlobals.find? "SYSMAC" = none :=
    find?_systemGlobals_eq_none (by decide)
  have hafter : (Operation.enterMacro name label args).after ((start file settings now).run before) = y := by
    rw [after_eq, show (Operation.enterMacro name label args).apply _ = .ok y from henter]
    rfl
  have hcount : ((start file settings now).run before).callCount = (start file settings now).entries before :=
    (callCount_run _ before).trans (Nat.zero_add _)
  have hdepth := depth_run_le (start file settings now) before
  rw [entries_append, entries, enters_of_ok henter, Bool.toNat_true] at hlimit
  rw [show (start file settings now).depth = 1 from rfl] at hdepth
  rw [run_append, run_cons, hafter]
  generalize (start file settings now).run before = x at *
  obtain ⟨hnumber, hnesting, w, hw, hhidden, hchain⟩ := entered_knows henter hfree
  have hy : y.depth = x.depth + 1 := (boundIn?_entered henter name).1
  refine ⟨rfl, fun hnone => ⟨_, reads?_run_own hstands hnumber hnone [], ?_⟩,
    fun hnone => ⟨_, reads?_run_own hstands hnesting hnone [], Int32.toInt_ofNat_of_lt (by omega)⟩, fun hnone => ?_⟩
  · rw [hcount]
    exact Int32.toInt_ofNat_of_lt (by omega)
  have hread (i : Nat) {v : Vocabulary} (hi : i ≤ x.depth) (hv : y.vocabularies[x.depth - i]? = some v) :
      (y.run behind).reads? x.depth "SYSMAC" [i] = some (.character (v.macroName.getD "OPEN CODE").toList) := by
    have hentry : y.callChain[i]? = some (.single (v.macroName.getD "OPEN CODE").toList) := by
      refine getElem?_callChain (by omega) ?_
      rw [hy, Nat.add_sub_cancel]
      exact hv
    rw [reads?_run_system hstands hw hhidden hchain hnone, value_sysList, hentry]
    rfl
  constructor
  · intro i hi
    have hbeneath := hstands.beneath (Nat.sub_le x.depth i)
    obtain ⟨v, s, hscope, hvoc⟩ := exists_macro_scope (x := y.run behind) (i := x.depth - i) (by omega) hbeneath.last
    refine ⟨v, s, hscope, ?_⟩
    -- the macro is the one that the scope belonged to when the call was entered
    have hmacro := macroName_run hbeneath
    rw [hvoc, Option.map_some, eq_comm, Option.map_eq_some_iff] at hmacro
    obtain ⟨w', hw', hname⟩ := hmacro
    rw [hread i (Nat.le_of_lt hi) hw', hname]
    rfl
  · rw [hread x.depth (Nat.le_refl _) (v := vocabulary (none, y.openCode)) ?_]
    · rfl
    · rw [Nat.sub_self, vocabularies_eq]
      rfl

/-- The second call of a macro enters another macro, which assigns its own `&SYSNDX`, and leaves it; then it reads what it
has read from the beginning. -/
theorem call_variables_behind_inner_call :
    let m (name : String) : MacroDefinition := { (default : MacroDefinition) with name }
    let before : List Operation := [.addMacro (m "OUTER"), .addMacro (m "INNER"), .enterMacro "OUTER" none [],
      .leaveMacro, .enterMacro "NONE" none []]
    let behind : List Operation := [.enterMacro "INNER" none [], .assign "SYSNDX" none (.arithmetic 7), .leaveMacro]
    ∃ w, ((start "P" {} default).run (before ++ .enterMacro "OUTER" none [] :: behind)).reads? 1 "SYSNDX" [] =
      some (.arithmetic w) ∧ w.toInt = 1 := by
  intro m before behind
  have henters : (Operation.enterMacro "OUTER" none []).enters ((start "P" {} default).run before) = true := by
    decide +kernel
  have henter := enterMacro_of_enters henters
  have hbeneath : ((start "P" {} default).run before).depth = 1 := by decide +kernel
  have hnumber : (start "P" {} default).entries before = 1 := by decide +kernel
  have hlimit : (start "P" {} default).entries (before ++ .enterMacro "OUTER" none [] :: behind) < 2147483648 := by
    decide +kernel
  have hdepths : ∀ n ≤ 3, (((Operation.enterMacro "OUTER" none []).after ((start "P" {} default).run before)).run
      (behind.take n)).depth = [2, 3, 3, 2].getD n 0 := by
    decide +kernel
  generalize (Operation.enterMacro "OUTER" none []).after ((start "P" {} default).run before) = y at henter hdepths
  have hstands : Stands y behind ((start "P" {} default).run before).depth := by
    rw [hbeneath]
    intro n hn
    rw [hdepths n hn]
    match n, hn with
    | 0, _ => decide
    | 1, _ => decide
    | 2, _ => decide
    | 3, _ => decide
  obtain ⟨hrun, hreads⟩ := call_variables_stay "P" {} default henter hstands hlimit
  rw [hbeneath, hnumber] at hreads
  rw [hrun]
  refine hreads.number ?_
  -- the assignment was made in the scope of the inner call
  rintro ⟨front, op, rest, heq, hop, hdepth, -⟩
  simp only [behind] at heq
  match front, heq with
  | [], heq =>
    cases heq
    cases hop
  | [_], heq =>
    cases heq
    exact absurd ((hdepths 1 (by decide)).symm.trans hdepth) (by decide)
  | [_, _], heq =>
    cases heq
    cases hop
  | _ :: _ :: _ :: _, heq => simp at heq

end AssemblerIndex.Context
