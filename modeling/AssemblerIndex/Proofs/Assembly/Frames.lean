import AssemblerIndex.Proofs.Assembly.Balance

/-!
# The frame of a macro call

While a macro is expanded, whatever its body does, the state below the call stays as it was: the
listings, the calls with their scopes, the scope of open code, the sources and the levels (`Above`).
The expansion ends by leaving the body, so behind the call all of this is as it was before it
(`Above.sameFrames`), and a run that comes to its end has left the call (`Above.returns`).
-/

namespace AssemblerIndex.Assembly

/-- The step from `a` to `b` executes, in the state `x`, a statement that calls a macro. -/
inductive CallStep (a : Assembly) : (x b : Assembly) → Prop
  | intro {p : Activation} {outer : List Activation} {s : Statement} {d : MacroDefinition}
    {b : Assembly} (hc : a.control = p :: outer) (hs : p.statement? = some s)
    (hb : a.step = .ok b)
    (enters : b.control = { listing := .macroBody d } :: { p with index := p.index + 1 } :: outer) :
    CallStep a ((a.moveTo p s).prepare p s) b

/-- All scopes with their variables, labels and branch counters, all sources with their positions and
copy members, and all levels are the same in `x` and in `c`. -/
structure SameFrames (x c : Assembly) : Prop where
  calls : c.context.calls = x.context.calls
  openCode : c.context.openCode = x.context.openCode
  base : c.context.base = x.context.base
  sources : c.context.sources = x.context.sources
  levels : c.context.levels = x.context.levels

theorem SameFrames.scope {x c : Assembly} (h : SameFrames x c) : c.context.scope = x.context.scope := by
  unfold Context.scope
  rw [h.calls, h.openCode]

/-- The state `z` is within a call from `x`: on top of the listings `below` and of the calls of `x` there
are only bodies of macros, each with its call, and the rest is as in `x`. -/
structure Above (x : Assembly) (below : List Activation) (z : Assembly) : Prop where
  listings : ∃ ps, z.control = ps ++ below ∧ ps ≠ [] ∧ (∀ q ∈ ps, q.definition?.isSome) ∧
    ∃ cs, z.context.calls = cs ++ x.context.calls ∧ cs.length = ps.length
  openCode : z.context.openCode = x.context.openCode
  base : z.context.base = x.context.base
  sources : z.context.sources = x.context.sources
  levels : z.context.levels = x.context.levels

section Call

variable {j : Job} {a b c x y z : Assembly}
  {below outer : List Activation} {q : Activation}

theorem Above.exists_cons (h : Above x below z) : ∃ q ps c cs, z.control = q :: (ps ++ below) ∧
    q.definition?.isSome ∧ (∀ r ∈ ps, r.definition?.isSome) ∧
    z.context.calls = c :: (cs ++ x.context.calls) ∧ cs.length = ps.length := by
  obtain ⟨ps, hps, ne, hd, cs, hcs, hl⟩ := h.listings
  cases ps with
  | nil => exact absurd rfl ne
  | cons q ps =>
    cases cs with
    | nil => simp at hl
    | cons c cs =>
      refine ⟨q, ps, c, cs, hps, hd q List.mem_cons_self, fun r hr => hd r (List.mem_cons_of_mem _ hr), hcs, ?_⟩
      simpa using hl

/-- What works in the innermost scope stays within the call, wherever the innermost listing goes on. -/
theorem Above.of_stays (h : Above x below z) (hy : z.Stays y) {q : Activation}
    {ps : List Activation} (hc : z.control = q :: (ps ++ below)) (i : Nat) :
    Above x below { y with control := { q with index := i } :: (ps ++ below) } := by
  obtain ⟨q', ps', c, cs, hc', hq, hps, hcalls, hl⟩ := h.exists_cons
  rw [hc, List.cons.injEq, List.append_left_inj] at hc'
  obtain ⟨rfl, rfl⟩ := hc'
  have ne : z.context.calls ≠ [] := by simp [hcalls]
  have hcy := hy.callers
  cases hcy' : y.context.calls with
  | nil => exact absurd hcy' (hy.calls_ne_nil ne)
  | cons c' cs' =>
    rw [hcy', hcalls, List.tail_cons, List.tail_cons] at hcy
    refine ⟨⟨{ q with index := i } :: ps, rfl, by simp, ?_, c' :: cs, ?_, by simp [hl]⟩,
      (hy.openCode ne).trans h.openCode, (hy.base ne).trans h.base, hy.sources.trans h.sources,
      hy.levels.trans h.levels⟩
    · intro r hr
      rcases List.mem_cons.1 hr with rfl | hr
      · exact hq
      · exact hps r hr
    · dsimp only
      rw [hcy', hcy]
      rfl

/-- A step within a call stays within it, or leaves it. -/
theorem Above.step (h : Above x below z) (hb : Balanced j z) (hs : z.step = .ok y) :
    Above x below y ∨ y.control = below ∧ SameFrames x y := by
  obtain ⟨q, ps, c, cs, hc, hq, hps, hcalls, hl⟩ := h.exists_cons
  have hq' : q.definition? ≠ none := by
    intro he
    rw [he] at hq
    simp at hq
  cases moved_of_step hb hc hs with
  | @left y hy _ =>
    have hz := h.of_stays hy hc q.index
    rw [leave_of_macroBody (hb.of_stays hy) (hy.control.trans hc) hq]
    have ne : z.context.calls ≠ [] := by simp [hcalls]
    cases ps with
    | nil =>
      refine .inr ⟨rfl, ?_, hz.openCode, hz.base, hz.sources, hz.levels⟩
      rw [List.length_nil, List.length_eq_zero_iff] at hl
      dsimp only
      rw [hy.callers, hcalls, hl]
      rfl
    | cons r ps =>
      refine .inl ⟨⟨r :: ps, rfl, by simp, hps, cs, ?_, hl⟩, hz.openCode, hz.base, hz.sources, hz.levels⟩
      dsimp only
      rw [hy.callers, hcalls]
      rfl
  | ended _ inOpenCode => exact absurd inOpenCode hq'
  | @onward y i hy _ _ => exact .inl (h.of_stays hy.toStays hc i)
  | @jump y i hy _ _ => exact .inl (h.of_stays (hy.toStays.trans (stays_countBranch y)) hc i)
  | @counter y n hy _ =>
    exact .inl (h.of_stays (hy.toStays.trans (stays_setBranchCounter y n)) hc (q.index + 1))
  | @called y d hy _ _ _ =>
    have hz := h.of_stays hy.toStays hc (q.index + 1)
    obtain ⟨ps', hps', -, hd, cs', hcs', hl'⟩ := hz.listings
    refine .inl ⟨⟨{ listing := .macroBody d.invocation.definition } :: ps', ?_, by simp, ?_, d :: cs', ?_,
      by simp [hl']⟩, hz.openCode, hz.base, hz.sources, hz.levels⟩
    · exact congrArg _ hps'
    · intro r hr
      rcases List.mem_cons.1 hr with rfl | hr
      · rfl
      · exact hd r hr
    · exact congrArg _ hcs'
  | opened _ _ inOpenCode _ _ _ => exact absurd inOpenCode hq'

/-- A run from within a call ends within it, or has left it on the way. -/
theorem Above.run (h : Above x below z) (hb : Balanced j z) {n : Nat}
    (hn : z.run n = .ok y) :
    (Above x below y ∧ ∀ k ≤ n, ∀ w, z.run k = .ok w → Above x below w) ∨
      ∃ k w, k ≤ n ∧ z.run k = .ok w ∧ w.run (n - k) = .ok y ∧ w.control = below ∧ SameFrames x w ∧
        ∀ j < k, ∀ v, z.run j = .ok v → Above x below v := by
  induction n generalizing z with
  | zero =>
    obtain rfl := Except.ok.inj hn
    refine .inl ⟨h, fun k hk w hw => ?_⟩
    obtain rfl : k = 0 := by omega
    exact Except.ok.inj hw ▸ h
  | succ n ih =>
    obtain ⟨z', hz', hn⟩ := exists_step_of_run hn
    have first {k : Nat} {v : Assembly} (hv : z.run (k + 1) = .ok v) : z'.run k = .ok v := by
      rw [run_succ, hz'] at hv
      exact hv
    rcases h.step hb hz' with h' | ⟨hc, hf⟩
    · rcases ih h' (hb.step hz') hn with ⟨hy, hall⟩ | ⟨k, w, hk, hw, hrest, hc, hf, hall⟩
      · refine .inl ⟨hy, fun k hk w hw => ?_⟩
        cases k with
        | zero => exact Except.ok.inj hw ▸ h
        | succ k => exact hall k (by omega) w (first hw)
      · refine .inr ⟨k + 1, w, by omega, ?_, ?_, hc, hf, fun j hj v hv => ?_⟩
        · rw [run_succ, hz']
          exact hw
        · rwa [Nat.add_sub_add_right]
        · cases j with
          | zero => exact Except.ok.inj hv ▸ h
          | succ j => exact hall j (by omega) v (first hv)
    · refine .inr ⟨1, z', by omega, ?_, by simpa using hn, hc, hf, fun j hj v hv => ?_⟩
      · rw [run_succ, hz']
        rfl
      · obtain rfl : j = 0 := by omega
        exact Except.ok.inj hv ▸ h

theorem Above.length_lt (h : Above x below z) : below.length < z.control.length := by
  obtain ⟨ps, hps, ne, -⟩ := h.listings
  have := List.length_pos_iff.2 ne
  rw [hps, List.length_append]
  omega

/-- Behind the step that calls a macro the processing is within the call. -/
theorem CallStep.above (hb : Balanced j a) (h : CallStep a x b) :
    Above x b.control.tail b := by
  obtain ⟨hc, hs, hstep, enters⟩ := h
  rename_i p outer s d
  have hm := keeps_moveTo hb hc s
  have hq := holds_moveTo_prepare hb hc s
  have exits {y : Assembly} (hy : a.Stays y) : (y.proceed p outer .exit).control ≠ b.control := by
    rw [enters]
    unfold proceed
    dsimp only
    split
    · rw [control_leave, hy.control, hc]
      exact fun h => absurd (congrArg List.length h) (by simp; omega)
    · rw [((hb.of_stays hy).leaveAll _).2, List.drop_length]
      simp
  have stays (i : Nat) : ({ p with index := i } :: outer : List Activation) ≠ b.control := by
    rw [enters]
    exact fun h => absurd (congrArg List.length h) (by simp)
  have leaves {y : Assembly} (hy : a.Stays y) : y.leave.control ≠ b.control := by
    rw [control_leave, hy.control, hc, enters]
    exact fun h => absurd (congrArg List.length h) (by simp; omega)
  cases stepped_of_step hb hc hstep with
  | behind _ => exact absurd rfl (leaves (.refl a))
  | mend hs' _ _ => exact absurd rfl (leaves (keeps_moveTo hb hc _).toStays)
  | definition _ _ _ => exact absurd rfl (stays _)
  | @executed s' b' flow hs' _ _ _ he =>
    obtain rfl := Option.some.inj (hs.symm.trans hs')
    cases he with
    | next hy => exact absurd rfl (stays _)
    | counter hy n _ => exact absurd rfl (stays _)
    | branch hy target hbranch _ =>
      have hqy := hq.trans hy.toHolds
      have hcalls (hd : p.definition? = none) := hqy.calls_eq_nil (hb.calls_eq_nil hc hd)
      rcases branch_cases hcalls hbranch with ⟨rfl, -⟩ | ⟨y, hb', rfl, ⟨i, rfl, -⟩ | ⟨rfl, -⟩⟩
      · exact absurd rfl (stays _)
      · exact absurd rfl (stays i)
      · exact absurd rfl (exits (hqy.toStays.trans (hb'.toStays.trans (stays_countBranch y))))
    | exit hy => exact absurd rfl (exits (hq.toStays.trans hy.toStays))
    | call hy c depth _ =>
      refine ⟨⟨[{ listing := .macroBody c.invocation.definition }], rfl, by simp, by simp [Activation.definition?],
        [c], congrArg _ hy.calls, rfl⟩, hy.ownScope, hy.ownBase, hy.sources, hy.levels⟩
    | copy hy m found hp closed find member => simp [proceed] at enters

end Call

end AssemblerIndex.Assembly
