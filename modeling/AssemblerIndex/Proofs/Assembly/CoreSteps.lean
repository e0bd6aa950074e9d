import AssemblerIndex.Proofs.Assembly.CoreStatements

/-!
# What steps do to the core

Around the processing of a statement a step moves to it, reads definitions and leaves listings.  Here is
what that does to the core, and what flows the processing can end with.
-/

namespace AssemblerIndex.Assembly

variable {j : Job} {a b : Assembly} {p : Activation} {outer : List Activation} {s : Statement}

/-! ### Moving and leaving -/

theorem core_moveTo_of_openCode (hs : a.context.sources = []) (hp : p.definition? = none) (s : Statement) :
    (a.moveTo p s).core = a.core := by
  obtain ⟨src, hx, -⟩ := exists_track hs s p.index
  unfold moveTo mapContext
  rw [hp]
  dsimp only [Option.isSome_none]
  rw [if_neg Bool.false_ne_true, hx]
  rfl

theorem core_leave_of_openCode (h : Balanced j a) (hc : a.control = p :: outer) (hp : p.definition? = none) :
    a.leave.core = a.core := by
  rw [leave_of_openCode h hc hp]
  rfl

/-- Outside of macros a listing is left without a trace in the core. -/
theorem core_leaveAll (h : Balanced j a) (ha : a.context.calls = []) (l : List Activation) :
    (l.foldl (fun a _ => a.leave) a).core = a.core := by
  induction l generalizing a with
  | nil => rfl
  | cons _ rest ih =>
    rw [List.foldl_cons]
    cases hc : a.control with
    | nil =>
      have hl : a.leave = a := by
        unfold leave
        rw [hc]
      rw [hl]
      exact ih h ha
    | cons p outer =>
      have hp : p.definition? = none := by
        cases hd : p.definition? with
        | none => rfl
        | some d =>
          obtain ⟨c, cs, hcalls, -⟩ := h.exists_call hc (by rw [hd]; rfl)
          simp [ha] at hcalls
      have hcalls : a.leave.context.calls = [] := by
        rw [leave_of_openCode h hc hp]
        exact ha
      exact (ih h.leave hcalls).trans (core_leave_of_openCode h hc hp)

/-! ### Flows -/

/-- What is entered is the body of a macro, or a copy member from open code. -/
theorem enter_cases {opcode : String} {l : Listing} (h : Executed a p opcode b (.enter l))
    (hd : p.definition? = none → a.context.calls = []) :
    (∃ d, l = .macroBody d) ∨ p.definition? = none ∧ ∃ m, l = .copyMember m := by
  generalize hf : Flow.enter l = flow at h
  cases h with
  | call _ c => exact .inl ⟨_, Flow.enter.inj hf⟩
  | copy _ m _ inOpenCode => exact .inr ⟨inOpenCode, m, Flow.enter.inj hf⟩
  | branch hy target hb _ =>
    subst hf
    rcases branch_cases (fun hp => hy.calls_eq_nil (hd hp)) hb with
      ⟨hn, -⟩ | ⟨z, -, -, ⟨i, hi, -⟩ | ⟨he, -⟩⟩
    · simp at hn
    · simp at hi
    · simp at he
  | next => simp at hf
  | counter => simp at hf
  | exit => simp at hf

/-- Conditional assembly enters nothing. -/
theorem ne_enter_of_conditional? {opcode : String} {flow : Flow}
    (hd : p.definition? = none → a.context.calls = [])
    (h : a.conditional? p s opcode = some (b, flow)) (m : CopyMember) : flow ≠ .enter (.copyMember m) := by
  have hfollow {target : Option String} (h : a.follow p target = (b, flow)) :
      flow ≠ .enter (.copyMember m) := by
    unfold follow at h
    split at h
    · rcases branch_cases hd h with ⟨rfl, -⟩ | ⟨z, -, -, ⟨i, rfl, -⟩ | ⟨rfl, -⟩⟩ <;> nofun
    · obtain ⟨-, rfl⟩ := Prod.mk.inj h
      nofun
  unfold conditional? at h
  split at h
  · obtain ⟨-, rfl⟩ := Prod.mk.inj (Option.some.inj h)
    nofun
  · split at h
    · obtain ⟨-, rfl⟩ := Prod.mk.inj (Option.some.inj h)
      nofun
    · split at h
      · exact hfollow (Option.some.inj h)
      · exact hfollow (Option.some.inj h)
      · obtain ⟨-, rfl⟩ := Prod.mk.inj (Option.some.inj h)
        nofun
      · obtain ⟨-, rfl⟩ := Prod.mk.inj (Option.some.inj h)
        split <;> nofun
      all_goals
        first
        | obtain ⟨-, rfl⟩ := Prod.mk.inj (Option.some.inj h)
          nofun
        | simp at h

/-- A statement that opens a copy member resolves to a copy statement, and it names the member in capital
letters. -/
theorem copy_of_process (ha : a.Sound) (hd : p.definition? = none → a.context.calls = [])
    {m : CopyMember} (h : a.process p s = .ok (b, .enter (.copyMember m))) :
    (a.prepare p s).context.operation (s.substituted (a.prepare p s).context).opcode = "COPY" ∧
      ∃ t, m.name = Text.upper t := by
  have hx := holds_prepare hd s
  have hsound := hx.sound ha
  rcases process_cases h with hr | ⟨-, h⟩
  · exact absurd rfl (ne_enter_of_conditional? (fun hp => hx.calls_eq_nil (hd hp)) hr m)
  generalize a.prepare p s = x at h hsound ⊢
  generalize s.substituted x.context = t at h ⊢
  have hm := spares_meet x [t.opcode]
  show (x.meet [t.opcode]).context.operation t.opcode = "COPY" ∧ _
  rcases effect_of_processSubstituted h with ⟨-, -, hflow⟩ | ⟨-, h⟩
  · cases hflow
  generalize x.meet [t.opcode] = x' at h hm ⊢
  cases h with
  | copy hop _ h =>
    rcases copy_cases (hm.sound hsound) h with ⟨hn, -⟩ | ⟨a', m', found, he, -, -, -, -, -, hname⟩
    · cases hn
    · obtain rfl : m = m' := by simpa using he
      exact ⟨hop, hname⟩
  | callMacro _ hq h =>
    rcases callMacro_cases (find?_of_macro? (hm.sound hsound) hq) h with ⟨hn, -⟩ | ⟨hn, -⟩
    · cases hn
    · cases hn

end AssemblerIndex.Assembly
