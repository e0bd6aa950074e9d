import AssemblerIndex.Proofs.Assembly.Balance

/-!
# Simulations between runs

Two runs come to related ends if related assemblies take related steps.  The one on the left may also take
a step of its own now and then, as long as a measure goes down with it; so each end of the one run is an end
of the other one (`Simulates.forward`, `Simulates.backward`).
-/

namespace AssemblerIndex.Assembly

/-- Either both have the same fault, or the outcomes are related. -/
inductive SameOutcome {α : Type} (R : α → α → Prop) :
    Except AssemblyFault α → Except AssemblyFault α → Prop
  | error (e : AssemblyFault) : SameOutcome R (.error e) (.error e)
  | ok {u v : α} (h : R u v) : SameOutcome R (.ok u) (.ok v)

theorem SameOutcome.map {α β : Type} {R : α → α → Prop} {S : β → β → Prop}
    {u v : Except AssemblyFault α} (h : SameOutcome R u v) {f g : α → β}
    (hfg : ∀ x y, R x y → S (f x) (g y)) : SameOutcome S (u.map f) (v.map g) := by
  cases h with
  | error e => exact .error e
  | ok h => exact .ok (hfg _ _ h)

theorem SameOutcome.mono {α : Type} {R S : α → α → Prop} {u v : Except AssemblyFault α}
    (h : SameOutcome R u v) (hrs : ∀ x y, u = .ok x → v = .ok y → R x y → S x y) : SameOutcome S u v := by
  cases h with
  | error e => exact .error e
  | ok h => exact .ok (hrs _ _ rfl rfl h)

/-- The run from `a` ends with the outcome `r`: with a fault, or when every listing has been left. -/
def Yields (a : Assembly) (r : Except AssemblyFault Assembly) : Prop :=
  (∃ n, a.run n = r) ∧ ∀ e, r = .ok e → e.isFinished

section Yields

variable {a b : Assembly} {r : Except AssemblyFault Assembly}

theorem yields_of_isFinished (h : a.isFinished) : a.Yields (.ok a) :=
  ⟨⟨0, rfl⟩, fun _ he => Except.ok.inj he ▸ h⟩

theorem yields_of_error {e : AssemblyFault} (h : a.step = .error e) : a.Yields (.error e) := by
  refine ⟨⟨1, ?_⟩, nofun⟩
  rw [run_succ, h]
  rfl

theorem Yields.of_step (h : b.Yields r) (hs : a.step = .ok b) : a.Yields r := by
  obtain ⟨⟨n, hn⟩, hfin⟩ := h
  refine ⟨⟨n + 1, ?_⟩, hfin⟩
  rw [run_succ, hs]
  exact hn

/-- Behind a step the ends are those in front of it. -/
theorem Yields.behind_step (h : a.Yields r) (hs : a.step = .ok b) (ha : a.isFinished = false) : b.Yields r := by
  obtain ⟨⟨n, hn⟩, hfin⟩ := h
  cases n with
  | zero =>
    have hend := hfin a hn.symm
    rw [ha] at hend
    cases hend
  | succ n =>
    rw [run_succ, hs] at hn
    exact ⟨⟨n, hn⟩, hfin⟩

theorem yields_of_run {n : Nat} {e : Assembly} (h : a.run n = .ok e) (hfin : e.isFinished) :
    a.Yields (.ok e) :=
  ⟨⟨n, h⟩, fun _ he => Except.ok.inj he ▸ hfin⟩

end Yields

/-- Related assemblies take related steps, but the one on the left may take a step of its own, which lowers
the measure. -/
structure Simulates (R : Assembly → Assembly → Prop) (measure : Assembly → Nat) : Prop where
  finished : ∀ {a b}, R a b → a.isFinished = b.isFinished
  step : ∀ {a b}, R a b → ¬ a.isFinished →
    (∃ a', a.step = .ok a' ∧ R a' b ∧ measure a' < measure a) ∨ SameOutcome R a.step b.step

section Simulation

variable {R : Assembly → Assembly → Prop} {measure : Assembly → Nat} {a b : Assembly}
  {r : Except AssemblyFault Assembly}

/-- Each end of the run on the left is one of the run on the right. -/
theorem Simulates.forward (hsim : Simulates R measure) (h : R a b) (hr : a.Yields r) :
    ∃ r', b.Yields r' ∧ SameOutcome R r r' := by
  obtain ⟨⟨n, hn⟩, hfin⟩ := hr
  induction n generalizing a b with
  | zero =>
    subst hn
    refine ⟨.ok b, yields_of_isFinished ?_, .ok h⟩
    rw [← hsim.finished h]
    exact hfin a rfl
  | succ n ih =>
    by_cases ha : a.isFinished
    · rw [run_of_isFinished ha] at hn
      subst hn
      exact ⟨.ok b, yields_of_isFinished (hsim.finished h ▸ ha), .ok h⟩
    · rw [run_succ] at hn
      rcases hsim.step h ha with ⟨a', hs, h', -⟩ | hs
      · rw [hs] at hn
        exact ih h' hn
      · generalize hx : a.step = x at hs hn
        generalize hy : b.step = y at hs
        cases hs with
        | error e =>
          subst hn
          exact ⟨.error e, yields_of_error hy, .error e⟩
        | ok h' =>
          obtain ⟨r', hr', hrr⟩ := ih h' hn
          exact ⟨r', hr'.of_step hy, hrr⟩

/-- Each end of the run on the right is one of the run on the left. -/
theorem Simulates.backward (hsim : Simulates R measure) (h : R a b) (hr : b.Yields r) :
    ∃ r', a.Yields r' ∧ SameOutcome R r' r := by
  obtain ⟨⟨n, hn⟩, hfin⟩ := hr
  induction n generalizing a b with
  | zero =>
    subst hn
    have hb := hfin b rfl
    exact ⟨.ok a, yields_of_isFinished (hsim.finished h ▸ hb), .ok h⟩
  | succ n ih =>
    -- the steps that the left takes on its own are as many as the measure allows
    induction hm : measure a using Nat.strongRecOn generalizing a with
    | _ m ihm =>
      by_cases ha : a.isFinished
      · have hb : b.isFinished := hsim.finished h ▸ ha
        rw [run_of_isFinished hb] at hn
        subst hn
        exact ⟨.ok a, yields_of_isFinished ha, .ok h⟩
      · rcases hsim.step h ha with ⟨a', hs, h', hlt⟩ | hs
        · obtain ⟨r', hr', hrr⟩ := ihm _ (hm ▸ hlt) h' rfl
          exact ⟨r', hr'.of_step hs, hrr⟩
        · rw [run_succ] at hn
          generalize hx : a.step = x at hs
          generalize hy : b.step = y at hs hn
          cases hs with
          | error e =>
            subst hn
            exact ⟨.error e, yields_of_error hx, .error e⟩
          | ok h' =>
            obtain ⟨r', hr', hrr⟩ := ih h' hn
            exact ⟨r', hr'.of_step hx, hrr⟩

end Simulation

end AssemblerIndex.Assembly
