import AssemblerIndex.Assembly.Step

/-!
# What statements and steps come to

What a statement or a step can do is listed here, with what it depends on, so that a property of all assemblies is shown
for one operation after another.

* `OrdinaryEffect`, `effect_of_ordinary` — what a statement whose operation code is no macro comes to;
* `SubstitutedEffect`, `effect_of_processSubstituted` — what a statement without variable symbols comes to;
* `StepEffect`, `effect_of_step` — what a step comes to.
-/

namespace AssemblerIndex.Assembly

variable {a b : Assembly} {p : Activation} {outer : List Activation} {file : String} {s : Statement} {opcode : String}
  {flow : Flow}

/-! ### Ordinary statements -/

/-- What a statement whose operation code is no macro comes to. -/
inductive OrdinaryEffect (a : Assembly) (file : String) (s : Statement) (opcode : String) : Assembly → Prop
  | startSection (kind : SectionKind) (names : opcode ∈ ["CSECT", "START", "DSECT", "RSECT", "COM"]) :
    OrdinaryEffect a file s opcode (a.startSection file s kind)
  | startCounter (named : opcode = "LOCTR") : OrdinaryEffect a file s opcode (a.startCounter file s)
  | equate (named : opcode = "EQU") : OrdinaryEffect a file s opcode (a.equate file s)
  | defineData {b : Assembly} (names : opcode = "DC" ∨ opcode = "DS")
    (h : a.defineData file s false s.operands = .ok b) : OrdinaryEffect a file s opcode b
  | defineSynonym (named : opcode = "OPSYN") : OrdinaryEffect a file s opcode (a.defineSynonym s)
  | machine (noData : ¬(opcode = "DC" ∨ opcode = "DS"))
    (kind : instructionKind? opcode = some .machine ∨ instructionKind? opcode = some .mnemonic) :
    OrdinaryEffect a file s opcode (a.machine file s opcode)
  | nothing (noData : ¬(opcode = "DC" ∨ opcode = "DS"))
    (kind : ¬(instructionKind? opcode = some .machine ∨ instructionKind? opcode = some .mnemonic)) :
    OrdinaryEffect a file s opcode a

theorem effect_of_ordinary (h : a.ordinary file s opcode = .ok b) : OrdinaryEffect a file s opcode b := by
  unfold ordinary at h
  split at h
  · exact Except.ok.inj h ▸ .startSection _ (by simp)
  · exact Except.ok.inj h ▸ .startSection _ (by simp)
  · exact Except.ok.inj h ▸ .startSection _ (by simp)
  · exact Except.ok.inj h ▸ .startSection _ (by simp)
  · exact Except.ok.inj h ▸ .startSection _ (by simp)
  · exact Except.ok.inj h ▸ .startCounter rfl
  · exact Except.ok.inj h ▸ .equate rfl
  · exact .defineData (.inl rfl) h
  · exact .defineData (.inr rfl) h
  · exact Except.ok.inj h ▸ .defineSynonym rfl
  · rename_i hDC hDS _
    have hdata : ¬(opcode = "DC" ∨ opcode = "DS") := not_or.2 ⟨hDC, hDS⟩
    split at h
    · rename_i hkind
      exact Except.ok.inj h ▸ .machine hdata (.inl hkind)
    · rename_i hkind
      exact Except.ok.inj h ▸ .machine hdata (.inr hkind)
    · rename_i hmachine hmnemonic
      exact Except.ok.inj h ▸ .nothing hdata (not_or.2 ⟨hmachine, hmnemonic⟩)

/-! ### Statements -/

/-- What a statement without variable symbols comes to, under the operation that its operation code stands for. -/
inductive SubstitutedEffect (p : Activation) (s : Statement) (opcode : String) (a : Assembly) : Assembly → Flow → Prop
  | removed (h : opcode.isEmpty) : SubstitutedEffect p s opcode a a .next
  | copyInMacro (named : opcode = "COPY") (inMacro : p.definition?.isSome) : SubstitutedEffect p s opcode a a .next
  | copy (named : opcode = "COPY") (inOpenCode : p.definition? = none) {b : Assembly} {flow : Flow}
    (h : a.copy s = (b, flow)) : SubstitutedEffect p s opcode a b flow
  | finishInMacro (named : opcode = "END") (inMacro : p.definition?.isSome) : SubstitutedEffect p s opcode a a .next
  | finish (named : opcode = "END") (inOpenCode : p.definition? = none) : SubstitutedEffect p s opcode a a .exit
  | callMacro (others : ¬(opcode.isEmpty ∨ opcode = "COPY" ∨ opcode = "END")) {d : MacroDefinition}
    (called : (a.macro? opcode).2 = some d) {b : Assembly} {flow : Flow}
    (h : (a.macro? opcode).1.callMacro d s = (b, flow)) : SubstitutedEffect p s opcode a b flow
  | ordinary (others : ¬(opcode.isEmpty ∨ opcode = "COPY" ∨ opcode = "END")) (noMacro : (a.macro? opcode).2 = none)
    {b : Assembly} (h : (a.macro? opcode).1.ordinary p.file s opcode = .ok b) : SubstitutedEffect p s opcode a b .next

theorem effect_of_processSubstituted (h : a.processSubstituted p s = .ok (b, flow)) :
    (s.opcode.isEmpty ∧ b = a ∧ flow = .next) ∨
      ¬s.opcode.isEmpty ∧
        SubstitutedEffect p s ((a.meet [s.opcode]).context.operation s.opcode) (a.meet [s.opcode]) b flow := by
  unfold processSubstituted at h
  by_cases hopcode : s.opcode.isEmpty
  · rw [if_pos hopcode] at h
    obtain ⟨rfl, rfl⟩ := Prod.mk.inj (Except.ok.inj h)
    exact .inl ⟨hopcode, rfl, rfl⟩
  rw [if_neg hopcode] at h
  refine .inr ⟨hopcode, ?_⟩
  dsimp only at h
  generalize a.meet [s.opcode] = x at h ⊢
  generalize x.context.operation s.opcode = opcode at h ⊢
  split at h
  · rename_i hempty
    obtain ⟨rfl, rfl⟩ := Prod.mk.inj (Except.ok.inj h)
    exact .removed hempty
  split at h
  · rename_i hcopy
    have h := Except.ok.inj h
    split at h
    · rename_i inMacro
      obtain ⟨rfl, rfl⟩ := Prod.mk.inj h
      exact .copyInMacro hcopy inMacro
    · rename_i inOpenCode
      exact .copy hcopy (by simpa using inOpenCode) h
  split at h
  · rename_i hend
    obtain ⟨rfl, rfl⟩ := Prod.mk.inj (Except.ok.inj h)
    split
    · exact .finishInMacro hend ‹_›
    · rename_i inOpenCode
      exact .finish hend (by simpa using inOpenCode)
  rename_i hempty hcopy hend
  have others : ¬(opcode.isEmpty ∨ opcode = "COPY" ∨ opcode = "END") := by simp [hempty, hcopy, hend]
  split at h
  · rename_i y d hfound
    exact .callMacro others (by rw [hfound]) (by rw [hfound, Except.ok.inj h])
  · rename_i y hfound
    cases ho : y.ordinary p.file s opcode with
    | error e => simp [ho, Except.map] at h
    | ok z =>
      rw [ho] at h
      obtain ⟨rfl, rfl⟩ := Prod.mk.inj (Except.ok.inj h)
      exact .ordinary others (by rw [hfound]) (by rw [hfound, ho])

/-- A statement is one of conditional assembly, or it is processed without variable symbols. -/
theorem process_cases (h : a.process p s = .ok (b, flow)) :
    (a.prepare p s).conditional? p s ((a.prepare p s).context.operation s.opcode) = some (b, flow) ∨
      (a.prepare p s).conditional? p s ((a.prepare p s).context.operation s.opcode) = none ∧
        (a.prepare p s).processSubstituted p (s.substituted (a.prepare p s).context) = .ok (b, flow) := by
  unfold process at h
  dsimp only at h
  split at h
  · rename_i r hr
    obtain rfl := Except.ok.inj h
    exact .inl hr
  · rename_i hr
    exact .inr ⟨hr, h⟩

/-! ### Steps -/

/-- What a step comes to. -/
inductive StepEffect (a : Assembly) : Assembly → Prop
  | finished (control : a.control = []) : StepEffect a a
  | behind {p : Activation} {outer : List Activation} (control : a.control = p :: outer)
    (statement : p.statement? = none) : StepEffect a a.leave
  | definition {p : Activation} {outer : List Activation} {s : Statement} (control : a.control = p :: outer)
    (statement : p.statement? = some s) (opens : s.opcode = "MACRO") :
    StepEffect a ((a.moveTo p s).readDefinition p outer)
  | mend {p : Activation} {outer : List Activation} {s : Statement} (control : a.control = p :: outer)
    (statement : p.statement? = some s) (opensNone : s.opcode ≠ "MACRO")
    (closes : s.opcode = "MEND" ∧ p.definition?.isSome) : StepEffect a (a.moveTo p s).leave
  | executed {p : Activation} {outer : List Activation} {s : Statement} (control : a.control = p :: outer)
    (statement : p.statement? = some s) (opensNone : s.opcode ≠ "MACRO")
    (closesNone : ¬(s.opcode = "MEND" ∧ p.definition?.isSome)) {b : Assembly} {flow : Flow}
    (run : (a.moveTo p s).process p s = .ok (b, flow)) : StepEffect a (b.proceed p outer flow)

theorem effect_of_step (h : a.step = .ok b) : StepEffect a b := by
  unfold step at h
  cases control : a.control with
  | nil =>
    rw [control] at h
    exact Except.ok.inj h ▸ .finished control
  | cons p outer =>
    cases statement : p.statement? with
    | none =>
      simp only [control, statement] at h
      exact Except.ok.inj h ▸ .behind control statement
    | some s =>
      simp only [control, statement] at h
      by_cases opens : s.opcode = "MACRO"
      · rw [if_pos opens] at h
        exact Except.ok.inj h ▸ .definition control statement opens
      rw [if_neg opens] at h
      by_cases closes : s.opcode = "MEND" ∧ p.definition?.isSome
      · rw [if_pos closes] at h
        exact Except.ok.inj h ▸ .mend control statement opens closes
      rw [if_neg closes] at h
      cases run : (a.moveTo p s).process p s with
      | error e => simp [run, Except.map] at h
      | ok r =>
        rw [run] at h
        exact Except.ok.inj h ▸ .executed control statement opens closes run

end AssemblerIndex.Assembly
