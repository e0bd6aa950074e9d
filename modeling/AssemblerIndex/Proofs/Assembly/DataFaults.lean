import AssemblerIndex.Proofs.Assembly.SymbolTables
import AssemblerIndex.Proofs.Symbol.UnfinishedOperands

/-!
# Runs that end before their time

An unfinished operand of a `DC` or `DS` does no harm, but for one that is cut off behind the parenthesis that opens its
nominal values: it ends the run.

* `OrdinaryStatement.IsCutOff` — a statement that defines data with such an operand;
* `step_eq_error_iff`, `run_eq_error_iff` — a step faults at such a statement only, and a run at a step that does;
* `unfinished_operands` — **which operands end a run, and what the other ones come to**.
-/

namespace AssemblerIndex

/-- An operand of the statement, which defines data, is cut off. -/
def OrdinaryStatement.IsCutOff (r : OrdinaryStatement) : Prop :=
  (r.opcode = "DC" ∨ r.opcode = "DS") ∧ ∃ o ∈ r.statement.operands, DataOperand.CutOff o.text

namespace Assembly

variable {a : Assembly} {p : Activation} {s : Statement} {file opcode : String} {e : AssemblyFault}

/-! ### Statements -/

/-- Operands fault if one of them is cut off. -/
theorem defineData_eq_error_iff {labelled : Bool} {os : List Field} :
    a.defineData file s labelled os = .error e ↔ ∃ o ∈ os, DataOperand.CutOff o.text := by
  induction os generalizing a labelled with
  | nil => simp [defineData]
  | cons o os ih =>
    rw [defineData, List.exists_mem_cons_iff, ← DataOperand.parse_eq_nothingOpened_iff]
    cases hparse : DataOperand.parse o.text with
    | error f =>
      cases f with
      | untyped => simpa using ih
      | nothingOpened => simp
    | ok d => simpa using ih

theorem ordinary_eq_error_iff : a.ordinary file s opcode = .error e ↔ OrdinaryStatement.IsCutOff ⟨file, s, opcode⟩ := by
  constructor
  · intro h
    unfold ordinary at h
    split at h
    case h_8 => exact ⟨.inl rfl, defineData_eq_error_iff.1 h⟩
    case h_9 => exact ⟨.inr rfl, defineData_eq_error_iff.1 h⟩
    case h_11 => split at h <;> cases h
    all_goals cases h
  · rintro ⟨hopcode, hcut⟩
    dsimp only at hopcode hcut
    rcases hopcode with rfl | rfl
    · exact defineData_eq_error_iff.2 hcut
    · exact defineData_eq_error_iff.2 hcut

/-- A statement without variable symbols faults as the ordinary statement that it is. -/
theorem processSubstituted_eq_error_iff :
    a.processSubstituted p s = .error e ↔
      ∃ r, a.ordinaryOperation? s = some r ∧ r.1.ordinary p.file s r.2 = .error e := by
  unfold processSubstituted ordinaryOperation?
  by_cases hopcode : s.opcode.isEmpty
  · simp [hopcode]
  rw [if_neg hopcode, if_neg hopcode]
  dsimp only
  generalize a.meet [s.opcode] = x
  generalize x.context.operation s.opcode = opcode
  by_cases hempty : opcode.isEmpty
  · simp [hempty]
  by_cases hcopy : opcode = "COPY"
  · simp [hcopy]
  by_cases hend : opcode = "END"
  · simp [hend]
  rw [if_neg hempty, if_neg hcopy, if_neg hend, if_neg (by simp [hempty, hcopy, hend])]
  generalize x.macro? opcode = found
  obtain ⟨y, callee⟩ := found
  cases callee with
  | some d => simp
  | none =>
    dsimp only
    cases hy : y.ordinary p.file s opcode <;> simp [Except.map, hy]

theorem process_eq_error_iff :
    a.process p s = .error e ↔ ∃ r, a.ordinaryBehind? p s = some r ∧ r.IsCutOff := by
  unfold process ordinaryBehind?
  dsimp only
  cases hc : (a.prepare p s).conditional? p s ((a.prepare p s).context.operation s.opcode) with
  | some r => simp
  | none =>
    dsimp only
    rw [processSubstituted_eq_error_iff]
    simp only [ordinary_eq_error_iff]
    cases (a.prepare p s).ordinaryOperation? (s.substituted (a.prepare p s).context) <;> simp

/-! ### Steps and runs -/

/-- **A step faults only at a statement with an operand that is cut off.** -/
theorem step_eq_error_iff : a.step = .error e ↔ ∃ r, a.ordinaryStatement? = some r ∧ r.IsCutOff := by
  unfold step ordinaryStatement?
  cases a.control with
  | nil => simp
  | cons p outer =>
    dsimp only
    cases p.statement? with
    | none => simp
    | some s =>
      dsimp only
      by_cases opens : s.opcode = "MACRO"
      · simp [opens]
      by_cases closes : s.opcode = "MEND" ∧ p.definition?.isSome
      · simp [closes]
      rw [if_neg opens, if_neg closes, if_neg (not_or.2 ⟨opens, closes⟩)]
      rw [← process_eq_error_iff (e := e)]
      cases (a.moveTo p s).process p s <;> simp [Except.map]

/-- A run ends before its time at a step that faults. -/
theorem run_eq_error_iff {n : Nat} :
    a.run n = .error e ↔ ∃ m < n, ∃ b, a.run m = .ok b ∧ b.step = .error e := by
  induction n generalizing a with
  | zero => simp [run]
  | succ n ih =>
    rw [run_succ]
    constructor
    · intro h
      cases hs : a.step with
      | error f =>
        rw [hs] at h
        cases h
        exact ⟨0, Nat.succ_pos n, a, rfl, hs⟩
      | ok x =>
        rw [hs] at h
        obtain ⟨m, hm, b, hb, hfault⟩ := ih.1 h
        refine ⟨m + 1, Nat.succ_lt_succ hm, b, ?_, hfault⟩
        rw [run_succ, hs]
        exact hb
    · rintro ⟨m, hm, b, hb, hfault⟩
      cases m with
      | zero =>
        obtain rfl := Except.ok.inj hb
        rw [hfault]
        rfl
      | succ m =>
        obtain ⟨x, hx, hb⟩ := exists_step_of_run hb
        rw [hx]
        exact ih.2 ⟨m, Nat.lt_of_succ_lt_succ hm, b, hb, hfault⟩

/-! ### Unfinished operands -/

/-- **Which unfinished operands do harm.**  An operand is read, or passed over for want of a type, unless it is cut off
behind the parenthesis that opens its nominal values.  What is read makes sense as far as its numbers fit into words, and
those of texts of less than 2³¹ bytes do.  A run ends before its time exactly at a statement that defines data with an
operand that is cut off. -/
theorem unfinished_operands (t : List Char) (a : Assembly) (n : Nat) :
    (DataOperand.parse t = .error .nothingOpened ↔ DataOperand.CutOff t) ∧
      (DataOperand.parse t = .error .untyped ↔ ∀ c ∈ (t.dropWhile Char.isDigit).head?, c.isAlpha = false) ∧
      (∀ d, DataOperand.parse t = .ok d → d.alignment ∈ [1, 2, 4, 8] ∧ 0 ≤ d.repetitions ∧
        ∃ m, DataOperand.measure? t = some m ∧ d.Holds m ∧ 1 ≤ m.count ∧
          (m.count < 2 ^ 31 → 1 ≤ d.count) ∧ (m.length < 2 ^ 31 → 0 ≤ d.length) ∧
          (DataOperand.byteCount t < 2 ^ 31 → d.Sensible)) ∧
      ∀ e, a.run n = .error e ↔
        ∃ m < n, ∃ b r, a.run m = .ok b ∧ b.ordinaryStatement? = some r ∧ r.IsCutOff := by
  refine ⟨DataOperand.parse_eq_nothingOpened_iff t, DataOperand.parse_eq_untyped_iff t, fun d hd => ?_, fun e => ?_⟩
  · obtain ⟨m, hm, hholds⟩ := DataOperand.measure?_of_parse hd
    obtain ⟨hrepetitions, hpos, hfits⟩ := DataOperand.measure?_bounds hm
    refine ⟨hholds.alignment_mem, hholds.repetitions_nonneg hrepetitions, m, hm, hholds, hpos, ?_, ?_, fun ht => ?_⟩
    · exact fun hcount => hholds.one_le_count hcount hpos
    · exact hholds.length_nonneg
    · obtain ⟨hcount, hlength⟩ := hfits ht
      exact ⟨hholds.repetitions_nonneg hrepetitions, hholds.length_nonneg hlength, hholds.one_le_count hcount hpos,
        hholds.alignment_mem⟩
  · rw [run_eq_error_iff]
    simp only [step_eq_error_iff, exists_and_left]

/-- An operand without the closing parenthesis makes sense; one that ends with the opening parenthesis is cut off. -/
theorem unfinished_operands_of_addresses :
    DataOperand.parse "2AL3(X,Y".toList = .ok ⟨2, 'A', 3, 1, 2⟩ ∧
      DataOperand.Sensible ⟨2, 'A', 3, 1, 2⟩ ∧ DataOperand.CutOff "2AL3(".toList := by
  have hparse : DataOperand.parse "2AL3(X,Y".toList = .ok ⟨2, 'A', 3, 1, 2⟩ := by decide +kernel
  obtain ⟨-, -, hread, -⟩ := unfinished_operands "2AL3(X,Y".toList default 0
  obtain ⟨-, -, m, -, -, -, -, -, hsensible⟩ := hread _ hparse
  obtain ⟨hcut, -⟩ := unfinished_operands "2AL3(".toList default 0
  exact ⟨hparse, hsensible (by decide +kernel), hcut.1 (by decide +kernel)⟩

/-- **An operand that is cut off ends the run**, and the count of values overflows where there are 2³¹ of them. -/
theorem cut_off_operand_ends_run :
    (fresh "S" " DC A(\nY EQU 1\n" (.ofMembers []) {} default).finish = .error .nothingOpened ∧
      ¬∀ t d, DataOperand.parse t = .ok d → 1 ≤ d.count := by
  constructor
  · have hnone : (fresh "S" " DC A(\nY EQU 1\n" (.ofMembers []) {} default).step.toOption.isNone := by decide +kernel
    refine run_eq_error_iff.2 ⟨0, by decide, _, rfl, ?_⟩
    cases hs : (fresh "S" " DC A(\nY EQU 1\n" (.ofMembers []) {} default).step with
    | error e => cases e; rfl
    | ok b => simp [hs, Except.toOption] at hnone
  · intro hall
    obtain ⟨d, hd, hcount⟩ := DataOperand.exists_parse_commas (2 ^ 31 - 2)
    have hpos := hall _ d hd
    rw [hcount] at hpos
    exact absurd hpos (by decide)

end Assembly

end AssemblerIndex
