import AssemblerIndex.Index.Completion

/-!
# Where instructions are completed

Instructions are completed where the front of a line looks as if its operation is being written.  What stands in a line
are the runs of characters between its blanks: an operation code is the first of them, or the second if the line begins
with a label.

* `runs` — the runs of a line; `runs_append_gap` counts them piece by piece;
* `OperationOnly`, `BehindLabel` — the two forms of such a front, `endsInInstruction_iff`;
* `HasEarlyRun` — a run other than the last one begins in the second or third column, so that it is passed as a part of
  the label;
* `instructions_completed_in_operation` — **where instructions are completed, no operands have begun**, unless there is
  an early run.
-/

namespace AssemblerIndex

open Text (isBlank)

/-! ### Runs -/

/-- The maximal runs of characters that are not blank. -/
def runs (s : List Char) : List (List Char) := (s.splitOnP isBlank).filter (· ≠ [])

/-- A text of blank characters, at least one. -/
structure IsGap (s : List Char) : Prop where
  ne_nil : s ≠ []
  blank : ∀ c ∈ s, isBlank c = true

section

variable {s t gap : List Char} {c : Char}

@[simp] theorem runs_nil : runs [] = [] := by simp [runs]

/-- A blank character ends a run. -/
theorem runs_append_blank (hc : isBlank c = true) (s t : List Char) : runs (s ++ c :: t) = runs s ++ runs t := by
  rw [runs, List.splitOnP_append_cons s t hc, List.filter_append]
  rfl

theorem runs_blank (hc : isBlank c = true) (s : List Char) : runs (c :: s) = runs s := by
  simpa using runs_append_blank hc [] s

/-- So does a gap. -/
theorem runs_append_gap (hgap : IsGap gap) (s t : List Char) : runs (s ++ gap ++ t) = runs s ++ runs t := by
  obtain ⟨hne, hblank⟩ := hgap
  induction gap generalizing s with
  | nil => exact absurd rfl hne
  | cons c gap ih =>
    obtain ⟨hc, hblank⟩ := List.forall_mem_cons.1 hblank
    rw [List.append_assoc, List.cons_append, runs_append_blank hc]
    by_cases hgap : gap = []
    · rw [hgap, List.nil_append]
    · have hrest := ih [] hgap hblank
      rw [List.nil_append] at hrest
      rw [hrest, runs_nil, List.nil_append]

/-- Characters that are not blank are a single run. -/
theorem runs_solid (hs : ∀ c ∈ s, isBlank c = false) (hne : s ≠ []) : runs s = [s] := by
  rw [runs, List.splitOnP_eq_singleton hs]
  simp [hne]

theorem runs_solid_le (hs : ∀ c ∈ s, isBlank c = false) : (runs s).length ≤ 1 := by
  by_cases hne : s = []
  · simp [hne]
  · simp [runs_solid hs hne]

end

/-! ### Fronts of lines -/

/-- The front of a line on which an operation is written without a label. -/
def OperationOnly (line : List Char) : Prop :=
  ∃ gap operation, IsGap gap ∧ (∀ c ∈ operation, isBlank c = false) ∧ line = gap ++ operation

/-- The front of a line on which an operation is written behind something else; the first two characters are not
looked at, except that they must be no asterisks. -/
def BehindLabel (line : List Char) : Prop :=
  ∃ a b rest gap operation, a ≠ '*' ∧ b ≠ '*' ∧ (∀ c ∈ rest, isBlank c = false) ∧ IsGap gap ∧
    operation ≠ [] ∧ (∀ c ∈ operation, isBlank c = false) ∧ line = a :: b :: rest ++ gap ++ operation

section

variable {line s gap operation : List Char}

theorem isGap_takeWhile (h : line.head?.any isBlank = true) : IsGap (line.takeWhile isBlank) := by
  refine ⟨?_, List.all_eq_true.1 List.all_takeWhile⟩
  cases line with
  | nil => cases h
  | cons c line => simp [show isBlank c = true from h]

/-- Removing the blanks at the front of a gap with a solid text behind it leaves that text. -/
theorem trimStart_gap_append (hgap : ∀ c ∈ gap, isBlank c = true) (hs : ∀ c ∈ s, isBlank c = false) :
    Text.trimStart (gap ++ s) = s := by
  rw [Text.trimStart, List.dropWhile_append_of_pos hgap]
  cases s with
  | nil => rfl
  | cons c s => simp [hs c List.mem_cons_self]

theorem startsWithBlanks_iff : startsWithBlanks line = true ↔ OperationOnly line := by
  constructor
  · intro h
    obtain ⟨hhead, hsolid⟩ := Bool.and_eq_true_iff.1 h
    exact ⟨line.takeWhile isBlank, Text.trimStart line, isGap_takeWhile hhead, by simpa using hsolid,
      List.takeWhile_append_dropWhile.symm⟩
  · rintro ⟨gap, operation, ⟨hne, hblank⟩, hsolid, rfl⟩
    obtain ⟨c, gap, rfl⟩ := List.exists_cons_of_ne_nil hne
    have hc := hblank c List.mem_cons_self
    rw [startsWithBlanks, trimStart_gap_append hblank hsolid]
    simpa [hc] using hsolid

theorem followsLabel_iff : followsLabel line = true ↔ BehindLabel line := by
  constructor
  · intro h
    match line, h with
    | a :: b :: s, h =>
      simp only [followsLabel, Bool.and_eq_true, bne_iff_ne, Bool.not_eq_true', List.isEmpty_eq_false_iff,
        List.all_eq_true] at h
      obtain ⟨⟨⟨ha, hb⟩, hne⟩, hsolid⟩ := h
      have hrest : ∀ c ∈ s.takeWhile (!isBlank ·), isBlank c = false := by
        simpa using List.all_eq_true.1 (List.all_takeWhile (p := (!isBlank ·)) (l := s))
      have hhead : (s.dropWhile (!isBlank ·)).head?.any isBlank = true := by
        have := List.head?_dropWhile_not (!isBlank ·) s
        cases hd : s.dropWhile (!isBlank ·) with
        | nil => simp [hd, Text.trimStart] at hne
        | cons c t => simpa [hd] using this
      refine ⟨a, b, s.takeWhile (!isBlank ·), (s.dropWhile (!isBlank ·)).takeWhile isBlank, _, ha, hb, hrest,
        isGap_takeWhile hhead, hne, hsolid, ?_⟩
      rw [List.append_assoc, Text.trimStart, List.takeWhile_append_dropWhile, List.cons_append, List.cons_append,
        List.takeWhile_append_dropWhile]
  · rintro ⟨a, b, rest, gap, operation, ha, hb, hrest, ⟨hne, hblank⟩, hoperation, hsolid, rfl⟩
    have hbehind : (rest ++ (gap ++ operation)).dropWhile (!isBlank ·) = gap ++ operation := by
      rw [List.dropWhile_append_of_pos (by simpa using hrest)]
      obtain ⟨c, gap, rfl⟩ := List.exists_cons_of_ne_nil hne
      simp [hblank c List.mem_cons_self]
    rw [List.append_assoc, List.cons_append, List.cons_append, followsLabel, hbehind, trimStart_gap_append hblank hsolid]
    simpa [ha, hb, hoperation] using hsolid

/-- An operation is being written in the two forms. -/
theorem endsInInstruction_iff : endsInInstruction line = true ↔ OperationOnly line ∨ BehindLabel line := by
  rw [endsInInstruction, Bool.or_eq_true, followsLabel_iff, startsWithBlanks_iff, or_comm]

end

/-! ### Fields -/

/-- How many runs stand in a line up to its operation, at most: there is no label behind a blank. -/
def runsToOperation (line : List Char) : Nat := if line.head?.any isBlank then 1 else 2

/-- A run begins at an index, behind a blank. -/
def BeginsRun (s : List Char) (i : Nat) : Prop := s[i - 1]?.any isBlank = true ∧ s[i]?.any (!isBlank ·) = true

instance (s : List Char) (i : Nat) : Decidable (BeginsRun s i) := inferInstanceAs (Decidable (_ ∧ _))

/-- A run that is not the last one begins in the second or third column. -/
def HasEarlyRun (line : List Char) : Prop := ∃ i ∈ [1, 2], BeginsRun line i ∧ 1 < (runs (line.drop i)).length

instance (line : List Char) : Decidable (HasEarlyRun line) := inferInstanceAs (Decidable (∃ i ∈ [1, 2], _))

section

variable {line s : List Char}

/-- Dropping characters at the front makes no new runs. -/
theorem length_runs_drop_le (s : List Char) (i : Nat) : (runs (s.drop i)).length ≤ (runs s).length := by
  induction s generalizing i with
  | nil => simp
  | cons c s ih =>
    cases i with
    | zero => exact Nat.le_refl _
    | succ i =>
      refine Nat.le_trans (ih i) ?_
      by_cases hc : isBlank c = true
      · exact Nat.le_of_eq (congrArg List.length (runs_blank hc s).symm)
      · obtain ⟨x, xs, hsplit⟩ := List.exists_cons_of_ne_nil (List.splitOnP_ne_nil isBlank s)
        rw [runs, runs, List.splitOnP_cons_eq_if_modifyHead, if_neg hc, hsplit]
        by_cases hx : x = [] <;> simp [hx]

theorem length_runs_of_operationOnly (h : OperationOnly line) : (runs line).length ≤ 1 := by
  obtain ⟨gap, operation, hgap, hsolid, rfl⟩ := h
  have hruns := runs_append_gap hgap [] operation
  rw [List.nil_append, runs_nil, List.nil_append] at hruns
  rw [hruns]
  exact runs_solid_le hsolid

theorem head?_of_operationOnly (h : OperationOnly line) : line.head?.any isBlank = true := by
  obtain ⟨gap, operation, ⟨hne, hblank⟩, -, rfl⟩ := h
  obtain ⟨c, gap, rfl⟩ := List.exists_cons_of_ne_nil hne
  exact hblank c List.mem_cons_self

/-- Behind something else an early run is one that a blank among the first two characters stands in front of. -/
theorem hasEarlyRun_iff {a b : Char} {rest gap operation : List Char} (hrest : ∀ c ∈ rest, isBlank c = false)
    (hgap : IsGap gap) (hne : operation ≠ []) (hsolid : ∀ c ∈ operation, isBlank c = false) :
    HasEarlyRun (a :: b :: rest ++ gap ++ operation) ↔
      (isBlank a = true ∧ isBlank b = false) ∨ (isBlank b = true ∧ rest ≠ []) := by
  have hruns (s : List Char) : (runs (s ++ gap ++ operation)).length = (runs s).length + 1 := by
    rw [runs_append_gap hgap, runs_solid hsolid hne, List.length_append, List.length_singleton]
  have hsecond : isBlank b = false → 0 < (runs (b :: rest)).length := fun hb => by
    rw [runs_solid (List.forall_mem_cons.2 ⟨hb, hrest⟩) nofun]
    exact Nat.one_pos
  have hthird : (rest ++ gap ++ operation)[0]?.any (!isBlank ·) = true ↔ rest ≠ [] := by
    cases rest with
    | nil =>
      obtain ⟨c, gap, rfl⟩ := List.exists_cons_of_ne_nil hgap.ne_nil
      simp [hgap.blank c List.mem_cons_self]
    | cons c rest => simp [hrest c List.mem_cons_self]
  have hlast : rest ≠ [] → 0 < (runs rest).length := fun hne => by
    rw [runs_solid hrest hne]
    exact Nat.one_pos
  constructor
  · rintro ⟨i, hi, ⟨hblank, hrun⟩, -⟩
    simp only [List.mem_cons, List.not_mem_nil, or_false] at hi
    rcases hi with rfl | rfl
    · exact .inl ⟨hblank, by simpa using hrun⟩
    · exact .inr ⟨hblank, hthird.1 hrun⟩
  · rintro (⟨ha, hb⟩ | ⟨hb, hne⟩)
    · refine ⟨1, by decide, ⟨ha, by simpa using hb⟩, ?_⟩
      have hone := hruns (b :: rest)
      rw [show (a :: b :: rest ++ gap ++ operation).drop 1 = b :: rest ++ gap ++ operation from rfl, hone]
      exact Nat.succ_lt_succ (hsecond hb)
    · refine ⟨2, by decide, ⟨hb, hthird.2 hne⟩, ?_⟩
      have htwo := hruns rest
      rw [show (a :: b :: rest ++ gap ++ operation).drop 2 = rest ++ gap ++ operation from rfl, htwo]
      exact Nat.succ_lt_succ (hlast hne)

/-- An operation that is written behind something else is the first or the second run, as it should be, unless there is
an early run. -/
theorem length_runs_of_behindLabel (h : BehindLabel line) :
    (runs line).length ≤ runsToOperation line ↔ ¬HasEarlyRun line := by
  obtain ⟨a, b, rest, gap, operation, -, -, hrest, hgap, hne, hsolid, rfl⟩ := h
  have hbound : runsToOperation (a :: b :: rest ++ gap ++ operation) = if isBlank a then 1 else 2 := rfl
  have hcount : (runs rest).length = if rest = [] then 0 else 1 := by
    split
    · simp [*]
    · simp [runs_solid hrest ‹_›]
  rw [hasEarlyRun_iff hrest hgap hne hsolid, runs_append_gap hgap, runs_solid hsolid hne, List.length_append,
    List.length_singleton, hbound]
  cases hb : isBlank b with
  | false =>
    cases ha : isBlank a with
    | false =>
      have hlabel : runs (a :: b :: rest) = [a :: b :: rest] :=
        runs_solid (List.forall_mem_cons.2 ⟨ha, List.forall_mem_cons.2 ⟨hb, hrest⟩⟩) nofun
      simp [hlabel]
    | true =>
      have hfirst : runs (a :: b :: rest) = [b :: rest] := by
        rw [runs_blank ha, runs_solid (List.forall_mem_cons.2 ⟨hb, hrest⟩) nofun]
      simp [hfirst]
  | true =>
    cases ha : isBlank a with
    | false =>
      have hlabel : runs (a :: b :: rest) = [a] :: runs rest := by
        have hruns := runs_append_blank hb [a] rest
        rwa [runs_solid (List.forall_mem_singleton.2 ha) (List.cons_ne_nil a [])] at hruns
      rw [hlabel, List.length_cons, hcount]
      split <;> simp [*]
    | true =>
      have hfirst : runs (a :: b :: rest) = runs rest := by rw [runs_blank ha, runs_blank hb]
      rw [hfirst, hcount]
      split <;> simp [*]

/-- Where an operation is being written, the runs through it are as few as there should be unless one of them is
early. -/
theorem length_runs_le_iff (h : OperationOnly line ∨ BehindLabel line) :
    (runs line).length ≤ runsToOperation line ↔ ¬HasEarlyRun line := by
  rcases h with honly | hbehind
  · have hle := length_runs_of_operationOnly honly
    have hnone : ¬HasEarlyRun line := by
      rintro ⟨i, -, -, hlt⟩
      have := length_runs_drop_le line i
      omega
    rw [runsToOperation, if_pos (head?_of_operationOnly honly)]
    exact iff_of_true hle hnone
  · exact length_runs_of_behindLabel hbehind

end

/-! ### Completion -/

/-- **Instructions are completed where no operands have begun**: in a line that continues no other one, if its front has
one of the two forms.  There the runs through the operation are one without a label and two with one, at most, exactly
if none of them is early. -/
theorem instructions_completed_in_operation (t : SourceText) (p : Position) :
    (t.isInInstruction p = true ↔ (0 < p.line → isContinued (t.line (p.line - 1)) = false) ∧
      (OperationOnly (t.lineBefore p) ∨ BehindLabel (t.lineBefore p))) ∧
    (t.isInInstruction p = true →
      ((runs (t.lineBefore p)).length ≤ runsToOperation (t.lineBefore p) ↔ ¬HasEarlyRun (t.lineBefore p))) := by
  have hform : t.isInInstruction p = true ↔ (0 < p.line → isContinued (t.line (p.line - 1)) = false) ∧
      (OperationOnly (t.lineBefore p) ∨ BehindLabel (t.lineBefore p)) := by
    rw [← endsInInstruction_iff, Nat.pos_iff_ne_zero, ← Decidable.or_iff_not_imp_left]
    simp [SourceText.isInInstruction]
  exact ⟨hform, fun h => length_runs_le_iff (hform.1 h).2⟩

/-- A label, and an operation that has begun. -/
theorem instructions_completed_behind_label :
    let t := SourceText.ofString "* note\nLABEL    AL\n"
    let p : Position := ⟨1, 10⟩
    t.isInInstruction p = true ∧ ¬HasEarlyRun (t.lineBefore p) ∧ runs (t.lineBefore p) = ["LABEL".toList, ['A']] ∧
      (runs (t.lineBefore p)).length ≤ runsToOperation (t.lineBefore p) := by
  intro t p
  have hin : t.isInInstruction p = true := by decide +kernel
  have hearly : ¬HasEarlyRun (t.lineBefore p) := by decide +kernel
  have hruns : runs (t.lineBefore p) = ["LABEL".toList, ['A']] := by decide +kernel
  exact ⟨hin, hearly, hruns, ((instructions_completed_in_operation t p).2 hin).2 hearly⟩

/-- **Instructions are completed among the operands, too**, where an operation behind a single blank, or behind a label
of one character, is taken for a part of the label. -/
theorem instructions_completed_among_operands :
    ¬ ∀ (t : SourceText) (p : Position), t.isInInstruction p = true →
      (0 < p.line → isContinued (t.line (p.line - 1)) = false) ∧
        (runs (t.lineBefore p)).length ≤ runsToOperation (t.lineBefore p) := by
  intro hall
  have hin : (SourceText.ofString " LA 1").isInInstruction ⟨0, 5⟩ = true := by decide +kernel
  have hruns : ¬(runs ((SourceText.ofString " LA 1").lineBefore ⟨0, 5⟩)).length ≤
      runsToOperation ((SourceText.ofString " LA 1").lineBefore ⟨0, 5⟩) := by decide +kernel
  exact hruns (hall _ _ hin).2

end AssemblerIndex
