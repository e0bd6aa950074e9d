import Mathlib.Data.List.Basic
import AssemblerIndex.Statement.Layout

/-!
# The lines of the statements

Which lines of a source make up which statement, said without the lines that `statementLines` keeps open.

* `numbered` — lines with their numbers;
* `Laid row lines groups` — the lines from `row` on are comments, blank lines, and pieces that belong together;
* `laid_statementLines` — **`statementLines` lays out the lines of a source so**; the lines of a statement follow one
  another, each but the last is continued, and no line is left out but comments and blank lines.
-/

namespace AssemblerIndex

/-- The lines with their numbers, from `row` on. -/
def numbered (row : Nat) : List (List Char) → List NumberedLine
  | [] => []
  | line :: rest => ⟨row, line⟩ :: numbered (row + 1) rest

@[simp] theorem length_numbered (row : Nat) (lines : List (List Char)) :
    (numbered row lines).length = lines.length := by
  induction lines generalizing row with
  | nil => rfl
  | cons line rest ih => simp [numbered, ih]

theorem getElem?_numbered (row i : Nat) (lines : List (List Char)) :
    (numbered row lines)[i]? = lines[i]?.map fun line => ⟨row + i, line⟩ := by
  induction lines generalizing row i with
  | nil => rfl
  | cons line rest ih =>
    cases i with
    | zero => rfl
    | succ i => simp [numbered, ih, Nat.add_assoc, Nat.add_comm 1]

theorem mem_numbered {row : Nat} {lines : List (List Char)} {m : NumberedLine} (h : m ∈ numbered row lines) :
    row ≤ m.row ∧ m.row < row + lines.length := by
  obtain ⟨i, hi⟩ := List.mem_iff_getElem?.1 h
  rw [getElem?_numbered, Option.map_eq_some_iff] at hi
  obtain ⟨line, hline, rfl⟩ := hi
  have := (List.getElem?_eq_some_iff.1 hline).1
  exact ⟨Nat.le_add_right _ _, Nat.add_lt_add_left this _⟩

theorem row_numbered (row : Nat) {i : Nat} {lines : List (List Char)} (h : i < lines.length) :
    ∃ m ∈ numbered row lines, m.row = row + i := by
  refine ⟨⟨row + i, lines[i]⟩, List.mem_iff_getElem?.2 ⟨i, ?_⟩, rfl⟩
  rw [getElem?_numbered, List.getElem?_eq_getElem h, Option.map_some]

/-- The lines of each statement among `lines`, the first of which has the number `row`. -/
inductive Laid : Nat → List (List Char) → List (List NumberedLine) → Prop
  | nil (row : Nat) : Laid row [] []
  | skip {row : Nat} {line : List Char} {rest : List (List Char)} {groups : List (List NumberedLine)}
      (hline : isComment line ∨ Text.isBlankLine line) (hrest : Laid (row + 1) rest groups) :
      Laid row (line :: rest) groups
  | statement {row : Nat} {piece rest : List (List Char)} {groups : List (List NumberedLine)}
      (hpiece : piece ≠ []) (hcontinued : ∀ line ∈ piece.dropLast, isContinued line)
      (hrest : Laid (row + piece.length) rest groups) :
      Laid row (piece ++ rest) (numbered row piece :: groups)

/-- A continued statement takes up the lines through the first that is not continued. -/
theorem statementLines_open (row : Nat) (earlier : List NumberedLine) {lines : List (List Char)} (h : lines ≠ []) :
    ∃ piece rest, lines = piece ++ rest ∧ piece ≠ [] ∧ (∀ line ∈ piece.dropLast, isContinued line) ∧
      statementLines row (some earlier) lines =
        (earlier.reverse ++ numbered row piece) :: statementLines (row + piece.length) none rest := by
  induction lines generalizing row earlier with
  | nil => exact absurd rfl h
  | cons line rest ih =>
    by_cases hon : (isContinued line && !rest.isEmpty) = true
    · obtain ⟨hcontinued, hrest⟩ : isContinued line = true ∧ rest ≠ [] := by simpa using hon
      obtain ⟨piece, after, rfl, hpiece, hpieces, heq⟩ := ih (row + 1) (⟨row, line⟩ :: earlier) hrest
      refine ⟨line :: piece, after, rfl, by simp, ?_, ?_⟩
      · rw [List.dropLast_cons_of_ne_nil hpiece]
        exact List.forall_mem_cons.2 ⟨hcontinued, hpieces⟩
      · rw [statementLines, if_pos hon, heq]
        simp [numbered, Nat.add_assoc, Nat.add_comm 1]
    · exact ⟨[line], rest, rfl, by simp, by simp, by rw [statementLines, if_neg hon]; simp [numbered]⟩

/-- **The lines of a source are laid out in statements**, comments and blank lines. -/
theorem laid_statementLines (row : Nat) (lines : List (List Char)) :
    Laid row lines (statementLines row none lines) := by
  induction hn : lines.length using Nat.strongRecOn generalizing row lines with
  | ind n ih =>
    subst hn
    cases lines with
    | nil => exact .nil row
    | cons line rest =>
      rw [statementLines]
      by_cases hskip : (isComment line || Text.isBlankLine line) = true
      · rw [if_pos hskip]
        exact .skip (by simpa using hskip) (ih rest.length (by simp) _ _ rfl)
      · rw [if_neg hskip]
        by_cases hon : (isContinued line && !rest.isEmpty) = true
        · obtain ⟨hcontinued, hrest⟩ : isContinued line = true ∧ rest ≠ [] := by simpa using hon
          obtain ⟨piece, after, rfl, hpiece, hpieces, heq⟩ := statementLines_open (row + 1) [⟨row, line⟩] hrest
          have hlaid := ih after.length (by rw [List.length_cons, List.length_append]; omega) (row + 1 + piece.length) after rfl
          rw [if_pos hon, heq]
          refine Laid.statement (List.cons_ne_nil line piece) ?_ ?_
          · rw [List.dropLast_cons_of_ne_nil hpiece]
            exact List.forall_mem_cons.2 ⟨hcontinued, hpieces⟩
          · simpa [Nat.add_assoc, Nat.add_comm 1] using hlaid
        · rw [if_neg hon]
          exact Laid.statement (List.cons_ne_nil line []) (by simp) (ih rest.length (by simp) _ _ rfl)

namespace Laid

variable {row : Nat} {lines : List (List Char)} {groups : List (List NumberedLine)}

/-- The lines of a statement are a piece of the source, each but the last continued. -/
theorem piece_of_mem (h : Laid row lines groups) {group : List NumberedLine} (hgroup : group ∈ groups) :
    ∃ i piece, group = numbered (row + i) piece ∧ piece <+: lines.drop i ∧ piece ≠ [] ∧
      ∀ line ∈ piece.dropLast, isContinued line := by
  induction h with
  | nil => cases hgroup
  | skip _ _ ih =>
    obtain ⟨i, piece, rfl, hbegins, hpiece⟩ := ih hgroup
    exact ⟨i + 1, piece, by rw [Nat.add_assoc, Nat.add_comm 1], by simpa using hbegins, hpiece⟩
  | @statement row piece rest groups hne hcontinued _ ih =>
    rcases List.mem_cons.1 hgroup with rfl | hgroup
    · exact ⟨0, piece, rfl, List.prefix_append _ _, hne, hcontinued⟩
    · obtain ⟨i, piece', rfl, hbegins, hpiece⟩ := ih hgroup
      refine ⟨piece.length + i, piece', by rw [Nat.add_assoc], ?_, hpiece⟩
      rwa [← List.drop_drop, List.drop_left]

theorem row_le (h : Laid row lines groups) {group : List NumberedLine} (hgroup : group ∈ groups) {m : NumberedLine}
    (hm : m ∈ group) : row ≤ m.row := by
  obtain ⟨i, piece, rfl, -⟩ := h.piece_of_mem hgroup
  exact Nat.le_trans (Nat.le_add_right _ _) (mem_numbered hm).1

/-- The lines of a statement stand in front of those of the next. -/
theorem pairwise_row_lt (h : Laid row lines groups) :
    groups.Pairwise fun group group' => ∀ m ∈ group, ∀ m' ∈ group', m.row < m'.row := by
  induction h with
  | nil => exact .nil
  | skip _ _ ih => exact ih
  | statement _ _ hrest ih =>
    refine List.pairwise_cons.2 ⟨fun group' hgroup' m hm m' hm' => ?_, ih⟩
    exact Nat.lt_of_lt_of_le (mem_numbered hm).2 (hrest.row_le hgroup' hm')

/-- A line that belongs to no statement is a comment or blank. -/
theorem comment_or_blank (h : Laid row lines groups) {i : Nat} (hi : i < lines.length)
    (hnone : ∀ group ∈ groups, ∀ m ∈ group, m.row ≠ row + i) : isComment lines[i] ∨ Text.isBlankLine lines[i] := by
  induction h generalizing i with
  | nil => cases hi
  | skip hline _ ih =>
    cases i with
    | zero => exact hline
    | succ i =>
      refine ih (Nat.lt_of_succ_lt_succ hi) fun group hgroup m hm => ?_
      rw [Nat.add_assoc, Nat.add_comm 1]
      exact hnone group hgroup m hm
  | @statement row piece rest groups _ _ _ ih =>
    by_cases hin : i < piece.length
    · obtain ⟨m, hm, hrow⟩ := row_numbered row hin
      exact absurd hrow (hnone _ List.mem_cons_self m hm)
    · obtain ⟨j, rfl⟩ := Nat.exists_eq_add_of_le (Nat.le_of_not_lt hin)
      have hj : j < rest.length := by simpa using hi
      have := ih hj fun group hgroup m hm => by
        rw [Nat.add_assoc]
        exact hnone group (List.mem_cons_of_mem _ hgroup) m hm
      simpa using this

end Laid

/-! ### The stretch of the lines -/

theorem linesSpan_numbered (row : Nat) {piece : List (List Char)} (h : piece ≠ []) :
    linesSpan (numbered row piece) = ⟨⟨row, 0⟩, row + (piece.length - 1), (piece.getLast h).length⟩ := by
  obtain ⟨line, rest, rfl⟩ := List.exists_cons_of_ne_nil h
  have hlast : (numbered row (line :: rest)).getLast? =
      some ⟨row + rest.length, (line :: rest).getLast h⟩ := by
    rw [List.getLast?_eq_getElem?, getElem?_numbered, length_numbered, ← List.getLast?_eq_getElem?,
      List.getLast?_eq_some_getLast h]
    rfl
  unfold linesSpan
  rw [hlast]
  rfl

end AssemblerIndex
