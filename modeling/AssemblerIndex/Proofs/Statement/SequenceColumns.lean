import Mathlib.Data.List.Forall2
import AssemblerIndex.Proofs.Statement.Lines

/-!
# The columns behind the continuation column

Cards carry sequence numbers behind the columns that hold a statement.  Two sources that differ only there are read
side by side.

* `SameColumns l l'` — the lines are the same up to and including the continuation column;
* `Statement.SameFields s t` — the statements have the same fields in the same places;
* `blankAlike` — of two corresponding lines where a statement can begin, both are blank or none is;
* `statements_eq_iff_blankAlike` — **sequence numbers make no difference to the statements exactly if they stand on no
  line that is blank without them**.  `sequence_number_makes_statement` shows one that does.
-/

namespace AssemblerIndex

/-! ### Lines up to the continuation column -/

/-- The lines are equal, or both go beyond the continuation column and are equal up to it. -/
def SameColumns (l l' : List Char) : Prop :=
  l = l' ∨ continuationColumn < l.length ∧ continuationColumn < l'.length ∧
    l.take (continuationColumn + 1) = l'.take (continuationColumn + 1)

instance (l l' : List Char) : Decidable (SameColumns l l') := inferInstanceAs (Decidable (_ ∨ _))

/-- Two characters tell a comment. -/
theorem isComment_take (line : List Char) (n : Nat) : isComment (line.take (n + 2)) = isComment line := by
  rcases line with _ | ⟨a, _ | ⟨b, rest⟩⟩
  · rfl
  · rfl
  · rw [List.take_succ_cons, List.take_succ_cons]
    unfold isComment
    grind

namespace SameColumns

variable {l l' : List Char}

theorem take_eq (h : SameColumns l l') : l.take (continuationColumn + 1) = l'.take (continuationColumn + 1) := by
  rcases h with rfl | ⟨-, -, h⟩
  · rfl
  · exact h

theorem isContinued_eq (h : SameColumns l l') : isContinued l = isContinued l' := by
  have hcolumn : l[continuationColumn]? = l'[continuationColumn]? := by
    have := congrArg (·[continuationColumn]?) h.take_eq
    simpa using this
  rw [isContinued, isContinued, hcolumn]

theorem isComment_eq (h : SameColumns l l') : isComment l = isComment l' := by
  have hcolumns : ∀ line : List Char, isComment (line.take (continuationColumn + 1)) = isComment line :=
    fun line => isComment_take line 70
  rw [← hcolumns l, ← hcolumns l', h.take_eq]

theorem field_columns_eq (h : SameColumns l l') : l.take continuationColumn = l'.take continuationColumn := by
  have := congrArg (List.take continuationColumn) h.take_eq
  simpa [List.take_take] using this

end SameColumns

/-! ### Statements -/

theorem map_eq_of_forall₂ {α β γ : Type} {R : α → β → Prop} {f : α → γ} {g : β → γ} {as : List α} {bs : List β}
    (h : List.Forall₂ R as bs) (hR : ∀ a b, R a b → f a = g b) : as.map f = bs.map g := by
  induction h with
  | nil => rfl
  | cons hab _ ih => rw [List.map_cons, List.map_cons, hR _ _ hab, ih]

/-- The statements have the same fields in the same places and the same lines.  How long their last lines are does not
matter. -/
structure Statement.SameFields (s t : Statement) : Prop where
  label : s.label = t.label
  instruction : s.instruction = t.instruction
  operandField : s.operandField = t.operandField
  operands : s.operands = t.operands
  remarks : s.remarks = t.remarks
  start : s.span.start = t.span.start
  stop : s.span.stop.line = t.span.stop.line

/-- The same line of two sources. -/
structure NumberedLine.Same (m m' : NumberedLine) : Prop where
  row : m.row = m'.row
  text : SameColumns m.text m'.text

theorem statementCells_congr {group group' : List NumberedLine} (h : List.Forall₂ NumberedLine.Same group group') :
    statementCells group = statementCells group' := by
  have hcontinued : ∀ {ms ms' : List NumberedLine}, List.Forall₂ NumberedLine.Same ms ms' →
      ms.flatMap continuedCells = ms'.flatMap continuedCells := by
    intro ms ms' hms
    induction hms with
    | nil => rfl
    | cons hm _ ih => rw [List.flatMap_cons, List.flatMap_cons, ih, continuedCells, continuedCells, hm.row,
        hm.text.field_columns_eq]
  cases h with
  | nil => rfl
  | cons hm hms => rw [statementCells, statementCells, hcontinued hms, hm.row, hm.text.field_columns_eq]

/-- The rows of the first and the last line of a group. -/
theorem linesSpan_rows (group : List NumberedLine) :
    (linesSpan group).start = ⟨(group.map NumberedLine.row).head?.getD 0, 0⟩ ∧
      (linesSpan group).stop.line = (group.map NumberedLine.row).getLast?.getD 0 := by
  cases group with
  | nil => exact ⟨rfl, rfl⟩
  | cons m ms =>
    unfold linesSpan
    rw [List.getLast?_map, List.getLast?_eq_some_getLast (List.cons_ne_nil m ms)]
    exact ⟨rfl, rfl⟩

theorem sameFields_of_lines {group group' : List NumberedLine} (h : List.Forall₂ NumberedLine.Same group group') :
    (statementOf (statementCells group) (linesSpan group)).SameFields
      (statementOf (statementCells group') (linesSpan group')) := by
  have hrows : group.map NumberedLine.row = group'.map NumberedLine.row :=
    map_eq_of_forall₂ h fun _ _ hm => hm.row
  obtain ⟨hstart, hstop⟩ := linesSpan_rows group
  obtain ⟨hstart', hstop'⟩ := linesSpan_rows group'
  rw [← hrows] at hstart' hstop'
  rw [statementCells_congr h]
  exact ⟨rfl, rfl, rfl, rfl, rfl, hstart.trans hstart'.symm, hstop.trans hstop'.symm⟩

/-! ### Where statements begin -/

/-- Of two corresponding lines where a statement can begin, and that are no comments, both are blank or none is.
`isOpen` tells that a statement goes on in the first lines. -/
def blankAlike (isOpen : Bool) : List (List Char) → List (List Char) → Bool
  | line :: rest, line' :: rest' =>
    let goesOn := isContinued line && !rest.isEmpty
    (isOpen || isComment line || Text.isBlankLine line == Text.isBlankLine line') &&
      blankAlike (goesOn && (isOpen || !(isComment line || Text.isBlankLine line))) rest rest'
  | _, _ => true

section

variable {lines lines' : List (List Char)} {open? open?' : Option (List NumberedLine)}

/-- The same lines make up the statements of both sources. -/
theorem statementLines_same (h : List.Forall₂ SameColumns lines lines') (row : Nat)
    (hopen : Option.Rel (List.Forall₂ NumberedLine.Same) open? open?')
    (hblank : blankAlike open?.isSome lines lines') :
    List.Forall₂ (List.Forall₂ NumberedLine.Same) (statementLines row open? lines)
      (statementLines row open?' lines') := by
  induction h generalizing row open? open?' with
  | nil => exact .nil
  | @cons line line' rest rest' hline hrest ih =>
    have hempty : rest'.isEmpty = rest.isEmpty := by cases hrest <;> rfl
    rw [blankAlike, Bool.and_eq_true] at hblank
    obtain ⟨hhere, hbehind⟩ := hblank
    have hm : NumberedLine.Same ⟨row, line⟩ ⟨row, line'⟩ := ⟨rfl, hline⟩
    cases hopen with
    | some hgroup =>
      rw [statementLines, statementLines, hempty, ← hline.isContinued_eq]
      by_cases hon : (isContinued line && !rest.isEmpty) = true
      · rw [if_pos hon, if_pos hon]
        exact ih _ (.some (.cons hm hgroup)) (by simpa [hon] using hbehind)
      · rw [if_neg hon, if_neg hon]
        exact .cons (List.rel_reverse (.cons hm hgroup)) (ih _ .none (by simpa [hon] using hbehind))
    | none =>
      rw [statementLines, statementLines, hempty, ← hline.isContinued_eq, ← hline.isComment_eq]
      have hskip : (isComment line || Text.isBlankLine line') = (isComment line || Text.isBlankLine line) := by
        cases hc : isComment line with
        | true => rfl
        | false =>
          rw [hc] at hhere
          exact (beq_iff_eq.1 hhere).symm
      rw [hskip]
      by_cases hs : (isComment line || Text.isBlankLine line) = true
      · rw [if_pos hs, if_pos hs]
        exact ih _ .none (by simpa [hs] using hbehind)
      · rw [if_neg hs, if_neg hs]
        by_cases hon : (isContinued line && !rest.isEmpty) = true
        · rw [if_pos hon, if_pos hon]
          exact ih _ (.some (.cons hm .nil)) (by simpa [hon, hs] using hbehind)
        · rw [if_neg hon, if_neg hon]
          exact .cons (.cons hm .nil) (ih _ .none (by simpa [hon] using hbehind))

/-- The row in which the lines of a statement begin. -/
def firstRow (group : List NumberedLine) : Nat := (linesSpan group).start.line

theorem firstRow_of_laid {row : Nat} {groups : List (List NumberedLine)} (h : Laid row lines groups)
    {group : List NumberedLine} (hgroup : group ∈ groups) :
    row ≤ firstRow group ∧ ∀ m ∈ group, firstRow group ≤ m.row := by
  obtain ⟨i, piece, rfl, -, hpiece, -⟩ := h.piece_of_mem hgroup
  rw [firstRow, linesSpan_numbered _ hpiece]
  exact ⟨Nat.le_add_right _ _, fun m hm => (mem_numbered hm).1⟩

/-- A statement begins in a line that is neither a comment nor blank. -/
theorem mem_firstRow (row : Nat) {line : List Char} (rest : List (List Char))
    (hline : ¬(isComment line || Text.isBlankLine line)) :
    row ∈ (statementLines row none (line :: rest)).map firstRow := by
  by_contra hnone
  have hlaid := laid_statementLines row (line :: rest)
  have hskipped := hlaid.comment_or_blank (i := 0) (Nat.zero_lt_succ _) fun group hgroup m hm hrow => by
    obtain ⟨hle, hfirst⟩ := firstRow_of_laid hlaid hgroup
    have := hfirst m hm
    exact hnone (List.mem_map.2 ⟨group, hgroup, by omega⟩)
  exact hline (by simpa using hskipped)

/-- A line is skipped if, on the whole, the statements begin in the same rows as where it is skipped. -/
theorem skipped_of_firstRow {row : Nat} {line line' : List Char} {rest rest' : List (List Char)}
    (hrows : (statementLines row none (line :: rest)).map firstRow =
      (statementLines row none (line' :: rest')).map firstRow)
    (hline : isComment line || Text.isBlankLine line) : isComment line' || Text.isBlankLine line' := by
  by_contra hline'
  have hmem := mem_firstRow row rest' hline'
  rw [← hrows, statementLines, if_pos hline] at hmem
  obtain ⟨group, hgroup, hrow⟩ := List.mem_map.1 hmem
  have := (firstRow_of_laid (laid_statementLines (row + 1) rest) hgroup).1
  omega

/-- Where the statements begin in the same rows, no line is blank in one source only. -/
theorem blankAlike_of_firstRow (h : List.Forall₂ SameColumns lines lines') (row : Nat)
    (hopen : open?.isSome = open?'.isSome)
    (hrows : (statementLines row open? lines).map firstRow = (statementLines row open?' lines').map firstRow) :
    blankAlike open?.isSome lines lines' := by
  induction h generalizing row open? open?' with
  | nil => rfl
  | @cons line line' rest rest' hline hrest ih =>
    have hempty : rest'.isEmpty = rest.isEmpty := by cases hrest <;> rfl
    rw [blankAlike, Bool.and_eq_true]
    cases open? with
    | some group =>
      obtain ⟨group', rfl⟩ := Option.isSome_iff_exists.1 hopen.symm
      rw [statementLines, statementLines, hempty, ← hline.isContinued_eq] at hrows
      refine ⟨rfl, ?_⟩
      by_cases hon : (isContinued line && !rest.isEmpty) = true
      · rw [if_pos hon, if_pos hon] at hrows
        simpa [hon] using ih _ (by rfl) hrows
      · rw [if_neg hon, if_neg hon] at hrows
        simpa [hon] using ih _ (by rfl) (List.cons.inj hrows).2
    | none =>
      obtain rfl : open?' = none := by simpa using hopen.symm
      have hskip : (isComment line || Text.isBlankLine line) = (isComment line' || Text.isBlankLine line') :=
        Bool.eq_iff_iff.2 ⟨skipped_of_firstRow hrows, skipped_of_firstRow hrows.symm⟩
      rw [← hline.isComment_eq] at hskip
      rw [statementLines, statementLines, hempty, ← hline.isContinued_eq, ← hline.isComment_eq, ← hskip] at hrows
      refine ⟨?_, ?_⟩
      · cases hc : isComment line with
        | true => rfl
        | false =>
          rw [hc] at hskip
          exact beq_iff_eq.2 hskip
      · by_cases hs : (isComment line || Text.isBlankLine line) = true
        · rw [if_pos hs, if_pos hs] at hrows
          simpa [hs] using ih _ (by rfl) hrows
        · rw [if_neg hs, if_neg hs] at hrows
          by_cases hon : (isContinued line && !rest.isEmpty) = true
          · rw [if_pos hon, if_pos hon] at hrows
            simpa [hon, hs] using ih _ (by rfl) hrows
          · rw [if_neg hon, if_neg hon] at hrows
            simpa [hon] using ih _ (by rfl) (List.cons.inj hrows).2

end

/-! ### Sources -/

/-- **What stands behind the continuation column makes no difference to the statements of a source exactly if it makes
no line blank or not blank**: corresponding statements then have the same fields in the same places. -/
theorem statements_eq_iff_blankAlike {source source' : List Char}
    (h : List.Forall₂ SameColumns (recordLines source) (recordLines source')) :
    List.Forall₂ Statement.SameFields (statementsOf source) (statementsOf source') ↔
      blankAlike false (recordLines source) (recordLines source') := by
  constructor
  · intro hstatements
    refine @blankAlike_of_firstRow _ _ none none h 0 rfl ?_
    have hstarts : ∀ text, (statementLines 0 none (recordLines text)).map firstRow =
        (statementsOf text).map fun s => s.span.start.line := by
      intro text
      rw [statementsOf, List.map_map]
      rfl
    rw [hstarts, hstarts]
    exact map_eq_of_forall₂ hstatements fun _ _ hs => by rw [hs.start]
  · intro hblank
    have hgroups := statementLines_same h 0 .none hblank
    exact List.forall₂_map_left_iff.2 (List.forall₂_map_right_iff.2 (hgroups.imp fun _ _ => sameFields_of_lines))

/-- A line with a sequence number behind the columns of the statement. -/
def sequencedLine (text : String) (number : String) : String :=
  String.ofList (text.toList ++ List.replicate (continuationColumn + 1 - text.length) ' ') ++ number ++ "\n"

theorem toList_sequencedLine (text number : String) : (sequencedLine text number).toList =
    text.toList ++ List.replicate (continuationColumn + 1 - text.length) ' ' ++ number.toList ++ ['\n'] := by
  unfold sequencedLine
  rw [String.toList_append, String.toList_append, String.toList_ofList]
  rfl

theorem sequence_numbers_of_continued_statement :
    let source := (
      sequencedLine " LA 1,                                                                 X" "00000100" ++
      sequencedLine "               2" "00000200").toList
    let source' := (
      sequencedLine " LA 1,                                                                 X" "" ++
      sequencedLine "               2" "A").toList
    List.Forall₂ SameColumns (recordLines source) (recordLines source') ∧
      List.Forall₂ Statement.SameFields (statementsOf source) (statementsOf source') ∧
      (statementsOf source).map (fun s => s.operands.map Field.text) = [["1".toList, "2".toList]] := by
  intro source source'
  have h : List.Forall₂ SameColumns (recordLines source) (recordLines source') := by
    simp only [source, source', String.toList_append, toList_sequencedLine]
    decide +kernel
  have hblank : blankAlike false (recordLines source) (recordLines source') := by
    simp only [source, source', String.toList_append, toList_sequencedLine]
    decide +kernel
  refine ⟨h, (statements_eq_iff_blankAlike h).2 hblank, ?_⟩
  simp only [source, String.toList_append, toList_sequencedLine]
  decide +kernel

/-- A sequence number on a line that is blank otherwise makes the line a statement. -/
theorem sequence_number_makes_statement :
    ¬ ∀ source source', List.Forall₂ SameColumns (recordLines source) (recordLines source') →
      List.Forall₂ Statement.SameFields (statementsOf source) (statementsOf source') := by
  intro h
  have hlines := h (sequencedLine "" "00000100").toList (sequencedLine "" "").toList
    (by rw [toList_sequencedLine, toList_sequencedLine]; decide +kernel)
  have hlength := hlines.length_eq
  revert hlength
  rw [toList_sequencedLine, toList_sequencedLine]
  decide +kernel

end AssemblerIndex
