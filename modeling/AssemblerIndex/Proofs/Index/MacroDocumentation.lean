import Mathlib.Data.List.DropRight
import AssemblerIndex.Index.Documentation
import AssemblerIndex.Proofs.Statement.OccurrenceOrder
import AssemblerIndex.Proofs.Text.SourceLines

/-!
# The documentation of macros

A macro is documented by lines of its source, counted from the line of its prototype: the comments above are looked for
over the line right in front of the prototype's operation, whatever that line holds.

* `line_ofString` — the lines that are shown are those that the statements are read from, without the carriage returns
  at their end;
* `SourceText.CommentBlock` — the comments right above a line;
* `exists_documentation` — what the documentation is made up of, from any line of a statement on;
* `documentation_of_prototype` — **if the MACRO statement is written right above the operation of the prototype, its
  documentation begins with the comments above MACRO and goes on with the lines of the prototype; if not, the comments
  shown first are written behind MACRO**.
-/

namespace AssemblerIndex

/-! ### Lines as they are shown -/

theorem isPrefix_trimEndWhile (p : Char → Bool) (s : List Char) : Text.trimEndWhile p s <+: s := s.rdropWhile_prefix p

/-- Only characters of the class are removed at the back. -/
theorem getElem?_trimEndWhile {p : Char → Bool} {s : List Char} {i : Nat} {c : Char} (h : s[i]? = some c)
    (hc : p c = false) : (Text.trimEndWhile p s)[i]? = some c := by
  have hsplit : Text.trimEndWhile p s ++ s.rtakeWhile p = s := List.rdropWhile_append_rtakeWhile
  rw [← hsplit] at h
  rcases Nat.lt_or_ge i (Text.trimEndWhile p s).length with hlt | hge
  · rwa [List.getElem?_append_left hlt] at h
  · rw [List.getElem?_append_right hge] at h
    have := List.mem_rtakeWhile_imp (List.mem_of_getElem? h)
    rw [hc] at this
    cases this

/-- The line that a statement is read from and the line that is shown are the same piece of the text. -/
theorem line_ofString {text : String} {row : Nat} {line : List Char}
    (h : (recordLines text.toList)[row]? = some line) :
    row < (SourceText.ofString text).lineCount ∧
      (SourceText.ofString text).line row = Text.trimEndWhile (· = '\r') line := by
  have hcount : (recordLines text.toList).length ≤ (SourceText.ofString text).lineCount := by
    simpa [SourceText.ofString, SourceText.lineCount] using length_recordLines_le text.toList
  refine ⟨Nat.lt_of_lt_of_le (List.getElem?_eq_some_iff.1 h).1 hcount, ?_⟩
  rw [line_eq_trim_record, h, Option.getD_some]

/-- A line that is shown as a comment is one. -/
theorem isComment_of_isPrefix {line line' : List Char} (hlonger : line <+: line') (h : isComment line) :
    isComment line' := by
  obtain ⟨back, rfl⟩ := hlonger
  unfold isComment at h
  split at h
  · rfl
  · rfl
  · cases h

/-- A line that is continued by another character than a carriage return is shown as one. -/
theorem isContinued_trimEndWhile {record : List Char} (h : isContinued record)
    (hreturn : record[continuationColumn]? ≠ some '\r') : isContinued (Text.trimEndWhile (· = '\r') record) := by
  unfold isContinued at h
  split at h
  · next c hc =>
    have hkept : (Text.trimEndWhile (· = '\r') record)[continuationColumn]? = some c :=
      getElem?_trimEndWhile hc (by simpa [hc] using hreturn)
    rw [isContinued, hkept]
    exact h
  · cases h

/-! ### Where statements begin and go on -/

/-- A statement begins in a line that is no comment. -/
theorem exists_head_of_mem_statementLines {row : Nat} {lines : List (List Char)} {group : List NumberedLine}
    (h : group ∈ statementLines row none lines) :
    ∃ i line rest, group = ⟨row + i, line⟩ :: rest ∧ lines[i]? = some line ∧ ¬isComment line := by
  induction hn : lines.length using Nat.strongRecOn generalizing row lines with
  | ind n ih =>
    subst hn
    cases lines with
    | nil => cases h
    | cons line lines =>
      -- what is found in the lines behind stands that much further down
      have hbehind {k : Nat} {after : List (List Char)} (hafter : (line :: lines).drop (k + 1) = after)
          (h : group ∈ statementLines (row + (k + 1)) none after) :
          ∃ i line' rest, group = ⟨row + i, line'⟩ :: rest ∧ (line :: lines)[i]? = some line' ∧ ¬isComment line' := by
        subst hafter
        have hshort : ((line :: lines).drop (k + 1)).length < (line :: lines).length := by
          rw [List.length_drop, List.length_cons]
          omega
        obtain ⟨i, line', rest, hgroup, hline, hcomment⟩ := ih _ hshort h rfl
        rw [List.getElem?_drop] at hline
        exact ⟨k + 1 + i, line', rest, by rw [hgroup, Nat.add_assoc], hline, hcomment⟩
      rw [statementLines] at h
      split at h
      · exact hbehind (k := 0) rfl h
      · next hskip =>
        have hcomment : ¬isComment line := fun hc => hskip (by simp [hc])
        split at h
        · next hon =>
          have hrest : lines ≠ [] := by
            rintro rfl
            simp at hon
          obtain ⟨piece, after, rfl, -, -, heq⟩ := statementLines_open (row + 1) [⟨row, line⟩] hrest
          rw [heq] at h
          rcases List.mem_cons.1 h with rfl | h
          · exact ⟨0, line, numbered (row + 1) piece, rfl, rfl, hcomment⟩
          · rw [Nat.add_right_comm] at h
            exact hbehind (by simp) h
        · rcases List.mem_cons.1 h with rfl | h
          · exact ⟨0, line, [], rfl, rfl, hcomment⟩
          · exact hbehind (k := 0) rfl h

section

variable {text : String} {s : Statement}

/-- The line that a statement begins in is shown as no comment. -/
theorem not_isComment_line (hs : s ∈ statementsOf text.toList) :
    ¬isComment ((SourceText.ofString text).line s.span.start.line) := by
  obtain ⟨group, hgroup, rfl⟩ := List.mem_map.1 hs
  obtain ⟨i, line, rest, rfl, hline, hcomment⟩ := exists_head_of_mem_statementLines hgroup
  have hstart : (linesSpan (⟨0 + i, line⟩ :: rest)).start.line = i := by
    simp [linesSpan, List.getLast?_cons]
  show ¬isComment ((SourceText.ofString text).line (linesSpan (⟨0 + i, line⟩ :: rest)).start.line)
  rw [hstart, (line_ofString hline).2]
  exact fun h => hcomment (isComment_of_isPrefix (isPrefix_trimEndWhile _ _) h)

/-- The lines of a statement but the last are continued. -/
theorem isContinued_of_mem (hs : s ∈ statementsOf text.toList) {row : Nat} (hfirst : s.span.start.line ≤ row)
    (hlast : row < s.span.stop.line) :
    ∃ line, (recordLines text.toList)[row]? = some line ∧ isContinued line := by
  obtain ⟨first, piece, hne, ⟨after, hpiece⟩, hcontinued, rfl⟩ := exists_piece_of_mem hs
  have hspan := linesSpan_numbered first hne
  change (linesSpan (numbered first piece)).start.line ≤ row at hfirst
  change row < (linesSpan (numbered first piece)).stop.line at hlast
  rw [hspan] at hfirst hlast
  obtain ⟨i, rfl⟩ := Nat.exists_eq_add_of_le hfirst
  have hi : i < piece.dropLast.length := by
    rw [List.length_dropLast]
    exact Nat.lt_of_add_lt_add_left hlast
  refine ⟨piece.dropLast[i], ?_, hcontinued _ (List.getElem_mem hi)⟩
  have hi' : i < piece.length := Nat.lt_of_lt_of_le hi (by simp)
  rw [← List.getElem?_drop, ← hpiece, List.getElem?_append_left hi', List.getElem_dropLast,
    List.getElem?_eq_getElem hi']

end

/-! ### What is shown -/

namespace SourceText

variable (t : SourceText)

/-- The lines from one on, up to another. -/
def rows (first behind : Nat) : List (List Char) := (List.range' first (behind - first)).map t.line

variable {t}

theorem rows_append {first middle behind : Nat} (h : first ≤ middle) (h' : middle ≤ behind) :
    t.rows first middle ++ t.rows middle behind = t.rows first behind := by
  obtain ⟨m, rfl⟩ := Nat.exists_eq_add_of_le h
  obtain ⟨n, rfl⟩ := Nat.exists_eq_add_of_le h'
  rw [rows, rows, rows, ← List.map_append, Nat.add_assoc, Nat.add_sub_cancel_left, Nat.add_sub_cancel_left,
    ← Nat.add_assoc, Nat.add_sub_cancel_left, List.range'_append_1]

theorem rows_self (n : Nat) : t.rows n n = [] := by simp [rows]

theorem rows_succ {first n : Nat} (h : first ≤ n) : t.rows first (n + 1) = t.rows first n ++ [t.line n] := by
  rw [← rows_append h (Nat.le_succ n)]
  simp [rows]

variable (t) in
/-- The comments right above the line `n` are the lines from `first` on. -/
structure CommentBlock (first n : Nat) : Prop where
  le : first ≤ n
  comments : ∀ row, first ≤ row → row < n → isComment (t.line row)
  maximal : first = 0 ∨ ¬isComment (t.line (first - 1))

/-- The comments that are looked for above a line are the block there. -/
theorem exists_commentsAbove (n : Nat) : ∃ first, t.CommentBlock first n ∧ t.commentsAbove n = t.rows first n := by
  induction n with
  | zero => exact ⟨0, ⟨Nat.le_refl 0, by simp, .inl rfl⟩, (rows_self 0).symm⟩
  | succ n ih =>
    rw [commentsAbove]
    split
    · next hcomment =>
      obtain ⟨first, hblock, heq⟩ := ih
      refine ⟨first, ⟨Nat.le_succ_of_le hblock.le, fun row hle hlt => ?_, hblock.maximal⟩, ?_⟩
      · rcases Nat.lt_succ_iff_lt_or_eq.1 hlt with hlt | rfl
        · exact hblock.comments row hle hlt
        · exact hcomment
      · rw [heq, rows_succ hblock.le]
    · next hcomment =>
      exact ⟨n + 1, ⟨Nat.le_refl _, fun row hle hlt => absurd hlt (Nat.not_lt.2 hle), .inr hcomment⟩, (rows_self _).symm⟩

/-- A block of comments above a line begins behind every line above that is no comment. -/
theorem CommentBlock.lt {first n row : Nat} (h : t.CommentBlock first n) (hrow : row < n)
    (hcomment : ¬isComment (t.line row)) : row < first :=
  Nat.lt_of_not_le fun hle => hcomment (h.comments row hle hrow)

theorem self_le_lastLineFrom (n : Nat) : n ≤ t.lastLineFrom n := by
  fun_induction t.lastLineFrom n with
  | case1 n _ ih => exact Nat.le_of_succ_le ih
  | case2 n => exact Nat.le_refl n

/-- Lines that are continued are shown together with the line behind them. -/
theorem le_lastLineFrom {n last : Nat} (hle : n ≤ last) (hlast : last < t.lineCount)
    (hcontinued : ∀ row, n ≤ row → row < last → isContinued (t.line row)) : last ≤ t.lastLineFrom n := by
  rcases Nat.lt_or_eq_of_le hle with hlt | rfl
  · fun_induction t.lastLineFrom n with
    | case1 n _ ih =>
      rcases Nat.lt_or_eq_of_le hlt with hnext | rfl
      · exact ih hlt (fun row hrow => hcontinued row (Nat.le_of_succ_le hrow)) hnext
      · exact self_le_lastLineFrom _
    | case2 n hend => exact absurd ⟨by omega, hcontinued n (Nat.le_refl n) hlt⟩ hend
  · exact self_le_lastLineFrom n

end SourceText

@[simp] theorem joinLines_append (lines lines' : List (List Char)) :
    joinLines (lines ++ lines') = joinLines lines ++ joinLines lines' := by
  simp [joinLines]

section

variable {text : String} {p : Statement}

/-- The statement is continued by other characters than carriage returns. -/
def ContinuedPlainly (source : List Char) (s : Statement) : Prop :=
  ∀ row, s.span.start.line ≤ row → row < s.span.stop.line →
    ∀ record ∈ (recordLines source)[row]?, record[continuationColumn]? ≠ some '\r'

/-- What is shown from a line of a statement on: the comments above the line in front of it, and the lines through the
last of the statement. -/
theorem exists_documentation (hp : p ∈ statementsOf text.toList) (hplain : ContinuedPlainly text.toList p) {n : Nat}
    (hfirst : p.span.start.line ≤ n) (hlast : n ≤ p.span.stop.line) :
    let t := SourceText.ofString text
    ∃ first more, t.CommentBlock first (n - 1) ∧
      t.documentation n = t.rows first (n - 1) ++ t.rows n (p.span.stop.line + 1) ++ more := by
  intro t
  obtain ⟨first, hblock, hcomments⟩ := t.exists_commentsAbove (n - 1)
  have hin : p.span.stop.line < t.lineCount := by
    obtain ⟨line, hline⟩ : ∃ line, (recordLines text.toList)[p.span.stop.line]? = some line :=
      ⟨_, List.getElem?_eq_getElem (rangesIn_of_mem hp).lines.2⟩
    exact (line_ofString hline).1
  have hshown : p.span.stop.line ≤ t.lastLineFrom n := by
    refine t.le_lastLineFrom hlast hin fun row hle hlt => ?_
    have hrow := Nat.le_trans hfirst hle
    obtain ⟨line, hline, hcontinued⟩ := isContinued_of_mem hp hrow hlt
    rw [(line_ofString hline).2]
    exact isContinued_trimEndWhile hcontinued (hplain row hrow hlt line hline)
  refine ⟨first, t.rows (p.span.stop.line + 1) (t.lastLineFrom n + 1) ++ t.commentsFrom (t.lastLineFrom n + 1), hblock, ?_⟩
  rw [List.append_assoc, ← List.append_assoc (t.rows n _),
    SourceText.rows_append (Nat.le_succ_of_le hlast) (Nat.succ_le_succ hshown), ← List.append_assoc, ← hcomments]
  rfl

end

/-- **The documentation of a macro begins with the comments before the definition only if the prototype's operation
stands in the line below MACRO.**  For two statements that follow one another in a text, as MACRO and the prototype do,
what is shown for the line `n` of the operation of the second is this: if the first begins in the line above, the
comments right above the first, then all lines of the second; otherwise comments right above the line `n - 1` that stand
behind the first line of the first statement, then the lines of the second from `n` on.  The second statement must not
be continued by a carriage return, which is not shown. -/
theorem documentation_of_prototype {text : String} {i : Nat} {m p : Statement}
    (hm : (statementsOf text.toList)[i]? = some m) (hp : (statementsOf text.toList)[i + 1]? = some p)
    (hplain : ContinuedPlainly text.toList p) :
    let t := SourceText.ofString text
    let n := p.position.line
    (n = m.span.start.line + 1 → ∃ first more, t.CommentBlock first m.span.start.line ∧
      joinLines (t.documentation n) =
        joinLines (t.rows first m.span.start.line) ++ joinLines (t.rows p.span.start.line (p.span.stop.line + 1)) ++ more) ∧
    (n ≠ m.span.start.line + 1 → ∃ first more, m.span.start.line < first ∧ t.CommentBlock first (n - 1) ∧
      joinLines (t.documentation n) =
        joinLines (t.rows first (n - 1)) ++ joinLines (t.rows n (p.span.stop.line + 1)) ++ more) := by
  intro t n
  have hpmem := List.mem_of_getElem? hp
  have hmmem := List.mem_of_getElem? hm
  obtain ⟨hstart, hstop⟩ := position_line_of_mem hpmem
  -- the first statement ends in front of the second
  have hbefore : m.span.stop.line < p.span.start.line := by
    obtain ⟨hi, rfl⟩ := List.getElem?_eq_some_iff.1 hm
    obtain ⟨hi', rfl⟩ := List.getElem?_eq_some_iff.1 hp
    exact List.pairwise_iff_getElem.1 (pairwise_line_lt_statementsOf text.toList) i (i + 1) hi hi' (Nat.lt_succ_self i)
  have hm := (rangesIn_of_mem hmmem).lines.1
  obtain ⟨first, more, hblock, hshown⟩ := exists_documentation hpmem hplain hstart hstop
  rw [hshown, joinLines_append, joinLines_append]
  constructor
  · intro hn
    have hline : n - 1 = m.span.start.line := by omega
    have hfirst : p.span.start.line = n := by omega
    rw [hfirst, ← hline]
    exact ⟨first, joinLines more, hblock, rfl⟩
  · intro hn
    exact ⟨first, joinLines more, hblock.lt (by omega) (not_isComment_line hmmem), hblock, rfl⟩

/-- A comment, MACRO and a prototype of two lines. -/
def documentedMacro : String := "\n".intercalate [
  "*  the sum",
  "         MACRO",
  "&L       SUM   &FIRST,                                                 X",
  "               &SECOND"]

theorem documentation_of_documentedMacro :
    let t := SourceText.ofString documentedMacro
    ∃ m p, (statementsOf documentedMacro.toList)[0]? = some m ∧ (statementsOf documentedMacro.toList)[1]? = some p ∧
      ContinuedPlainly documentedMacro.toList p ∧ p.position.line = m.span.start.line + 1 ∧
      ∃ first more, t.CommentBlock first m.span.start.line ∧
        joinLines (t.documentation p.position.line) =
          joinLines (t.rows first m.span.start.line) ++ joinLines (t.rows p.span.start.line (p.span.stop.line + 1)) ++
            more := by
  intro t
  obtain ⟨m, p, hstatements⟩ : ∃ m p, statementsOf documentedMacro.toList = [m, p] :=
    List.length_eq_two.1 (by decide +kernel)
  have hm : (statementsOf documentedMacro.toList)[0]? = some m := by rw [hstatements]; rfl
  have hp : (statementsOf documentedMacro.toList)[1]? = some p := by rw [hstatements]; rfl
  have hplain : ContinuedPlainly documentedMacro.toList p := by
    intro row _ _ line hline hreturn
    have hnone : ∀ line ∈ recordLines documentedMacro.toList, '\r' ∉ line := by decide +kernel
    exact hnone line (List.mem_of_getElem? hline) (List.mem_of_getElem? hreturn)
  have hnext : (statementsOf documentedMacro.toList).map (fun s => (s.span.start.line, s.position.line)) =
      [(1, 1), (2, 2)] := by decide +kernel
  have hline : p.position.line = m.span.start.line + 1 := by
    simp only [hstatements, List.map_cons, List.map_nil, List.cons.injEq, Prod.mk.injEq] at hnext
    omega
  exact ⟨m, p, hm, hp, hplain, hline, (documentation_of_prototype hm hp hplain).1 hline⟩

/-- A comment between MACRO and the prototype is skipped when the statements are read, but the line in front of the
prototype is taken for MACRO: the comment before the definition is not shown. -/
theorem comment_before_macro_is_not_shown :
    ¬ ∀ (text : String) (i : Nat) (m p : Statement), (statementsOf text.toList)[i]? = some m →
      (statementsOf text.toList)[i + 1]? = some p → m.opcode = "MACRO" → p.instruction.isSome →
        let t := SourceText.ofString text
        ∃ first between more, t.CommentBlock first m.span.start.line ∧
          joinLines (t.documentation p.position.line) =
            joinLines (t.rows first m.span.start.line) ++ between ++
              joinLines (t.rows p.span.start.line (p.span.stop.line + 1)) ++ more := by
  intro hall
  let text := "* doc\n MACRO\n* between\n NAME\n"
  let t := SourceText.ofString text
  obtain ⟨m, p, hstatements⟩ : ∃ m p, statementsOf text.toList = [m, p] := List.length_eq_two.1 (by decide +kernel)
  have hm : (statementsOf text.toList)[0]? = some m := by rw [hstatements]; rfl
  have hp : (statementsOf text.toList)[1]? = some p := by rw [hstatements]; rfl
  have hfacts : (statementsOf text.toList).map (fun s => (s.opcode, s.instruction.isSome, s.span.start.line,
      s.span.stop.line, s.position.line)) = [("MACRO", true, 1, 1, 1), ("NAME", true, 3, 3, 3)] := by decide +kernel
  simp only [hstatements, List.map_cons, List.map_nil, List.cons.injEq, Prod.mk.injEq, and_true] at hfacts
  obtain ⟨⟨hopen, -, hmline, -, -⟩, -, hinstruction, hpfirst, hplast, hposition⟩ := hfacts
  obtain ⟨first, between, more, hblock, hclaimed⟩ := hall text 0 m p hm hp hopen hinstruction
  rw [hmline] at hblock hclaimed
  rw [hposition] at hclaimed
  -- the claimed answer begins with the comment in the first line
  have hfirst : first = 0 := by
    refine hblock.maximal.resolve_right fun hcomment => hcomment ?_
    have hle := hblock.le
    have hline : ∀ row ≤ 0, isComment (t.line row) := by decide +kernel
    exact hline _ (by omega)
  -- and the answer that is given with the prototype
  have hplain : ContinuedPlainly text.toList p := fun row hle hlt => by omega
  obtain ⟨first', more', hblock', hshown⟩ :=
    exists_documentation (List.mem_of_getElem? hp) hplain (n := 3) (by omega) (by omega)
  have hfirst' : first' = 2 := by
    have hopening : ¬isComment (t.line 1) := by decide +kernel
    have := hblock'.lt (by decide) hopening
    have := hblock'.le
    omega
  rw [hshown, hfirst', hplast, hfirst] at hclaimed
  have hrows : t.rows 0 1 = ["* doc".toList] ∧ t.rows 2 2 = [] ∧ t.rows 3 4 = [" NAME".toList] := by decide +kernel
  have hshown : t.rows 2 (3 - 1) ++ t.rows 3 (3 + 1) ++ more' = " NAME".toList :: more' := by
    rw [hrows.2.1, hrows.2.2]
    rfl
  rw [hshown, hrows.1] at hclaimed
  have hchars := congrArg (fun s => s.toList.head?) hclaimed
  simp [joinLines] at hchars

end AssemblerIndex
