import Mathlib.Data.List.Infix
import AssemblerIndex.Proofs.Statement.Lines
import AssemblerIndex.Proofs.Statement.Splitting

/-!
# The ranges of fields

Fields are cut out of the characters of all lines of a statement, and their ranges lead back to the lines.

* `textAt?` — what a source says in a range, in the columns of the fixed layout;
* `Cuts glyphs fields` — the fields are pieces of the characters, in this order;
* `OperandScan.cuts_scan`, `cuts_statement` — a statement is cut out of its characters;
* `Statement.RangesIn` — the ranges of a statement's fields tell their texts, in order and within its lines;
* `fields_in_their_ranges` — **the fields of every statement of every source stand where their ranges say**.
-/

namespace AssemblerIndex

/-! ### Ranges -/

/-- The first place is not behind the second. -/
instance : LE Position := ⟨fun p q => p.line < q.line ∨ p.line = q.line ∧ p.column ≤ q.column⟩

theorem Position.le_def {p q : Position} : p ≤ q ↔ p.line < q.line ∨ p.line = q.line ∧ p.column ≤ q.column := Iff.rfl

/-- The characters of a line from one column up to another, if it has them. -/
def slice? (line : List Char) (start stop : Nat) : Option (List Char) :=
  if start ≤ stop ∧ stop ≤ line.length then some ((line.take stop).drop start) else none

/-- The characters from `column` on in the first of the lines up to `stop` in the line that follows it after `further`
lines.  Where the text goes on in the next line, it ends in front of the continuation column and begins again in the
continue column. -/
def textThrough? (further column stop : Nat) : List (List Char) → Option (List Char)
  | [] => none
  | line :: rest =>
    match further with
    | 0 => slice? line column stop
    | n + 1 => do
      let here ← slice? line column continuationColumn
      let there ← textThrough? n continueColumn stop rest
      return here ++ there

/-- The characters in a stretch of the lines. -/
def textAt? (lines : List (List Char)) (span : Span) : Option (List Char) :=
  if span.start.line ≤ span.stop.line then
    textThrough? (span.stop.line - span.start.line) span.start.column span.stop.column (lines.drop span.start.line)
  else none

theorem slice?_of_prefix {line text : List Char} {start : Nat} (hstart : start ≤ line.length)
    (h : text <+: line.drop start) : slice? line start (start + text.length) = some text := by
  have hlength := h.length_le
  rw [List.length_drop] at hlength
  rw [slice?, if_pos ⟨Nat.le_add_right _ _, by omega⟩, List.drop_take, Nat.add_sub_cancel_left,
    ← List.prefix_iff_eq_take.1 h]

theorem textThrough?_of_prefix {n column stop : Nat} {piece lines : List (List Char)} {text : List Char}
    (hbegins : piece <+: lines) (h : textThrough? n column stop piece = some text) :
    textThrough? n column stop lines = some text := by
  obtain ⟨after, rfl⟩ := hbegins
  induction piece generalizing n column text with
  | nil => exact absurd h (by simp [textThrough?])
  | cons line rest ih =>
    cases n with
    | zero => exact h
    | succ n =>
      simp only [textThrough?, Option.bind_eq_bind, Option.bind_eq_some_iff] at h
      obtain ⟨here, hhere, there, hthere, h⟩ := h
      simpa [textThrough?, hhere, ih hthere] using h

/-! ### Glyphs of lines -/

/-- The characters of a list of cells with their places. -/
def cellGlyphs (cells : List Cell) : List Glyph :=
  cells.filterMap fun
    | .glyph g => some g
    | .lineStart => none

@[simp] theorem cellGlyphs_nil : cellGlyphs [] = [] := rfl

@[simp] theorem cellGlyphs_lineStart (cells : List Cell) : cellGlyphs (.lineStart :: cells) = cellGlyphs cells := rfl

@[simp] theorem cellGlyphs_glyph (g : Glyph) (cells : List Cell) :
    cellGlyphs (.glyph g :: cells) = g :: cellGlyphs cells := rfl

@[simp] theorem glyphChars_append (gs gs' : List Glyph) : glyphChars (gs ++ gs') = glyphChars gs ++ glyphChars gs' :=
  List.map_append

@[simp] theorem cellGlyphs_append (cells cells' : List Cell) :
    cellGlyphs (cells ++ cells') = cellGlyphs cells ++ cellGlyphs cells' := List.filterMap_append

/-- The characters of a piece of a line with their places. -/
def lineGlyphs (row column : Nat) (text : List Char) : List Glyph := cellGlyphs (cellsFrom row column text)

@[simp] theorem lineGlyphs_nil (row column : Nat) : lineGlyphs row column [] = [] := rfl

@[simp] theorem lineGlyphs_cons (row column : Nat) (c : Char) (text : List Char) :
    lineGlyphs row column (c :: text) = ⟨c, row, column⟩ :: lineGlyphs row (column + 1) text := rfl

@[simp] theorem glyphChars_lineGlyphs (row column : Nat) (text : List Char) :
    glyphChars (lineGlyphs row column text) = text := by
  induction text generalizing column with
  | nil => rfl
  | cons c text ih => exact congrArg (c :: ·) (ih (column + 1))

/-- Where the glyphs of a line are split, so is the line. -/
theorem split_of_lineGlyphs {row column : Nat} {text : List Char} {front back : List Glyph}
    (h : lineGlyphs row column text = front ++ back) :
    ∃ a b, text = a ++ b ∧ front = lineGlyphs row column a ∧ back = lineGlyphs row (column + a.length) b := by
  induction text generalizing column front with
  | nil =>
    obtain ⟨rfl, rfl⟩ := List.append_eq_nil_iff.1 h.symm
    exact ⟨[], [], rfl, rfl, rfl⟩
  | cons c text ih =>
    cases front with
    | nil => exact ⟨[], c :: text, rfl, rfl, h.symm⟩
    | cons g front =>
      obtain ⟨rfl, hrest⟩ := List.cons.inj h
      obtain ⟨a, b, rfl, rfl, rfl⟩ := ih hrest
      exact ⟨c :: a, b, rfl, rfl, by rw [List.length_cons, Nat.add_assoc, Nat.add_comm 1]⟩

theorem mem_lineGlyphs {row column : Nat} {text : List Char} {g : Glyph} (h : g ∈ lineGlyphs row column text) :
    g.pos.line = row ∧ column ≤ g.pos.column ∧ g.pos.column < column + text.length := by
  induction text generalizing column with
  | nil => cases h
  | cons c text ih =>
    rcases List.mem_cons.1 h with rfl | h
    · simp
    · obtain ⟨hline, hle, hlt⟩ := ih h
      exact ⟨hline, Nat.le_of_succ_le hle, by rw [List.length_cons]; omega⟩

theorem getLast_lineGlyphs {row column : Nat} {text : List Char} (h : lineGlyphs row column text ≠ []) :
    ((lineGlyphs row column text).getLast h).pos = ⟨row, column + (text.length - 1)⟩ := by
  induction text generalizing column with
  | nil => exact absurd rfl h
  | cons c text ih =>
    cases text with
    | nil => rfl
    | cons d text =>
      have := @ih (column + 1) (by simp)
      simp only [lineGlyphs_cons, List.getLast_cons_cons, List.length_cons] at this ⊢
      rw [this]
      simp
      omega

/-- The characters of lines that belong together: of the first from `column` on, of the others from the continue column
on, all in front of the continuation column. -/
def glyphsFrom (row column : Nat) : List (List Char) → List Glyph
  | [] => []
  | line :: rest =>
    lineGlyphs row column ((line.take continuationColumn).drop column) ++ glyphsFrom (row + 1) continueColumn rest

@[simp] theorem glyphsFrom_nil (row column : Nat) : glyphsFrom row column [] = [] := rfl

theorem cellGlyphs_statementCells (row : Nat) (piece : List (List Char)) :
    cellGlyphs (statementCells (numbered row piece)) = glyphsFrom row 0 piece := by
  have hcontinued : ∀ (row : Nat) (lines : List (List Char)),
      cellGlyphs ((numbered row lines).flatMap continuedCells) = glyphsFrom row continueColumn lines := by
    intro row lines
    induction lines generalizing row with
    | nil => rfl
    | cons line rest ih => simp [numbered, continuedCells, glyphsFrom, lineGlyphs, ih]
  cases piece with
  | nil => rfl
  | cons line rest => simp [numbered, statementCells, glyphsFrom, lineGlyphs, hcontinued]

/-! ### The order of the glyphs -/

theorem line_of_mem_glyphsFrom {row column : Nat} {piece : List (List Char)} {g : Glyph}
    (h : g ∈ glyphsFrom row column piece) : row ≤ g.pos.line := by
  induction piece generalizing row column with
  | nil => cases h
  | cons line rest ih =>
    rcases List.mem_append.1 h with h | h
    · exact Nat.le_of_eq (mem_lineGlyphs h).1.symm
    · exact Nat.le_of_succ_le (ih h)

/-- Each glyph ends before the next begins. -/
theorem pairwise_glyphsFrom (row column : Nat) (piece : List (List Char)) :
    (glyphsFrom row column piece).Pairwise fun g g' => g.span.stop ≤ g'.pos := by
  have hline : ∀ (row column : Nat) (text : List Char),
      (lineGlyphs row column text).Pairwise fun g g' => g.span.stop ≤ g'.pos := by
    intro row column text
    induction text generalizing column with
    | nil => exact .nil
    | cons c text ih =>
      refine List.pairwise_cons.2 ⟨fun g hg => ?_, ih _⟩
      obtain ⟨hrow, hcolumn, -⟩ := mem_lineGlyphs hg
      exact .inr ⟨hrow.symm, hcolumn⟩
  induction piece generalizing row column with
  | nil => exact .nil
  | cons line rest ih =>
    refine List.pairwise_append.2 ⟨hline _ _ _, ih _ _, fun g hg g' hg' => .inl ?_⟩
    show g.pos.line < g'.pos.line
    rw [(mem_lineGlyphs hg).1]
    exact line_of_mem_glyphsFrom hg'

/-- Every glyph ends within the lines. -/
theorem stop_of_mem_glyphsFrom {row column : Nat} {piece : List (List Char)} {g : Glyph} (hpiece : piece ≠ [])
    (h : g ∈ glyphsFrom row column piece) :
    g.span.stop ≤ ⟨row + (piece.length - 1), (piece.getLast hpiece).length⟩ := by
  induction piece generalizing row column with
  | nil => exact absurd rfl hpiece
  | cons line rest ih =>
    rcases List.mem_append.1 h with h | h
    · obtain ⟨hline, hle, hlt⟩ := mem_lineGlyphs h
      cases rest with
      | nil =>
        refine .inr ⟨hline, ?_⟩
        rw [List.length_drop, List.length_take] at hlt
        show g.pos.column + 1 ≤ line.length
        omega
      | cons line' rest =>
        refine .inl ?_
        show g.pos.line < row + (rest.length + 1)
        omega
    · have hrest : rest ≠ [] := by rintro rfl; cases h
      have hlength : 0 < rest.length := List.length_pos_iff.2 hrest
      have hstop := ih hrest h
      rw [List.getLast_cons hrest, List.length_cons]
      rwa [show row + (rest.length + 1 - 1) = row + 1 + (rest.length - 1) by omega]

/-! ### The text between two glyphs -/

section Texts

variable {row column : Nat} {piece : List (List Char)}

/-- The text from the first column of lines that belong together through one of their characters. -/
theorem textThrough?_of_first (hlong : ∀ line ∈ piece.dropLast, continuationColumn ≤ line.length)
    (hcolumn : column ≤ continuationColumn) {word after : List Glyph} (hword : word ≠ [])
    (h : glyphsFrom row column piece = word ++ after) :
    row ≤ (word.getLast hword).pos.line ∧
      textThrough? ((word.getLast hword).pos.line - row) column (word.getLast hword).span.stop.column piece =
        some (glyphChars word) := by
  induction piece generalizing row column word with
  | nil => exact absurd (List.append_eq_nil_iff.1 h.symm).1 hword
  | cons line rest ih =>
    -- the word ends in the first line, or takes it up and goes on in the next
    have hhere : ∀ back, lineGlyphs row column ((line.take continuationColumn).drop column) = word ++ back →
        row ≤ (word.getLast hword).pos.line ∧
          textThrough? ((word.getLast hword).pos.line - row) column (word.getLast hword).span.stop.column
            (line :: rest) = some (glyphChars word) := by
      intro back hback
      obtain ⟨a, b, htext, rfl, -⟩ := split_of_lineGlyphs hback
      have ha : 0 < a.length := List.length_pos_iff.2 fun ha => hword (by rw [ha, lineGlyphs_nil])
      have hbegins : a <+: line.drop column := by
        refine .trans ⟨b, htext.symm⟩ ?_
        rw [List.drop_take]
        exact List.take_prefix _ _
      have hlength := hbegins.length_le
      rw [List.length_drop] at hlength
      have hslice := slice?_of_prefix (by omega) hbegins
      rw [Glyph.span, getLast_lineGlyphs hword, Nat.sub_self, glyphChars_lineGlyphs]
      refine ⟨Nat.le_refl _, ?_⟩
      show slice? line column (column + (a.length - 1) + 1) = some a
      rwa [show column + (a.length - 1) + 1 = column + a.length by omega]
    rcases List.append_eq_append_iff.1 h with ⟨more, rfl, hmore⟩ | ⟨back, hback, -⟩
    · by_cases hnil : more = []
      · subst hnil
        exact hhere [] (by simp)
      · have hrest : rest ≠ [] := by
          rintro rfl
          exact hnil (List.append_eq_nil_iff.1 hmore.symm).1
        rw [List.dropLast_cons_of_ne_nil hrest] at hlong
        have hline := hlong line List.mem_cons_self
        obtain ⟨hrow, htext⟩ := ih (fun l hl => hlong l (List.mem_cons_of_mem _ hl)) (by decide) hnil hmore
        rw [List.getLast_append_of_ne_nil _ hnil]
        refine ⟨Nat.le_of_succ_le hrow, ?_⟩
        have hslice : slice? line column continuationColumn = some ((line.take continuationColumn).drop column) :=
          if_pos ⟨hcolumn, hline⟩
        rw [show (more.getLast hnil).pos.line - row = (more.getLast hnil).pos.line - (row + 1) + 1 by omega,
          textThrough?, hslice, htext, glyphChars_append, glyphChars_lineGlyphs]
        rfl
    · exact hhere back hback

/-- The text from one character of lines that belong together through another. -/
theorem textThrough?_of_infix (hlong : ∀ line ∈ piece.dropLast, continuationColumn ≤ line.length)
    {before word after : List Glyph} (hword : word ≠ []) (h : glyphsFrom row column piece = before ++ word ++ after) :
    row ≤ (word.head hword).pos.line ∧ (word.head hword).pos.line ≤ (word.getLast hword).pos.line ∧
      textThrough? ((word.getLast hword).pos.line - (word.head hword).pos.line) (word.head hword).pos.column
          (word.getLast hword).span.stop.column (piece.drop ((word.head hword).pos.line - row)) =
        some (glyphChars word) := by
  induction piece generalizing row column before with
  | nil =>
    rw [glyphsFrom_nil, List.append_assoc, eq_comm] at h
    exact absurd (List.append_eq_nil_iff.1 (List.append_eq_nil_iff.1 h).2).1 hword
  | cons line rest ih =>
    -- either the word begins in the first line, or the line is passed
    have hnext : ∀ before', glyphsFrom (row + 1) continueColumn rest = before' ++ word ++ after →
        row ≤ (word.head hword).pos.line ∧ (word.head hword).pos.line ≤ (word.getLast hword).pos.line ∧
          textThrough? ((word.getLast hword).pos.line - (word.head hword).pos.line) (word.head hword).pos.column
              (word.getLast hword).span.stop.column ((line :: rest).drop ((word.head hword).pos.line - row)) =
            some (glyphChars word) := by
      intro before' h'
      have hrest : rest ≠ [] := by
        rintro rfl
        rw [glyphsFrom_nil, List.append_assoc, eq_comm] at h'
        exact hword (List.append_eq_nil_iff.1 (List.append_eq_nil_iff.1 h').2).1
      rw [List.dropLast_cons_of_ne_nil hrest] at hlong
      obtain ⟨hrow, hlines, htext⟩ := ih (fun l hl => hlong l (List.mem_cons_of_mem _ hl)) h'
      refine ⟨Nat.le_of_succ_le hrow, hlines, ?_⟩
      rwa [show (word.head hword).pos.line - row = (word.head hword).pos.line - (row + 1) + 1 by omega,
        List.drop_succ_cons]
    rw [List.append_assoc] at h
    rcases List.append_eq_append_iff.1 h with ⟨before', rfl, h'⟩ | ⟨here, hhere, h'⟩
    · exact hnext before' (by rw [h', List.append_assoc])
    · cases here with
      | nil => exact hnext [] h'.symm
      | cons g here =>
        obtain ⟨a, b, htext, -, hb⟩ := split_of_lineGlyphs hhere
        obtain ⟨c, b, rfl⟩ := List.exists_cons_of_ne_nil (l := b) (by rintro rfl; cases hb)
        have hlength := congrArg List.length htext
        rw [List.length_drop, List.length_take, List.length_append, List.length_cons] at hlength
        have hrest : (line.take continuationColumn).drop (column + a.length) = c :: b := by
          rw [← List.drop_drop, htext, List.drop_left]
        have hword' : glyphsFrom row (column + a.length) (line :: rest) = word ++ after := by
          rw [glyphsFrom, hrest, ← hb, h']
        have hhead : (word.head hword).pos = ⟨row, column + a.length⟩ := by
          obtain ⟨w, ws, rfl⟩ := List.exists_cons_of_ne_nil hword
          rw [List.head_cons, (List.cons.inj h').1, (List.cons.inj hb).1]
        obtain ⟨hrow, htext⟩ := textThrough?_of_first hlong (by omega) hword hword'
        rw [hhead, Nat.sub_self]
        exact ⟨Nat.le_refl _, hrow, htext⟩

end Texts

/-! ### Fields cut out of glyphs -/

/-- The fields are pieces of the glyphs, one behind the other; an empty one stands where some glyph is that no field in
front of it has taken. -/
inductive Cuts : List Glyph → List Field → Prop
  | nil (glyphs : List Glyph) : Cuts glyphs []
  | field {word back : List Glyph} {f : Field} {fields : List Field} (front : List Glyph)
      (hf : fieldOf? word.reverse = some f) (hback : Cuts back fields) : Cuts (front ++ word ++ back) (f :: fields)
  | empty {g : Glyph} {back : List Glyph} {fields : List Field} (front : List Glyph) (hback : Cuts (g :: back) fields) :
      Cuts (front ++ g :: back) (⟨[], g.span⟩ :: fields)

theorem exists_of_fieldOf? {word : List Glyph} {f : Field} (h : fieldOf? word.reverse = some f) :
    ∃ hword : word ≠ [], f = ⟨glyphChars word, (word.head hword).pos, (word.getLast hword).span.stop⟩ := by
  have hword : word ≠ [] := by rintro rfl; cases h
  refine ⟨hword, ?_⟩
  obtain ⟨g, earlier, hreverse⟩ := List.exists_cons_of_ne_nil (mt List.reverse_eq_nil_iff.1 hword)
  obtain rfl : word = earlier.reverse ++ [g] := by
    rw [← List.reverse_reverse word, hreverse, List.reverse_cons]
  rw [hreverse, fieldOf?, Option.some_inj] at h
  subst h
  simp [glyphChars, List.head_eq_getLast_reverse]

namespace Cuts

variable {glyphs : List Glyph} {fields : List Field}

theorem behind (h : Cuts glyphs fields) (before : List Glyph) : Cuts (before ++ glyphs) fields := by
  cases h with
  | nil => exact .nil _
  | field front hf hback =>
    rw [← List.append_assoc, ← List.append_assoc]
    exact .field (before ++ front) hf hback
  | empty front hback =>
    rw [← List.append_assoc]
    exact .empty (before ++ front) hback

theorem inFront (h : Cuts glyphs fields) (after : List Glyph) : Cuts (glyphs ++ after) fields := by
  induction h with
  | nil => exact .nil _
  | field front hf _ ih =>
    rw [List.append_assoc]
    exact .field front hf ih
  | empty front _ ih =>
    rw [List.append_assoc]
    exact .empty front ih

theorem pending (earlier : List Glyph) (h : Cuts glyphs fields) :
    Cuts (earlier.reverse ++ glyphs) ((fieldOf? earlier).toList ++ fields) := by
  cases earlier with
  | nil => exact h
  | cons g earlier => exact @field (g :: earlier).reverse _ _ _ [] (by rw [List.reverse_reverse]; rfl) h

/-- A field begins with one glyph and ends with one. -/
theorem ends_of_mem (h : Cuts glyphs fields) {f : Field} (hf : f ∈ fields) :
    ∃ first ∈ glyphs, ∃ last ∈ glyphs, f.span = ⟨first.pos, last.span.stop⟩ := by
  induction h with
  | nil => cases hf
  | @field word back f' fields front hword _ ih =>
    rcases List.mem_cons.1 hf with rfl | hf
    · obtain ⟨hne, rfl⟩ := exists_of_fieldOf? hword
      exact ⟨word.head hne, by simp, word.getLast hne, by simp, rfl⟩
    · obtain ⟨first, hfirst, last, hlast, hspan⟩ := ih hf
      exact ⟨first, List.mem_append_right _ hfirst, last, List.mem_append_right _ hlast, hspan⟩
  | @empty g back fields front _ ih =>
    rcases List.mem_cons.1 hf with rfl | hf
    · exact ⟨g, by simp, g, by simp, rfl⟩
    · obtain ⟨first, hfirst, last, hlast, hspan⟩ := ih hf
      exact ⟨first, List.mem_append_right _ hfirst, last, List.mem_append_right _ hlast, hspan⟩

/-- A field with a text is a piece of the glyphs. -/
theorem word_of_mem (h : Cuts glyphs fields) {f : Field} (hf : f ∈ fields) (htext : f.text ≠ []) :
    ∃ before word after, glyphs = before ++ word ++ after ∧ fieldOf? word.reverse = some f := by
  induction h with
  | nil => cases hf
  | @field word back f' fields front hword _ ih =>
    rcases List.mem_cons.1 hf with rfl | hf
    · exact ⟨front, word, back, rfl, hword⟩
    · obtain ⟨before, word', after, rfl, hword'⟩ := ih hf
      exact ⟨front ++ word ++ before, word', after, by simp, hword'⟩
  | @empty g back fields front _ ih =>
    rcases List.mem_cons.1 hf with rfl | hf
    · exact absurd rfl htext
    · obtain ⟨before, word', after, hback, hword'⟩ := ih hf
      exact ⟨front ++ before, word', after, by simp [hback], hword'⟩

/-- A field with a text ends before all fields behind it begin. -/
theorem pairwise_stop_le (h : Cuts glyphs fields)
    (hglyphs : glyphs.Pairwise fun g g' => g.span.stop ≤ g'.pos) :
    fields.Pairwise fun f f' => f.text ≠ [] → f.span.stop ≤ f'.span.start := by
  induction h with
  | nil => exact .nil
  | @field word back f fields front hword hback ih =>
    obtain ⟨-, hrest, hbefore⟩ := List.pairwise_append.1 hglyphs
    refine List.pairwise_cons.2 ⟨fun f' hf' _ => ?_, ih hrest⟩
    obtain ⟨hne, rfl⟩ := exists_of_fieldOf? hword
    obtain ⟨first, hfirst, last, -, hspan⟩ := hback.ends_of_mem hf'
    rw [hspan]
    exact hbefore _ (List.mem_append_right _ (List.getLast_mem hne)) _ hfirst
  | empty front _ ih =>
    exact List.pairwise_cons.2 ⟨fun _ _ htext => absurd rfl htext, ih (List.pairwise_append.1 hglyphs).2.1⟩

end Cuts

/-! ### Reading a statement -/

theorem cellGlyphs_takeWord (taken : List Glyph) (cells : List Cell) :
    taken.reverse ++ cellGlyphs cells = (takeWord taken cells).1.reverse ++ cellGlyphs (takeWord taken cells).2 := by
  fun_induction takeWord taken cells with
  | case1 => rfl
  | case2 _ _ ih => exact ih
  | case3 => rfl
  | case4 _ _ _ _ ih => rw [← ih]; simp

theorem cellGlyphs_dropSpaces (cells : List Cell) :
    ∃ spaces, cellGlyphs cells = spaces ++ cellGlyphs (dropSpaces cells) := by
  fun_induction dropSpaces cells with
  | case1 => exact ⟨[], rfl⟩
  | case2 _ ih => exact ih
  | case3 g _ _ ih =>
    obtain ⟨spaces, ih⟩ := ih
    exact ⟨g :: spaces, by rw [cellGlyphs_glyph, ih]; rfl⟩
  | case4 => exact ⟨[], rfl⟩

theorem Nesting.after_comma (n : Nesting) (before : List Char) (next : Option Char) : n.after before ',' next = n := by
  unfold Nesting.after
  simp

namespace OperandScan

/-- The operands that are complete take up `front`: whatever is cut out behind it comes behind them. -/
def Completes (s : OperandScan) (front : List Glyph) : Prop :=
  ∀ back fields, Cuts back fields → Cuts (front ++ back) (s.operands.reverse ++ fields)

/-- What holds of a scan that has passed the glyphs `passed`: the complete operands and the one that is being read are
cut out of them.  No operand is being read between the pieces of a field, and none directly behind a comma outside of
quotes and parentheses; there the last glyph is left for an empty operand. -/
structure Cutting (passed : List Glyph) (mode : ScanMode) (s : OperandScan) : Prop where
  operands : ∃ front, passed = front ++ s.current.reverse ∧ s.Completes front
  between : mode ≠ .reading → s.current = []
  comma : s.passed.head? = some ',' → s.nesting.isClosed → s.current = []
  last : s.current = [] → s.field ≠ [] → ∃ front g, s.last = some g ∧ passed = front ++ [g] ∧
    ∀ back fields, Cuts (g :: back) fields → Cuts (front ++ g :: back) (s.operands.reverse ++ fields)

theorem Completes.more {s : OperandScan} {front : List Glyph} (h : s.Completes front) (more : List Glyph) :
    s.Completes (front ++ more) := by
  intro back fields hback
  rw [List.append_assoc]
  exact h _ _ (hback.behind more)

theorem Cutting.pass {passed : List Glyph} {mode : ScanMode} {s : OperandScan} (h : s.Cutting passed mode)
    (hcurrent : s.current = []) (mode' : ScanMode) (g : Glyph) : (s.pass g).Cutting (passed ++ [g]) mode' := by
  obtain ⟨front, rfl, hfront⟩ := h.operands
  rw [hcurrent, List.reverse_nil, List.append_nil]
  exact {
    operands := ⟨front ++ [g], by simp [OperandScan.pass, hcurrent], hfront.more [g]⟩
    between := fun _ => hcurrent
    comma := fun _ _ => hcurrent
    last := fun _ _ => ⟨front, g, rfl, rfl, fun back fields hback => hfront _ _ hback⟩ }

theorem Cutting.take {passed : List Glyph} {mode : ScanMode} {s : OperandScan} (h : s.Cutting passed mode) (g : Glyph)
    (next : Option Char) : (s.take g next).Cutting (passed ++ [g]) .reading := by
  obtain ⟨front, rfl, hfront⟩ := h.operands
  unfold OperandScan.take
  by_cases hc : g.char = ',' ∧ s.nesting.isClosed = true
  · rw [if_pos hc]
    have hcompletes : ∀ back fields, Cuts (g :: back) fields →
        Cuts (front ++ s.current.reverse ++ g :: back) ((s.complete g.span).operands.reverse ++ fields) := by
      intro back fields hback
      simp only [OperandScan.complete, List.reverse_cons, List.append_assoc, List.singleton_append]
      apply hfront
      cases hcurrent : s.current with
      | nil => exact .empty [] hback
      | cons c earlier =>
        exact Cuts.pending (c :: earlier) hback
    exact {
      operands := by
        refine ⟨front ++ s.current.reverse ++ [g], by simp [OperandScan.pass, OperandScan.complete], ?_⟩
        intro back fields hback
        rw [List.append_assoc]
        exact hcompletes back fields (hback.behind [g])
      between := fun hmode => absurd rfl hmode
      comma := fun _ _ => rfl
      last := fun _ _ => ⟨front ++ s.current.reverse, g, rfl, rfl, hcompletes⟩ }
  · rw [if_neg hc]
    exact {
      operands := ⟨front, by simp [OperandScan.pass], hfront⟩
      between := fun hmode => absurd rfl hmode
      comma := by
        intro hcomma hclosed
        have hchar : g.char = ',' := by simpa [OperandScan.pass] using hcomma
        refine absurd ⟨hchar, ?_⟩ hc
        simpa [OperandScan.pass, hchar, Nesting.after_comma] using hclosed
      last := fun hcurrent => by cases hcurrent }

theorem Cutting.result {passed : List Glyph} {mode : ScanMode} {s : OperandScan} (h : s.Cutting passed mode) :
    Cuts passed s.result := by
  obtain ⟨front, hpassed, hfront⟩ := h.operands
  unfold OperandScan.result
  cases hcurrent : s.current with
  | cons c earlier =>
    subst hpassed
    rw [hcurrent]
    have hlast := Cuts.pending (c :: earlier) (.nil [])
    rw [List.append_nil, List.append_nil] at hlast
    simpa [fieldOf?] using hfront _ _ hlast
  | nil =>
    have hoperands : Cuts passed s.operands.reverse := by
      simpa [hpassed, hcurrent] using hfront [] [] (.nil [])
    cases hfield : s.field with
    | nil => exact hoperands
    | cons f fs =>
      obtain ⟨front, g, hlast, rfl, hcuts⟩ := h.last hcurrent (by simp [hfield])
      rw [hlast]
      show Cuts _ ((_ :: s.operands).reverse)
      rw [List.reverse_cons]
      exact hcuts [] _ (.empty [] (.nil _))

/-- The operands are cut out of the glyphs that the scan passes. -/
theorem cuts_scan {passed : List Glyph} {mode : ScanMode} {s : OperandScan} (cells : List Cell)
    (h : s.Cutting passed mode) : Cuts (passed ++ cellGlyphs cells) (scan mode s cells).1.result := by
  fun_induction scan mode s cells generalizing passed with
  | case1 mode s => simpa using h.result
  | case2 mode s rest ih =>
    refine ih { h with between := fun hmode => h.between ?_ }
    rintro rfl
    exact hmode rfl
  | case3 s g rest ih =>
    have := ih (h.pass (h.between (by decide)) .seekingLine g)
    rwa [List.append_assoc] at this
  | case4 s g rest mode hmode hblank ih =>
    have := ih (h.pass (h.between (by rw [hblank.1]; decide)) .resuming g)
    rwa [List.append_assoc] at this
  | case5 s g rest mode hmode hblank hends hresumes ih =>
    have hclosed : s.nesting.isClosed = true := by simp [endsAt] at hends; exact hends.2
    have hcomma : s.passed.head? = some ',' := by simpa [mayResume] using hresumes.1
    have := ih (h.pass (h.comma hcomma hclosed) .seekingLine g)
    rwa [List.append_assoc] at this
  | case6 s g rest mode hmode hblank hends hstays =>
    exact h.result.inFront _
  | case7 s g rest mode hmode hblank hends ih =>
    have := ih (h.take g (nextChar? rest))
    rwa [List.append_assoc] at this

end OperandScan

/-- The label, the instruction and the operands of a statement. -/
def Statement.fields (s : Statement) : List Field := s.label.toList ++ (s.instruction.toList ++ s.operands)

/-- A word that a statement begins with is cut out of the glyphs, and so is what comes behind it. -/
theorem Cuts.word {cells : List Cell} {fields : List Field} (h : Cuts (cellGlyphs (takeWord [] cells).2) fields) :
    Cuts (cellGlyphs cells) ((fieldOf? (takeWord [] cells).1).toList ++ fields) := by
  have hglyphs : cellGlyphs cells = _ := cellGlyphs_takeWord [] cells
  rw [hglyphs]
  exact h.pending _

theorem Cuts.spaces {cells : List Cell} {fields : List Field} (h : Cuts (cellGlyphs (dropSpaces cells)) fields) :
    Cuts (cellGlyphs cells) fields := by
  obtain ⟨spaces, hglyphs⟩ := cellGlyphs_dropSpaces cells
  rw [hglyphs]
  exact h.behind spaces

/-- The fields of a statement are cut out of its characters. -/
theorem cuts_statement (cells : List Cell) (span : Span) : Cuts (cellGlyphs cells) (statementOf cells span).fields := by
  have hempty : ({} : OperandScan).Cutting [] .reading :=
    { operands := ⟨[], rfl, fun _ _ h => h⟩
      between := fun h => absurd rfl h
      comma := fun h => by cases h
      last := fun _ h => absurd rfl h }
  have hoperands := OperandScan.cuts_scan (operandCells cells) hempty
  exact .word (.spaces (.word (.spaces hoperands)))

/-! ### Every statement of a source -/

/-- The ranges of the fields of a statement, in the given lines. -/
structure Statement.RangesIn (lines : List (List Char)) (s : Statement) : Prop where
  /-- the text of a field is what the lines hold in its range -/
  text : ∀ f ∈ s.fields, f.text ≠ [] → textAt? lines f.span = some f.text
  label_instruction : ∀ l ∈ s.label, ∀ i ∈ s.instruction, l.span.stop ≤ i.span.start
  instruction_operands : ∀ i ∈ s.instruction, ∀ o ∈ s.operands.head?, i.span.stop ≤ o.span.start
  operands : s.operands.Pairwise fun o o' => o.text ≠ [] → o.span.stop ≤ o'.span.start
  inside : ∀ f ∈ s.fields, s.span.start ≤ f.span.start ∧ f.span.stop ≤ s.span.stop
  lines : s.span.start.line ≤ s.span.stop.line ∧ s.span.stop.line < lines.length

theorem text_ne_nil_of_fieldOf? {glyphs : List Glyph} {f : Field} (h : f ∈ fieldOf? glyphs) : f.text ≠ [] := by
  cases glyphs with
  | nil => cases h
  | cons g earlier =>
    rw [fieldOf?, Option.mem_some] at h
    subst h
    simp

/-- The text of a field is found where its range says. -/
theorem textAt?_of_cuts {lines : List (List Char)} {row : Nat} {piece : List (List Char)} {fields : List Field}
    (hpiece : piece <+: lines.drop row) (hcontinued : ∀ line ∈ piece.dropLast, isContinued line)
    (hcuts : Cuts (glyphsFrom row 0 piece) fields) {f : Field} (hf : f ∈ fields) (htext : f.text ≠ []) :
    textAt? lines f.span = some f.text := by
  have hlong : ∀ line ∈ piece.dropLast, continuationColumn ≤ line.length := by
    intro line hline
    have := hcontinued line hline
    unfold isContinued at this
    split at this
    · next hc => exact Nat.le_of_lt (List.getElem?_eq_some_iff.1 hc).1
    · cases this
  obtain ⟨before, word, after, hglyphs, hword⟩ := hcuts.word_of_mem hf htext
  obtain ⟨hne, rfl⟩ := exists_of_fieldOf? hword
  obtain ⟨hrow, hlines, hthrough⟩ := textThrough?_of_infix hlong hne hglyphs
  have hbegins : piece.drop ((word.head hne).pos.line - row) <+: lines.drop (word.head hne).pos.line := by
    rw [← Nat.add_sub_of_le hrow, Nat.add_sub_cancel_left, ← List.drop_drop]
    exact List.IsPrefix.drop hpiece _
  refine (if_pos hlines).trans ?_
  exact textThrough?_of_prefix hbegins hthrough

theorem cuts_fields (row : Nat) (piece : List (List Char)) (span : Span) :
    Cuts (glyphsFrom row 0 piece) (statementOf (statementCells (numbered row piece)) span).fields := by
  rw [← cellGlyphs_statementCells]
  exact cuts_statement _ _

theorem rangesIn_statement {lines : List (List Char)} {row : Nat} {piece : List (List Char)} (hne : piece ≠ [])
    (hpiece : piece <+: lines.drop row) (hcontinued : ∀ line ∈ piece.dropLast, isContinued line) :
    (statementOf (statementCells (numbered row piece)) (linesSpan (numbered row piece))).RangesIn lines := by
  obtain ⟨s, hs⟩ : ∃ s, s = statementOf (statementCells (numbered row piece)) (linesSpan (numbered row piece)) :=
    ⟨_, rfl⟩
  have hcuts : Cuts (glyphsFrom row 0 piece) s.fields := hs ▸ cuts_fields row piece _
  have hspan : s.span = ⟨⟨row, 0⟩, row + (piece.length - 1), (piece.getLast hne).length⟩ := by
    rw [hs]
    exact linesSpan_numbered row hne
  have hordered := hcuts.pairwise_stop_le (pairwise_glyphsFrom row 0 piece)
  have hlength := hpiece.length_le
  rw [List.length_drop] at hlength
  have hpositive := List.length_pos_iff.2 hne
  rw [Statement.fields, List.pairwise_append, List.pairwise_append] at hordered
  obtain ⟨-, ⟨-, hoperands, hinstruction⟩, hlabel⟩ := hordered
  rw [← hs]
  refine ⟨fun f hf htext => textAt?_of_cuts hpiece hcontinued hcuts hf htext, ?_, ?_, hoperands, ?_, ?_⟩
  · intro l hl i hi
    refine hlabel l (by simpa using hl) i (List.mem_append_left _ (by simpa using hi)) ?_
    rw [hs] at hl
    exact text_ne_nil_of_fieldOf? hl
  · intro i hi o ho
    refine hinstruction i (by simpa using hi) o (List.mem_of_mem_head? ho) ?_
    rw [hs] at hi
    exact text_ne_nil_of_fieldOf? hi
  · intro f hf
    obtain ⟨first, hfirst, last, hlast, hf⟩ := hcuts.ends_of_mem hf
    rw [hf, hspan]
    refine ⟨?_, stop_of_mem_glyphsFrom hne hlast⟩
    rw [Position.le_def]
    have := line_of_mem_glyphsFrom hfirst
    simp only [Nat.zero_le, and_true]
    omega
  · rw [hspan]
    simp only
    omega

/-- A statement of a source is made up of lines that follow one another. -/
theorem exists_piece_of_mem {source : List Char} {s : Statement} (hs : s ∈ statementsOf source) :
    ∃ row piece, piece ≠ [] ∧ piece <+: (recordLines source).drop row ∧ (∀ line ∈ piece.dropLast, isContinued line) ∧
      s = statementOf (statementCells (numbered row piece)) (linesSpan (numbered row piece)) := by
  obtain ⟨group, hgroup, rfl⟩ := List.mem_map.1 hs
  obtain ⟨row, piece, rfl, hpiece, hne, hcontinued⟩ := (laid_statementLines 0 (recordLines source)).piece_of_mem hgroup
  exact ⟨row, piece, hne, hpiece, hcontinued, by rw [Nat.zero_add]⟩

section

variable {source : List Char} {s : Statement}

theorem rangesIn_of_mem (hs : s ∈ statementsOf source) : s.RangesIn (recordLines source) := by
  obtain ⟨row, piece, hne, hpiece, hcontinued, rfl⟩ := exists_piece_of_mem hs
  exact rangesIn_statement hne hpiece hcontinued

/-- A field that is not empty ends before the fields behind it begin. -/
theorem pairwise_fields_of_mem (hs : s ∈ statementsOf source) :
    s.fields.Pairwise fun f f' => f.text ≠ [] → f.span.stop ≤ f'.span.start := by
  obtain ⟨row, piece, -, -, -, rfl⟩ := exists_piece_of_mem hs
  exact (cuts_fields row piece _).pairwise_stop_le (pairwise_glyphsFrom row 0 piece)

/-- The statements of a source follow one another. -/
theorem pairwise_line_lt_statementsOf (source : List Char) :
    (statementsOf source).Pairwise fun s t => s.span.stop.line < t.span.start.line := by
  have hlaid := laid_statementLines 0 (recordLines source)
  refine List.pairwise_map.2 (hlaid.pairwise_row_lt.imp_of_mem fun {group group'} hgroup hgroup' hlt => ?_)
  obtain ⟨row, piece, rfl, -, hne, -⟩ := hlaid.piece_of_mem hgroup
  obtain ⟨row', piece', rfl, -, hne', -⟩ := hlaid.piece_of_mem hgroup'
  have hpositive := List.length_pos_iff.2 hne
  obtain ⟨last, hlast, hstop⟩ := row_numbered (0 + row) (Nat.sub_one_lt_of_lt hpositive)
  obtain ⟨first, hfirst, hstart⟩ := row_numbered (0 + row') (List.length_pos_iff.2 hne')
  have := hlt last hlast first hfirst
  rw [hstop, hstart] at this
  show (linesSpan (numbered (0 + row) piece)).stop.line < (linesSpan (numbered (0 + row') piece')).start.line
  rw [linesSpan_numbered _ hne, linesSpan_numbered _ hne']
  exact this

end

/-- **The fields of every statement stand where their ranges say**: in every source, the text of a field is what the
lines hold there, the fields follow one another within the lines of their statement, and the statements take up all
lines in turn but comments and blank lines. -/
theorem fields_in_their_ranges (source : List Char) :
    (∀ s ∈ statementsOf source, s.RangesIn (recordLines source)) ∧
      (statementsOf source).Pairwise (fun s t => s.span.stop.line < t.span.start.line) ∧
      ∀ i, (hi : i < (recordLines source).length) →
        (∀ s ∈ statementsOf source, ¬(s.span.start.line ≤ i ∧ i ≤ s.span.stop.line)) →
          isComment (recordLines source)[i] ∨ Text.isBlankLine (recordLines source)[i] := by
  refine ⟨fun s hs => rangesIn_of_mem hs, pairwise_line_lt_statementsOf source, fun i hi hnone => ?_⟩
  have hlaid := laid_statementLines 0 (recordLines source)
  refine hlaid.comment_or_blank hi fun group hgroup m hm hrow => ?_
  obtain ⟨row, piece, rfl, -, hne, -⟩ := hlaid.piece_of_mem hgroup
  have hm := mem_numbered hm
  refine hnone _ (List.mem_map.2 ⟨_, hgroup, rfl⟩) ?_
  show (linesSpan (numbered (0 + row) piece)).start.line ≤ i ∧ i ≤ (linesSpan (numbered (0 + row) piece)).stop.line
  rw [linesSpan_numbered _ hne]
  simp only
  omega

/-- An operand that fills its line up to the continuation column and ends in the next line. -/
example :
    let source := " DC X'".toList ++ List.replicate 65 '0' ++ "X\n               1'".toList
    (statementsOf source).map (fun s => s.operands.map Field.span) = [[⟨⟨0, 4⟩, 1, 17⟩]] ∧
      textAt? (recordLines source) ⟨⟨0, 4⟩, 1, 17⟩ = some ("X'".toList ++ List.replicate 65 '0' ++ "1'".toList) := by
  decide +kernel

end AssemblerIndex
