import AssemblerIndex.Proofs.Statement.FieldRanges

/-!
# The layout of operand lists

An operand list may be broken after any of its commas and go on in the continue column of the next line, with a remark
in between.

* `IsOperand text` — the text is one operand: quotes and parentheses are balanced, and commas and spaces stand only
  inside of them;
* `Heading` — what stands in front of the operands;
* `Broken margin pieces lines` — the lines hold the pieces of an operand list;
* `OperandScan.Awaits`, `OperandScan.Reads` — where a scan stands in front of an operand and behind one;
* `operands_of_broken` — **wherever the list is broken, the statement has its operands**.  `blank_line_is_no_statement`
  shows why its first line must not be blank.
-/

namespace AssemblerIndex

/-! ### Operands -/

/-- Behind `before`, where `n` is open, the text keeps commas, spaces and closing parentheses inside of what is open,
and leaves nothing open at its end. -/
def staysWhole (n : Nesting) (before : List Char) : List Char → Bool
  | [] => n.isClosed
  | c :: rest =>
    !(n.isClosed && (c == ',' || c == ' ' || c == ')')) && staysWhole (n.after before c rest.head?) (c :: before) rest

/-- The text is one operand. -/
def IsOperand (text : List Char) : Prop := text ≠ [] ∧ staysWhole {} [] text = true

instance (text : List Char) : Decidable (IsOperand text) := inferInstanceAs (Decidable (_ ∧ _))

theorem IsOperand.exists_cons {text : List Char} (h : IsOperand text) : ∃ c rest, text = c :: rest ∧ c ≠ ' ' := by
  obtain ⟨hne, hwhole⟩ := h
  obtain ⟨c, rest, rfl⟩ := List.exists_cons_of_ne_nil hne
  refine ⟨c, rest, rfl, ?_⟩
  rintro rfl
  simp [staysWhole, Nesting.isClosed] at hwhole

/-! ### Lines -/

/-- What stands in front of the operands: a label from the first column on, unless it is left out, and an instruction,
with spaces behind both. -/
structure Heading where
  label : Option (List Char)
  instruction : List Char
  /-- the spaces behind the label, less one -/
  gap : Nat
  /-- the spaces behind the instruction, less one -/
  gap' : Nat
  label_word : ∀ l ∈ label, l ≠ [] ∧ ' ' ∉ l
  instruction_word : instruction ≠ [] ∧ ' ' ∉ instruction

/-- The heading as it is written. -/
def Heading.text (h : Heading) : List Char :=
  h.label.getD [] ++ (List.replicate (h.gap + 1) ' ' ++ (h.instruction ++ List.replicate (h.gap' + 1) ' '))

/-- Operands with commas between them. -/
def listed (operands : List (List Char)) : List Char := [','].intercalate operands

theorem listed_singleton (o : List Char) : listed [o] = o := List.intercalate_singleton

theorem listed_cons_cons (o o' : List Char) (operands : List (List Char)) :
    listed (o :: o' :: operands) = o ++ ',' :: listed (o' :: operands) := by
  simp [listed, List.intercalate_cons_cons]

/-- The lines that hold the pieces of an operand list, the first of them behind `margin`.  A line is broken behind a
comma; up to the continuation column there may be a remark between spaces.  Behind the last piece there may be a remark,
too. -/
inductive Broken : List Char → List (List (List Char)) → List (List Char) → Prop
  | last (margin : List Char) (operands : List (List Char)) (remark : List Char) (hoperands : operands ≠ [])
      (hremark : ∀ c ∈ remark.head?, c = ' ')
      (hlength : (margin ++ (listed operands ++ remark)).length ≤ continuationColumn) :
      Broken margin [operands] [margin ++ (listed operands ++ remark)]
  | more (margin : List Char) (operands : List (List Char)) (tail : List Char) (mark : Char) (behind : List Char)
      {margin' : List Char} {pieces : List (List (List Char))} {lines : List (List Char)} (hoperands : operands ≠ [])
      (hfirst : ∀ c ∈ tail.head?, c = ' ') (hlast : ∀ c ∈ tail.getLast?, c = ' ')
      (hlength : (margin ++ (listed operands ++ ',' :: tail)).length = continuationColumn) (hmark : mark ≠ ' ')
      (hmargin : margin'.length = continueColumn) (hrest : Broken margin' pieces lines) :
      Broken margin (operands :: pieces) ((margin ++ (listed operands ++ ',' :: tail) ++ mark :: behind) :: lines)

section

variable {margin : List Char} {pieces : List (List (List Char))} {lines : List (List Char)}

theorem Broken.ne_nil (h : Broken margin pieces lines) : lines ≠ [] := by cases h <;> simp

theorem isContinued_of_length {front behind : List Char} {mark : Char} (h : front.length = continuationColumn)
    (hmark : mark ≠ ' ') : isContinued (front ++ mark :: behind) = true := by
  simp [isContinued, ← h, hmark]

/-- All lines belong to a statement that is continued in the first of them. -/
theorem Broken.statementLines_some (h : Broken margin pieces lines) (row : Nat) (earlier : List NumberedLine) :
    statementLines row (some earlier) lines = [earlier.reverse ++ numbered row lines] := by
  induction h generalizing row earlier with
  | last => simp [statementLines, numbered]
  | more _ _ _ _ _ _ _ _ hlength hmark _ hrest ih =>
    rw [statementLines, isContinued_of_length hlength hmark]
    simp [hrest.ne_nil, ih, numbered]

/-- The lines make up one statement, unless the first of them is skipped. -/
theorem Broken.statementLines_none (h : Broken margin pieces lines) (row : Nat)
    (hfirst : ∀ line ∈ lines.head?, ¬isComment line ∧ ¬Text.isBlankLine line) :
    statementLines row none lines = [numbered row lines] := by
  cases h with
  | last =>
    rw [statementLines, if_neg (by simpa using hfirst _ rfl)]
    simp [statementLines, numbered]
  | more _ _ _ _ _ _ _ _ hlength hmark _ hrest =>
    rw [statementLines, if_neg (by simpa using hfirst _ rfl), isContinued_of_length hlength hmark]
    simp [hrest.ne_nil, hrest.statementLines_some, numbered]

end

/-! ### Cells of lines -/

theorem cellsFrom_append (row column : Nat) (a b : List Char) :
    cellsFrom row column (a ++ b) = cellsFrom row column a ++ cellsFrom row (column + a.length) b := by
  induction a generalizing column with
  | nil => rfl
  | cons c a ih => simp [cellsFrom, ih, Nat.add_assoc, Nat.add_comm 1]

/-- The cells of the lines of a statement, those of the first line from a column on. -/
def cellsBehind (row column : Nat) : List (List Char) → List Cell
  | [] => []
  | line :: rest =>
    cellsFrom row column ((line.take continuationColumn).drop column) ++
      (numbered (row + 1) rest).flatMap continuedCells

theorem cellsBehind_append {margin text : List Char} (row : Nat) (rest : List (List Char)) (behind : List Char)
    (h : (margin ++ text).length ≤ continuationColumn)
    (hbehind : behind ≠ [] → (margin ++ text).length = continuationColumn) :
    cellsBehind row margin.length ((margin ++ text ++ behind) :: rest) =
      cellsFrom row margin.length text ++ (numbered (row + 1) rest).flatMap continuedCells := by
  have htake : (margin ++ text ++ behind).take continuationColumn = margin ++ text := by
    cases behind with
    | nil => rw [List.append_nil, List.take_of_length_le h]
    | cons c behind => rw [← hbehind (List.cons_ne_nil c behind), List.take_left]
  rw [cellsBehind, htake, List.drop_left]

theorem flatMap_continuedCells (row : Nat) {lines : List (List Char)} (h : lines ≠ []) :
    (numbered row lines).flatMap continuedCells = .lineStart :: cellsBehind row continueColumn lines := by
  obtain ⟨line, rest, rfl⟩ := List.exists_cons_of_ne_nil h
  rfl

theorem statementCells_broken {margin : List Char} {pieces : List (List (List Char))} {lines : List (List Char)}
    (h : Broken margin pieces lines) (row : Nat) :
    statementCells (numbered row lines) = cellsFrom row 0 margin ++ cellsBehind row margin.length lines := by
  have hcells : ∀ (text behind : List Char) (rest : List (List Char)),
      (margin ++ text).length ≤ continuationColumn →
      statementCells (numbered row ((margin ++ text ++ behind) :: rest)) =
        cellsFrom row 0 margin ++ cellsBehind row margin.length ((margin ++ text ++ behind) :: rest) := by
    intro text behind rest hlength
    rw [List.length_append] at hlength
    obtain ⟨n, hn⟩ := Nat.exists_eq_add_of_le (Nat.le_of_add_right_le hlength)
    have htake : (margin ++ text ++ behind).take continuationColumn = margin ++ (text ++ behind).take n := by
      rw [List.append_assoc, hn, List.take_length_add_append]
    simp only [numbered, statementCells, cellsBehind, htake, List.drop_left]
    rw [cellsFrom_append, Nat.zero_add, List.append_assoc]
  cases h with
  | last _ _ _ _ _ hlength => simpa using hcells _ [] [] hlength
  | more _ _ _ _ _ _ _ _ hlength => exact hcells _ _ _ (Nat.le_of_eq hlength)

theorem nextChar?_cellsFrom_append (row column : Nat) (text : List Char) (rest : List Cell) :
    nextChar? (cellsFrom row column text ++ rest) = text.head?.or (nextChar? rest) := by
  cases text <;> rfl

theorem not_lineStart_mem_cellsFrom (row column : Nat) (text : List Char) :
    Cell.lineStart ∉ cellsFrom row column text := by
  induction text generalizing column with
  | nil => simp [cellsFrom]
  | cons c text ih => simp [cellsFrom, ih]

/-! ### Words -/

theorem takeWord_word (row column : Nat) {word : List Char} (h : ' ' ∉ word) (taken : List Glyph) (rest : List Cell) :
    takeWord taken (cellsFrom row column word ++ rest) =
      takeWord ((lineGlyphs row column word).reverse ++ taken) rest := by
  induction word generalizing column taken with
  | nil => rfl
  | cons c word ih =>
    obtain ⟨hc, hword⟩ : c ≠ ' ' ∧ ' ' ∉ word := by simpa [eq_comm] using h
    simp [cellsFrom, takeWord, hc, ih _ hword]

theorem takeWord_spaces (row column n : Nat) (taken : List Glyph) (rest : List Cell) :
    takeWord taken (cellsFrom row column (List.replicate (n + 1) ' ') ++ rest) =
      (taken, cellsFrom row column (List.replicate (n + 1) ' ') ++ rest) := by
  simp [List.replicate_succ, cellsFrom, takeWord]

theorem dropSpaces_spaces (row column n : Nat) (rest : List Cell) :
    dropSpaces (cellsFrom row column (List.replicate n ' ') ++ rest) = dropSpaces rest := by
  induction n generalizing column with
  | zero => rfl
  | succ n ih => simp [List.replicate_succ, cellsFrom, dropSpaces, ih]

theorem text_fieldOf?_lineGlyphs (row column : Nat) {word : List Char} (h : word ≠ []) :
    (fieldOf? (lineGlyphs row column word).reverse).map Field.text = some word := by
  have htext : fieldText (fieldOf? (lineGlyphs row column word).reverse) = word := by
    rw [fieldText_fieldOf?, glyphChars, List.map_reverse, List.reverse_reverse]
    exact glyphChars_lineGlyphs row column word
  cases hfield : fieldOf? (lineGlyphs row column word).reverse with
  | none => rw [hfield] at htext; exact absurd htext.symm h
  | some f => rw [hfield] at htext; exact congrArg some htext

namespace OperandScan

/-! ### Scanning operands -/

/-- The scan stands in front of an operand; the texts are those of the operands before. -/
structure Awaits (s : OperandScan) (texts : List (List Char)) : Prop where
  nesting : s.nesting = {}
  current : s.current = []
  operands : s.operands.map Field.text = texts.reverse
  passed : ∀ c ∈ s.passed.head?, c = ',' ∨ c = ' '

/-- The scan stands behind an operand; the texts are those of the operands through it. -/
structure Reads (s : OperandScan) (texts : List (List Char)) : Prop where
  nesting : s.nesting = {}
  current : s.current ≠ []
  operands : (glyphChars s.current).reverse :: s.operands.map Field.text = texts.reverse

theorem Reads.map_text_result {s : OperandScan} {texts : List (List Char)} (h : s.Reads texts) :
    s.result.map Field.text = texts := by
  obtain ⟨g, earlier, hcurrent⟩ := List.exists_cons_of_ne_nil h.current
  have hoperands := h.operands
  rw [hcurrent] at hoperands
  rw [← List.reverse_reverse texts, ← hoperands]
  simp [OperandScan.result, hcurrent, fieldOf?, glyphChars]

theorem eq_of_isClosed {n : Nesting} (h : n.isClosed = true) : n = {} := by
  obtain ⟨depth, quoted⟩ := n
  simpa [Nesting.isClosed, and_comm] using h

/-- An operand is read behind a comma or a space as at the front of a text. -/
theorem agreed_nil {p : List Char} (h : ∀ c ∈ p.head?, c = ',' ∨ c = ' ') (ahead : List Char) : Agreed p [] ahead := by
  have hundisturbed : ∀ q : List Char, (∀ c ∈ q.head?, c = ',' ∨ c = ' ') → disturbs q ahead = false := by
    intro q hq
    have hquote : ∀ next, isAttributeQuote q next = false := by
      intro next
      cases q with
      | nil => rfl
      | cons c q =>
        have hletter : isAttributeLetter c = false := by rcases hq c rfl with rfl | rfl <;> decide
        cases next <;> simp [isAttributeQuote, hletter]
    have hextends : q.head?.any extendsAttribute = false := by
      cases q with
      | nil => rfl
      | cons c q => rcases hq c rfl with rfl | rfl <;> rfl
    unfold disturbs
    split <;> simp [hquote, hextends]
  intro front rest hahead
  rw [agreed_of_undisturbed (hundisturbed p h) front rest hahead,
    agreed_of_undisturbed (f := p) (hundisturbed [] (by simp)) front rest hahead]

theorem isAttributeQuote_of_next {before : List Char} {next : Option Char}
    (h : ∀ c ∈ next, startsAttributed c = false) : isAttributeQuote before next = false := by
  cases before with
  | nil => rfl
  | cons a before =>
    cases next with
    | none => rfl
    | some c => simp [isAttributeQuote, h c rfl]

/-- What is open behind a character depends on the operand only, if no name starts behind the operand. -/
theorem after_agreed {n : Nesting} {p before text : List Char} {c : Char} (hagreed : Agreed p before (c :: text))
    {next : Option Char} (hnext : ∀ d ∈ next, startsAttributed d = false) :
    n.after p c (text.head?.or next) = n.after before c text.head? := by
  refine Nesting.after_congr fun hc => ?_
  cases text with
  | nil => rw [List.head?_nil, Option.none_or, isAttributeQuote_of_next hnext, isAttributeQuote_of_next (by simp)]
  | cons d text => exact hagreed.here hc

/-- Text that stays whole goes to the operand that is being read. -/
theorem scan_staysWhole {n : Nesting} {before text : List Char} (h : staysWhole n before text = true) {s : OperandScan}
    (hn : s.nesting = n) (hagreed : Agreed s.passed before text) (row column : Nat) {rest : List Cell}
    (hnext : ∀ c ∈ nextChar? rest, startsAttributed c = false) :
    ∃ s', scan .reading s (cellsFrom row column text ++ rest) = scan .reading s' rest ∧ s'.nesting = {} ∧
      glyphChars s'.current = text.reverse ++ glyphChars s.current ∧ s'.operands = s.operands := by
  induction text generalizing n before s column with
  | nil => exact ⟨s, rfl, hn.trans (eq_of_isClosed h), rfl, rfl⟩
  | cons c text ih =>
    rw [staysWhole, Bool.and_eq_true] at h
    obtain ⟨hinside, hwhole⟩ := h
    have hends : s.endsAt ⟨c, row, column⟩ = false := by
      rw [endsAt, hn]
      cases hc : n.isClosed <;> simp [hc] at hinside ⊢
      exact hinside.1.2
    have hcomma : ¬(c = ',' ∧ s.nesting.isClosed = true) := by
      rintro ⟨rfl, hc⟩
      rw [hn] at hc
      simp [hc] at hinside
    have hafter : s.nesting.after s.passed c (nextChar? (cellsFrom row (column + 1) text ++ rest)) =
        n.after before c text.head? := by
      rw [hn, nextChar?_cellsFrom_append]
      exact after_agreed hagreed hnext
    obtain ⟨s', hscan, hnesting, hcurrent, hoperands⟩ :=
      ih hwhole (s := s.take ⟨c, row, column⟩ (nextChar? (cellsFrom row (column + 1) text ++ rest)))
        (by rw [take, if_neg hcomma]; exact hafter) (by rw [passed_take]; exact hagreed.next) (column + 1)
    refine ⟨s', ?_, hnesting, ?_, ?_⟩
    · rw [cellsFrom, List.cons_append, scan_glyph (by decide), if_neg (by simp), hends, if_neg (by simp), hscan]
    · rw [hcurrent, take, if_neg hcomma]
      simp [pass, glyphChars]
    · rw [hoperands, take, if_neg hcomma]
      rfl

theorem scan_resuming {s : OperandScan} {g : Glyph} {rest : List Cell} (h : g.char ≠ ' ') :
    scan .resuming s (.glyph g :: rest) = scan .reading s (.glyph g :: rest) := by
  simp [scan_glyph, h]

/-- An operand is read as a whole. -/
theorem Awaits.scan_operand {s : OperandScan} {texts : List (List Char)} (hs : s.Awaits texts) {text : List Char}
    (h : IsOperand text) {mode : ScanMode} (hmode : mode ≠ .seekingLine) (row column : Nat) (rest : List Cell)
    (hnext : ∀ c ∈ nextChar? rest, startsAttributed c = false) :
    ∃ s', scan mode s (cellsFrom row column text ++ rest) = scan .reading s' rest ∧ s'.Reads (texts ++ [text]) := by
  obtain ⟨s', hscan, hnesting, hcurrent, hoperands⟩ :=
    scan_staysWhole h.2 hs.nesting (agreed_nil hs.passed text) row column hnext
  rw [hs.current] at hcurrent
  have htext : (glyphChars s'.current).reverse = text := by rw [hcurrent]; simp [glyphChars]
  refine ⟨s', ?_, hnesting, ?_, ?_⟩
  · obtain ⟨c, text, rfl, hc⟩ := h.exists_cons
    rw [← hscan]
    cases mode with
    | reading => rfl
    | seekingLine => exact absurd rfl hmode
    | resuming => exact scan_resuming hc
  · intro hnil
    rw [hnil] at htext
    exact h.1 htext.symm
  · rw [htext, hoperands, hs.operands]
    simp

/-- Behind a comma the next operand is awaited. -/
theorem Reads.scan_comma {s : OperandScan} {texts : List (List Char)} (hs : s.Reads texts) (row column : Nat)
    (rest : List Cell) :
    ∃ s', scan .reading s (.glyph ⟨',', row, column⟩ :: rest) = scan .reading s' rest ∧ s'.Awaits texts ∧
      s'.passed.head? = some ',' := by
  have hclosed : s.nesting.isClosed = true := by rw [hs.nesting]; rfl
  refine ⟨s.take ⟨',', row, column⟩ (nextChar? rest), ?_, ⟨?_, ?_, ?_, by simp⟩, by simp⟩
  · rw [scan_glyph (by decide), if_neg (by simp), if_neg (by simp [endsAt])]
  all_goals rw [take, if_pos ⟨rfl, hclosed⟩]
  · exact hs.nesting
  · rfl
  · simpa [complete, pass, getD_fieldOf?_text, glyphChars] using hs.operands

/-- The operands of a line are read one after the other. -/
theorem Awaits.scan_listed {s : OperandScan} {texts : List (List Char)} (hs : s.Awaits texts)
    {operands : List (List Char)} (hne : operands ≠ []) (h : ∀ o ∈ operands, IsOperand o) {mode : ScanMode}
    (hmode : mode ≠ .seekingLine) (row column : Nat) (rest : List Cell)
    (hnext : ∀ c ∈ nextChar? rest, startsAttributed c = false) :
    ∃ s', scan mode s (cellsFrom row column (listed operands) ++ rest) = scan .reading s' rest ∧
      s'.Reads (texts ++ operands) := by
  induction operands generalizing s texts mode column with
  | nil => exact absurd rfl hne
  | cons o operands ih =>
    obtain ⟨ho, hoperands⟩ := List.forall_mem_cons.1 h
    cases operands with
    | nil =>
      rw [listed_singleton]
      exact hs.scan_operand ho hmode row column rest hnext
    | cons o' operands =>
      rw [listed_cons_cons, cellsFrom_append, cellsFrom, List.append_assoc, List.cons_append]
      obtain ⟨s₁, hscan₁, hs₁⟩ := hs.scan_operand ho hmode row column
        (.glyph ⟨',', row, column + o.length⟩ ::
          (cellsFrom row (column + o.length + 1) (listed (o' :: operands)) ++ rest)) (by rintro c ⟨⟩; rfl)
      obtain ⟨s₂, hscan₂, hs₂, -⟩ := hs₁.scan_comma row (column + o.length) _
      obtain ⟨s₃, hscan₃, hs₃⟩ := ih hs₂ (List.cons_ne_nil _ _) hoperands
        (show ScanMode.reading ≠ .seekingLine by decide) (column + o.length + 1)
      exact ⟨s₃, hscan₁.trans (hscan₂.trans hscan₃), by simpa using hs₃⟩

theorem scan_seekingLine (s : OperandScan) (row column : Nat) (tail : List Char) (rest : List Cell) :
    ∃ s', scan .seekingLine s (cellsFrom row column tail ++ .lineStart :: rest) = scan .resuming s' rest ∧
      s'.nesting = s.nesting ∧ s'.current = s.current ∧ s'.operands = s.operands ∧
      s'.passed.head? = tail.getLast?.or s.passed.head? := by
  induction tail generalizing s column with
  | nil => exact ⟨s, rfl, rfl, rfl, rfl, rfl⟩
  | cons c tail ih =>
    obtain ⟨s', hscan, hnesting, hcurrent, hoperands, hpassed⟩ := ih (s.pass ⟨c, row, column⟩) (column + 1)
    refine ⟨s', hscan, hnesting, hcurrent, hoperands, hpassed.trans ?_⟩
    cases tail using List.reverseRec <;> simp [pass, List.getLast?_cons]

/-- What stands between spaces in front of a further line is passed. -/
theorem Awaits.scan_tail {s : OperandScan} {texts : List (List Char)} (hs : s.Awaits texts)
    (hcomma : s.passed.head? = some ',') {tail : List Char} (hfirst : ∀ c ∈ tail.head?, c = ' ')
    (hlast : ∀ c ∈ tail.getLast?, c = ' ') (row column : Nat) (rest : List Cell) :
    ∃ s' mode, scan .reading s (cellsFrom row column tail ++ .lineStart :: rest) = scan mode s' rest ∧
      mode ≠ .seekingLine ∧ s'.Awaits texts := by
  have hclosed : s.nesting.isClosed = true := by rw [hs.nesting]; rfl
  cases tail with
  | nil => exact ⟨s, .reading, rfl, by decide, hs⟩
  | cons c tail =>
    obtain rfl := hfirst c rfl
    obtain ⟨s', hscan, hnesting, hcurrent, hoperands, hpassed⟩ :=
      scan_seekingLine (s.pass ⟨' ', row, column⟩) row (column + 1) tail rest
    refine ⟨s', .resuming, ?_, by decide, ?_⟩
    · rw [← hscan, cellsFrom, List.cons_append, scan_glyph (by decide), if_neg (by simp),
        if_pos (by simp [endsAt, hclosed]), if_pos (by simp [mayResume, hcomma])]
    · refine ⟨hnesting.trans hs.nesting, hcurrent.trans hs.current, (congrArg _ hoperands).trans hs.operands, ?_⟩
      intro d hd
      rw [hpassed] at hd
      cases tail using List.reverseRec with
      | nil => exact .inr (Option.some.inj hd).symm
      | append_singleton tail last =>
        obtain rfl : d = last := by simpa [eq_comm] using hd
        exact .inr (hlast d (by simp [List.getLast?_cons]))

/-- What follows the operands behind a space belongs to the remarks. -/
theorem Reads.scan_remark {s : OperandScan} {texts : List (List Char)} (hs : s.Reads texts) {remark : List Char}
    (hfirst : ∀ c ∈ remark.head?, c = ' ') (row column : Nat) :
    (scan .reading s (cellsFrom row column remark)).1 = s := by
  have hclosed : s.nesting.isClosed = true := by rw [hs.nesting]; rfl
  cases remark with
  | nil => rfl
  | cons c remark =>
    obtain rfl := hfirst c rfl
    rw [cellsFrom, scan_glyph (by decide), if_neg (by simp), if_pos (by simp [endsAt, hclosed]),
      if_neg (by simp [not_lineStart_mem_cellsFrom])]

/-- Every operand of a broken list is read. -/
theorem Awaits.scan_broken {margin : List Char} {pieces : List (List (List Char))} {lines : List (List Char)}
    (h : Broken margin pieces lines) (hoperands : ∀ o ∈ pieces.flatten, IsOperand o) {s : OperandScan}
    {texts : List (List Char)} (hs : s.Awaits texts) {mode : ScanMode} (hmode : mode ≠ .seekingLine) (row : Nat) :
    (scan mode s (cellsBehind row margin.length lines)).1.result.map Field.text = texts ++ pieces.flatten := by
  induction h generalizing s texts mode row with
  | last margin operands remark hne hremark hlength =>
    have hcells := cellsBehind_append row [] [] hlength (absurd rfl)
    rw [List.append_nil, numbered, List.flatMap_nil, List.append_nil, cellsFrom_append] at hcells
    obtain ⟨s₁, hscan₁, hs₁⟩ := hs.scan_listed hne (by simpa using hoperands) hmode row margin.length
      (cellsFrom row (margin.length + (listed operands).length) remark) (by
        intro c hc
        cases remark with
        | nil => cases hc
        | cons d remark =>
          obtain rfl := hremark d rfl
          cases hc
          rfl)
    rw [hcells, hscan₁, hs₁.scan_remark hremark, hs₁.map_text_result]
    simp
  | @more margin operands tail mark behind margin' pieces lines hne hfirst hlast hlength hmark hmargin hrest ih =>
    rw [List.flatten_cons] at hoperands
    obtain ⟨hhere, hbehind⟩ := List.forall_mem_append.1 hoperands
    obtain ⟨column, hcolumn⟩ : ∃ column, column = margin.length + (listed operands).length := ⟨_, rfl⟩
    have hcells := cellsBehind_append row lines (mark :: behind) (Nat.le_of_eq hlength) fun _ => hlength
    rw [cellsFrom_append, cellsFrom, flatMap_continuedCells _ hrest.ne_nil, ← hmargin, ← hcolumn,
      List.append_assoc (cellsFrom _ _ _), List.cons_append] at hcells
    obtain ⟨s₁, hscan₁, hs₁⟩ := hs.scan_listed hne hhere hmode row margin.length
      (.glyph ⟨',', row, column⟩ :: (cellsFrom row (column + 1) tail ++
        .lineStart :: cellsBehind (row + 1) margin'.length lines)) (by rintro c ⟨⟩; rfl)
    obtain ⟨s₂, hscan₂, hs₂, hcomma⟩ := hs₁.scan_comma row column _
    obtain ⟨s₃, mode', hscan₃, hmode', hs₃⟩ := hs₂.scan_tail hcomma hfirst hlast row _ _
    rw [hcells, hscan₁, hscan₂, hscan₃, ih hbehind hs₃ hmode', List.flatten_cons, List.append_assoc]

end OperandScan

/-! ### Statements -/

theorem text_fieldOf?_label (row column : Nat) {label : Option (List Char)} (h : ∀ l ∈ label, l ≠ []) :
    (fieldOf? (lineGlyphs row column (label.getD [])).reverse).map Field.text = label := by
  cases label with
  | none => rfl
  | some l => exact text_fieldOf?_lineGlyphs row column (h l rfl)

/-- Reading a heading takes off the label, the instruction and the spaces behind them. -/
theorem Heading.statementOf_text (h : Heading) (row : Nat) (cells : List Cell) (span : Span)
    (hcells : dropSpaces cells = cells) :
    let s := statementOf (cellsFrom row 0 h.text ++ cells) span
    s.label.map Field.text = h.label ∧ s.instruction.map Field.text = some h.instruction ∧
      s.operands = (OperandScan.scan .reading {} cells).1.result := by
  obtain ⟨label, instruction, gap, gap', hlabel, hne, hinstruction⟩ := h
  have hword : ' ' ∉ label.getD [] := by
    cases label with
    | none => exact List.not_mem_nil
    | some l => exact (hlabel l rfl).2
  have hkept : ∀ (column : Nat) (rest : List Cell),
      dropSpaces (cellsFrom row column instruction ++ rest) = cellsFrom row column instruction ++ rest := by
    intro column rest
    obtain ⟨c, more, rfl⟩ := List.exists_cons_of_ne_nil hne
    have hc : c ≠ ' ' := by
      rintro rfl
      exact hinstruction List.mem_cons_self
    simp [cellsFrom, dropSpaces, hc]
  simp only [Heading.text, statementOf, cellsFrom_append, List.append_assoc]
  rw [takeWord_word _ _ hword, takeWord_spaces, dropSpaces_spaces, hkept, takeWord_word _ _ hinstruction,
    takeWord_spaces, dropSpaces_spaces, hcells, List.append_nil, List.append_nil]
  exact ⟨text_fieldOf?_label _ _ fun l hl => (hlabel l hl).1, text_fieldOf?_lineGlyphs _ _ hne, rfl⟩

theorem Broken.dropSpaces_cellsBehind {margin : List Char} {pieces : List (List (List Char))} {lines : List (List Char)}
    (h : Broken margin pieces lines) (hoperands : ∀ o ∈ pieces.flatten, IsOperand o) (row : Nat) :
    dropSpaces (cellsBehind row margin.length lines) = cellsBehind row margin.length lines := by
  have hkept : ∀ (operands : List (List Char)) (more : List Char) (rest : List Cell), operands ≠ [] →
      (∀ o ∈ operands, IsOperand o) →
      dropSpaces (cellsFrom row margin.length (listed operands ++ more) ++ rest) =
        cellsFrom row margin.length (listed operands ++ more) ++ rest := by
    intro operands more rest hne hoperands
    obtain ⟨o, operands, rfl⟩ := List.exists_cons_of_ne_nil hne
    obtain ⟨c, text, rfl, hc⟩ := (hoperands o List.mem_cons_self).exists_cons
    have hlisted : ∃ more, listed ((c :: text) :: operands) = c :: more := by
      cases operands with
      | nil => exact ⟨text, listed_singleton _⟩
      | cons o' operands => exact ⟨_, listed_cons_cons _ _ _⟩
    obtain ⟨more', hlisted⟩ := hlisted
    simp [hlisted, cellsFrom, dropSpaces, hc]
  cases h with
  | last _ _ _ hne _ hlength =>
    have hcells := cellsBehind_append row [] [] hlength (absurd rfl)
    rw [List.append_nil] at hcells
    rw [hcells]
    exact hkept _ _ _ hne (by simpa using hoperands)
  | more _ _ _ _ _ hne _ _ hlength =>
    rw [cellsBehind_append row _ _ (Nat.le_of_eq hlength) fun _ => hlength]
    exact hkept _ _ _ hne fun o ho => hoperands o (by simp [ho])

/-- **Wherever an operand list is broken, the statement has its operands**: if the lines of a source hold a heading and
the pieces of an operand list, and the first line is neither a comment nor blank, then they are one statement with the
label, the instruction and the operands as written. -/
theorem operands_of_broken {source : List Char} (h : Heading) {pieces : List (List (List Char))}
    (hbroken : Broken h.text pieces (recordLines source)) (hoperands : ∀ o ∈ pieces.flatten, IsOperand o)
    (hfirst : ∀ line ∈ (recordLines source).head?, ¬isComment line ∧ ¬Text.isBlankLine line) :
    ∃ s, statementsOf source = [s] ∧ s.label.map Field.text = h.label ∧
      s.instruction.map Field.text = some h.instruction ∧ s.operands.map Field.text = pieces.flatten := by
  have hempty : ({} : OperandScan).Awaits [] := ⟨rfl, rfl, rfl, by simp⟩
  refine ⟨statementOf (statementCells (numbered 0 (recordLines source))) (linesSpan (numbered 0 (recordLines source))),
    ?_, ?_⟩
  · rw [statementsOf, hbroken.statementLines_none 0 hfirst]
    rfl
  · rw [statementCells_broken hbroken]
    obtain ⟨hlabel, hinstruction, hresult⟩ :=
      h.statementOf_text 0 _ (linesSpan _) (hbroken.dropSpaces_cellsBehind hoperands 0)
    refine ⟨hlabel, hinstruction, ?_⟩
    rw [hresult]
    exact hempty.scan_broken hbroken hoperands (by decide) 0

/-- The lines of a call whose operands go on behind a remark. -/
def callOverLines : List String := [
  "LABEL TEST A,L'B,   REMARK, 'AND MORE                                  X",
  "IGNORED COLUMNS(C D),'E,F',                                            -",
  "               (G,(H)) LAST"]

theorem operands_over_lines :
    let source := ("\n".intercalate callOverLines).toList
    (∀ o ∈ ["A", "L'B", "(C D)", "'E,F'", "(G,(H))"], IsOperand o.toList) ∧
      ∃ s, statementsOf source = [s] ∧ s.label.map Field.text = some "LABEL".toList ∧
        s.instruction.map Field.text = some "TEST".toList ∧
        s.operands.map Field.text = ["A", "L'B", "(C D)", "'E,F'", "(G,(H))"].map String.toList := by
  intro source
  let h : Heading := ⟨some "LABEL".toList, "TEST".toList, 0, 0, by decide, by decide⟩
  let pieces := [["A", "L'B"], ["(C D)", "'E,F'"], ["(G,(H))"]].map fun piece => piece.map String.toList
  have hlast : Broken "               ".toList [["(G,(H))".toList]] ["               (G,(H)) LAST".toList] :=
    .last _ _ " LAST".toList (by decide) (by simp) (by decide)
  have hsecond := Broken.more "IGNORED COLUMNS".toList ["(C D)".toList, "'E,F'".toList] (List.replicate 44 ' ') '-' []
    (by decide) (by simp) (by simp) (by decide) (by decide) (by decide) hlast
  have hfirst := Broken.more h.text ["A".toList, "L'B".toList] ("   REMARK, 'AND MORE".toList ++ List.replicate 34 ' ')
    'X' [] (by decide) (by simp) (by simp) (by decide) (by decide) (by decide) hsecond
  have hlines : recordLines source = callOverLines.map String.toList := by decide +kernel
  have hbroken : Broken h.text pieces (recordLines source) := by
    rw [hlines]
    exact hfirst
  refine ⟨by decide +kernel, operands_of_broken h hbroken (by decide +kernel) ?_⟩
  rw [hlines]
  decide +kernel

/-- A line that holds nothing but white space is no statement, though a form feed would be an instruction and an operand
where another character stands in the line. -/
theorem blank_line_is_no_statement :
    ¬ ∀ (h : Heading) (source : List Char) (pieces : List (List (List Char))),
      Broken h.text pieces (recordLines source) → (∀ o ∈ pieces.flatten, IsOperand o) →
        (∀ line ∈ (recordLines source).head?, ¬isComment line) →
          ∃ s, statementsOf source = [s] ∧ s.label.map Field.text = h.label ∧
            s.instruction.map Field.text = some h.instruction ∧ s.operands.map Field.text = pieces.flatten := by
  intro hall
  let h : Heading := ⟨none, ['\x0c'], 0, 0, by simp, by decide⟩
  have hbroken : Broken h.text [[['\x0c']]] [" \x0c \x0c".toList] :=
    .last _ _ [] (by decide) (by simp) (by decide)
  obtain ⟨s, hs, -⟩ := hall h " \x0c \x0c".toList _ hbroken (by decide) (by decide)
  have hnone : statementsOf " \x0c \x0c".toList = [] := by decide
  rw [hnone] at hs
  cases hs

end AssemblerIndex
