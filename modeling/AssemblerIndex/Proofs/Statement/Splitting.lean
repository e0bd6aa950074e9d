import Mathlib.Data.List.Basic
import AssemblerIndex.Statement.Layout

/-!
# The operands of a continued statement

Operands are split in two places: while the lines of a statement are read (`OperandScan.scan`) and in an operand list
as one text (`splitOperands`).  The first passes the remarks between the pieces of a continued field, the second never
sees them.

* `Agreed p f ahead` — the apostrophes of `ahead` are read alike behind `p` and behind `f`;
* `resumptions` — where a field goes on in a further line, with what has been passed in front of it;
* `OperandScan.scan_splits` — one invariant for both: what the scan still adds is what splitting adds behind the field;
* `operands_eq_splitOperands` — **the operands are those of the operand field as one text**, unless the text passed in
  front of a resumption disturbs an apostrophe behind it.  `operands_differ_from_field` shows that it can.
-/

namespace AssemblerIndex

/-! ### Characters of cells -/

/-- The characters of glyphs. -/
def glyphChars (gs : List Glyph) : List Char := gs.map Glyph.char

@[simp] theorem cellChars_nil : cellChars [] = [] := rfl

@[simp] theorem cellChars_lineStart (cells : List Cell) : cellChars (.lineStart :: cells) = cellChars cells := rfl

@[simp] theorem cellChars_glyph (g : Glyph) (cells : List Cell) :
    cellChars (.glyph g :: cells) = g.char :: cellChars cells := rfl

theorem nextChar?_eq_head? (cells : List Cell) : nextChar? cells = (cellChars cells).head? := by
  induction cells with
  | nil => rfl
  | cons cell rest ih =>
    cases cell with
    | glyph g => rfl
    | lineStart => simpa [nextChar?] using ih

theorem fieldText_fieldOf? (gs : List Glyph) : fieldText (fieldOf? gs) = (glyphChars gs).reverse := by
  cases gs <;> rfl

theorem getD_fieldOf?_text (gs : List Glyph) (span : Span) :
    ((fieldOf? gs).getD ⟨[], span⟩).text = (glyphChars gs).reverse := by
  cases gs <;> rfl

/-! ### Apostrophes behind two texts -/

/-- Every apostrophe of `ahead` is read alike behind `p` and behind `f`, both with their last character first. -/
def Agreed (p f ahead : List Char) : Prop :=
  ∀ front rest, ahead = front ++ '\'' :: rest →
    isAttributeQuote (front.reverse ++ p) rest.head? = isAttributeQuote (front.reverse ++ f) rest.head?

/-- What was passed changes how an apostrophe among the next two characters is read, if the field itself ends with a
comma there. -/
def disturbs (passed : List Char) : List Char → Bool
  | '\'' :: rest => isAttributeQuote passed rest.head?
  | a :: '\'' :: rest => isAttributeQuote [a] rest.head? && passed.head?.any extendsAttribute
  | _ => false

theorem Agreed.refl (p ahead : List Char) : Agreed p p ahead := fun _ _ _ => rfl

theorem Agreed.next {p f ahead : List Char} {c : Char} (h : Agreed p f (c :: ahead)) :
    Agreed (c :: p) (c :: f) ahead := by
  intro front rest hahead
  have := h (c :: front) rest (by rw [hahead]; rfl)
  simpa using this

theorem Agreed.here {p f ahead : List Char} {c : Char} (h : Agreed p f (c :: ahead)) (hc : c = '\'') :
    isAttributeQuote p ahead.head? = isAttributeQuote f ahead.head? := by
  subst hc
  exact h [] ahead rfl

/-- Only the two characters in front of an apostrophe and the one behind it decide how it is read. -/
theorem isAttributeQuote_two (a b : Char) (p f : List Char) (next : Option Char) :
    isAttributeQuote (a :: b :: p) next = isAttributeQuote (a :: b :: f) next := by
  cases next <;> rfl

theorem not_isAttributeQuote_comma (f : List Char) (next : Option Char) :
    isAttributeQuote (',' :: f) next = false := by
  have hcomma : isAttributeLetter ',' = false := by decide
  cases next <;> simp [isAttributeQuote, hcomma]

theorem isAttributeQuote_behind (a : Char) (p : List Char) (next : Option Char) :
    isAttributeQuote (a :: p) next = (isAttributeQuote [a] next && !p.head?.any extendsAttribute) := by
  cases next with
  | none => rfl
  | some n =>
    simp only [isAttributeQuote, List.head?_nil, Option.any_none, Bool.not_false, Bool.and_true]
    exact Bool.and_right_comm ..

theorem agreed_of_undisturbed {p f ahead : List Char} (h : disturbs p ahead = false) :
    Agreed p (',' :: f) ahead := by
  have hcomma : extendsAttribute ',' = false := by decide
  intro front rest hahead
  subst hahead
  match front with
  | [] =>
    rw [List.reverse_nil, List.nil_append, List.nil_append, not_isAttributeQuote_comma]
    exact h
  | [a] =>
    simp only [List.reverse_singleton, List.singleton_append]
    rw [isAttributeQuote_behind a p, isAttributeQuote_behind a (',' :: f)]
    by_cases ha : a = '\''
    · have hquote : isAttributeLetter '\'' = false := by decide
      subst ha
      cases rest <;> simp [isAttributeQuote, hquote]
    · rw [List.singleton_append, disturbs.eq_2 _ _ _ (by simpa using ha)] at h
      cases hq : isAttributeQuote [a] rest.head? with
      | false => rfl
      | true =>
        rw [hq, Bool.true_and] at h
        simp [h, hcomma]
  | b :: a :: front =>
    simp only [List.reverse_cons, List.append_assoc, List.singleton_append]
    match front.reverse with
    | [] => exact isAttributeQuote_two ..
    | [c] => exact isAttributeQuote_two ..
    | c :: d :: more => exact isAttributeQuote_two ..

/-- Only an apostrophe is read by what stands next to it. -/
theorem Nesting.after_congr {n : Nesting} {p f : List Char} {c : Char} {next next' : Option Char}
    (h : c = '\'' → isAttributeQuote p next = isAttributeQuote f next') : n.after p c next = n.after f c next' := by
  unfold Nesting.after
  by_cases hc : c = '\''
  · rw [h hc]
  · simp only [hc, false_and, if_false]

namespace OperandScan

/-! ### Resumed fields -/

/-- Where a field goes on in a further line: all characters passed before, last character first, and those ahead. -/
def resumptions (mode : ScanMode) (s : OperandScan) : List Cell → List (List Char × List Char)
  | [] => []
  | .lineStart :: rest => resumptions (if mode = .seekingLine then .resuming else mode) s rest
  | .glyph g :: rest =>
    match mode with
    | .seekingLine => resumptions .seekingLine (s.pass g) rest
    | mode =>
      if mode = .resuming ∧ g.char = ' ' then resumptions .resuming (s.pass g) rest
      else if s.endsAt g then
        if s.mayResume ∧ Cell.lineStart ∈ rest then resumptions .seekingLine (s.pass g) rest else []
      else
        let further := resumptions .reading (s.take g (nextChar? rest)) rest
        if mode = .resuming then (s.passed, g.char :: cellChars rest) :: further else further

theorem scan_glyph {mode : ScanMode} (hmode : mode ≠ .seekingLine) (s : OperandScan) (g : Glyph) (rest : List Cell) :
    scan mode s (.glyph g :: rest) =
      if mode = .resuming ∧ g.char = ' ' then scan .resuming (s.pass g) rest
      else if s.endsAt g then
        if s.mayResume ∧ Cell.lineStart ∈ rest then scan .seekingLine (s.pass g) rest else (s, .glyph g :: rest)
      else scan .reading (s.take g (nextChar? rest)) rest := by
  cases mode with
  | seekingLine => exact absurd rfl hmode
  | reading => rw [scan]; simp
  | resuming => rw [scan]; simp

theorem resumptions_glyph {mode : ScanMode} (hmode : mode ≠ .seekingLine) (s : OperandScan) (g : Glyph)
    (rest : List Cell) :
    resumptions mode s (.glyph g :: rest) =
      if mode = .resuming ∧ g.char = ' ' then resumptions .resuming (s.pass g) rest
      else if s.endsAt g then
        if s.mayResume ∧ Cell.lineStart ∈ rest then resumptions .seekingLine (s.pass g) rest else []
      else if mode = .resuming then
        (s.passed, g.char :: cellChars rest) :: resumptions .reading (s.take g (nextChar? rest)) rest
      else resumptions .reading (s.take g (nextChar? rest)) rest := by
  cases mode with
  | seekingLine => exact absurd rfl hmode
  | reading => rw [resumptions]; simp
  | resuming => rw [resumptions]; simp

/-! ### The scan and the splitting of its field -/

/-- The texts of the operands if the field went on with `ahead` and were then split as one text. -/
def splitWith (s : OperandScan) (ahead : List Char) : List (List Char) :=
  (s.operands.map Field.text).reverse ++
    splitOperandsFrom s.nesting (glyphChars s.field) (glyphChars s.current) ahead

/-- What holds of a scan in each mode, in front of `ahead`: while the field is read, its last character is the last
one passed, and apostrophes are read alike behind both; between its pieces it ends with a comma. -/
def Ready (s : OperandScan) (ahead : List Char) : ScanMode → Prop
  | .reading => s.passed.head? = (glyphChars s.field).head? ∧ Agreed s.passed (glyphChars s.field) ahead
  | _ => (glyphChars s.field).head? = some ','

@[simp] theorem glyphChars_field_take (s : OperandScan) (g : Glyph) (next : Option Char) :
    glyphChars (s.take g next).field = g.char :: glyphChars s.field := by
  unfold take
  split <;> rfl

@[simp] theorem passed_take (s : OperandScan) (g : Glyph) (next : Option Char) :
    (s.take g next).passed = g.char :: s.passed := by
  unfold take
  split <;> rfl

@[simp] theorem last_take (s : OperandScan) (g : Glyph) (next : Option Char) :
    (s.take g next).last = some g := by
  unfold take
  split <;> rfl

@[simp] theorem splitWith_pass (s : OperandScan) (g : Glyph) (ahead : List Char) :
    (s.pass g).splitWith ahead = s.splitWith ahead := rfl

/-- Taking in a character is what splitting does with it, if both read an apostrophe alike. -/
theorem splitWith_take (s : OperandScan) (g : Glyph) (next : Option Char) (ahead : List Char)
    (h : g.char = '\'' → isAttributeQuote s.passed next = isAttributeQuote (glyphChars s.field) ahead.head?) :
    (s.take g next).splitWith ahead = s.splitWith (g.char :: ahead) := by
  unfold take splitWith
  rw [splitOperandsFrom]
  by_cases hc : g.char = ',' ∧ s.nesting.isClosed = true
  · rw [if_pos hc, if_pos hc]
    simp [complete, pass, getD_fieldOf?_text, glyphChars]
  · rw [if_neg hc, if_neg hc]
    have hafter : s.nesting.after s.passed g.char next =
        s.nesting.after (glyphChars s.field) g.char ahead.head? := Nesting.after_congr h
    simp [pass, glyphChars, hafter]

/-- The operands at the end of a field are those of its splitting. -/
theorem map_text_result (s : OperandScan) (hfield : s.field ≠ []) (hlast : s.last.isSome) :
    s.result.map Field.text = s.splitWith [] := by
  obtain ⟨g, hg⟩ := Option.isSome_iff_exists.1 hlast
  obtain ⟨f, earlier, hf⟩ := List.exists_cons_of_ne_nil hfield
  unfold result splitWith
  rw [splitOperandsFrom, hg, hf]
  cases hcurrent : s.current with
  | nil => simp [fieldOf?, glyphChars]
  | cons c cs => simp [fieldOf?, glyphChars]

/-- What the scan of further cells adds to the field, and how: the characters `taken` go behind the field, and the
operands come out as if the field had been split with them.  An apostrophe in front sees the same next character. -/
structure Continues (s : OperandScan) (mode : ScanMode) (cells : List Cell) (taken : List Char) : Prop where
  field : glyphChars (scan mode s cells).1.field = taken.reverse ++ glyphChars s.field
  operands : (scan mode s cells).1.splitWith [] = s.splitWith taken
  last : (s.field ≠ [] → s.last.isSome) → (scan mode s cells).1.field ≠ [] → (scan mode s cells).1.last.isSome
  next : mode = .reading → s.passed.head? ≠ some ',' →
    ∀ before, isAttributeQuote before taken.head? = isAttributeQuote before (nextChar? cells)

/-- A scan that stops, or goes on without the field, in front of a space or at the end. -/
theorem Continues.stop {s : OperandScan} {mode : ScanMode} {cells : List Cell}
    (hscan : (scan mode s cells).1 = s) (hnext : nextChar? cells = none ∨ nextChar? cells = some ' ') :
    s.Continues mode cells [] where
  field := by rw [hscan]; rfl
  operands := by rw [hscan]
  last := by rw [hscan]; exact id
  next := by
    intro _ _ before
    rcases hnext with h | h
    · rw [h]; rfl
    · have hspace : startsAttributed ' ' = false := by decide
      rw [h]
      cases before <;> simp [isAttributeQuote, hspace]

theorem Continues.ofLineStart {s : OperandScan} {mode : ScanMode} {rest : List Cell} {taken : List Char}
    (h : s.Continues (if mode = .seekingLine then .resuming else mode) rest taken) :
    s.Continues mode (.lineStart :: rest) taken where
  field := h.field
  operands := h.operands
  last := h.last
  next := by
    intro hreading hne
    subst hreading
    exact h.next rfl hne

/-- A character that does not belong to the field is passed. -/
theorem Continues.ofPass {s : OperandScan} {g : Glyph} {mode mode' : ScanMode} {rest : List Cell} {taken : List Char}
    (hscan : scan mode s (.glyph g :: rest) = scan mode' (s.pass g) rest)
    (hmode : mode = .reading → s.passed.head? = some ',') (h : (s.pass g).Continues mode' rest taken) :
    s.Continues mode (.glyph g :: rest) taken where
  field := by rw [hscan]; exact h.field
  operands := by rw [hscan]; exact h.operands
  last := by intro _; rw [hscan]; exact h.last fun _ => rfl
  next := by intro hreading hne; exact absurd (hmode hreading) hne

/-- A character of the field is taken in. -/
theorem Continues.ofTake {s : OperandScan} {g : Glyph} {mode : ScanMode} {rest : List Cell} {taken : List Char}
    (hscan : scan mode s (.glyph g :: rest) = scan .reading (s.take g (nextChar? rest)) rest)
    (hagreed : Agreed s.passed (glyphChars s.field) (g.char :: cellChars rest))
    (h : (s.take g (nextChar? rest)).Continues .reading rest taken) :
    s.Continues mode (.glyph g :: rest) (g.char :: taken) where
  field := by rw [hscan, h.field]; simp
  operands := by
    rw [hscan, h.operands]
    apply splitWith_take
    intro hquote
    have hnext := h.next rfl (by rw [passed_take, hquote]; simp)
    rw [hnext, nextChar?_eq_head?]
    exact hagreed.here hquote
  last := by intro _; rw [hscan]; exact h.last fun _ => by simp
  next := by intro _ _ _; rfl

/-- A field ends or pauses only while it is read. -/
theorem reading_of_endsAt {s : OperandScan} {g : Glyph} {mode : ScanMode} (hmode : mode ≠ .seekingLine)
    (hblank : ¬(mode = .resuming ∧ g.char = ' ')) (hends : s.endsAt g = true) : mode = .reading := by
  have hspace : g.char = ' ' := by simp [endsAt] at hends; exact hends.1
  cases mode with
  | reading => rfl
  | seekingLine => exact absurd rfl hmode
  | resuming => exact absurd ⟨rfl, hspace⟩ hblank

/-- A scan goes on as the splitting of its field does, if no resumption on its way is disturbed. -/
theorem scan_splits (mode : ScanMode) (s : OperandScan) (cells : List Cell)
    (hready : s.Ready (cellChars cells) mode)
    (hundisturbed : ∀ r ∈ resumptions mode s cells, disturbs r.1 r.2 = false) :
    ∃ taken, s.Continues mode cells taken := by
  fun_induction scan mode s cells with
  | case1 mode s => exact ⟨[], .stop rfl (.inl rfl)⟩
  | case2 mode s rest ih =>
    have hready' : s.Ready (cellChars rest) (if mode = .seekingLine then .resuming else mode) := by
      cases mode <;> exact hready
    obtain ⟨taken, h⟩ := ih hready' hundisturbed
    exact ⟨taken, .ofLineStart h⟩
  | case3 s g rest ih =>
    obtain ⟨taken, h⟩ := ih hready hundisturbed
    exact ⟨taken, .ofPass rfl (by simp) h⟩
  | case4 s g rest mode hmode hblank ih =>
    obtain ⟨rfl, hspace⟩ := hblank
    rw [resumptions_glyph hmode, if_pos ⟨rfl, hspace⟩] at hundisturbed
    obtain ⟨taken, h⟩ := ih hready hundisturbed
    exact ⟨taken, .ofPass (by rw [scan_glyph hmode, if_pos ⟨rfl, hspace⟩]) (by simp) h⟩
  | case5 s g rest mode hmode hblank hends hresumes ih =>
    obtain rfl := reading_of_endsAt hmode hblank hends
    have hcomma : s.passed.head? = some ',' := by simpa [mayResume] using hresumes.1
    rw [resumptions_glyph hmode, if_neg hblank, if_pos hends, if_pos hresumes] at hundisturbed
    obtain ⟨taken, h⟩ := ih (hready.1.symm.trans hcomma) hundisturbed
    exact ⟨taken, .ofPass (by rw [scan_glyph hmode, if_neg hblank, if_pos hends, if_pos hresumes]) (fun _ => hcomma) h⟩
  | case6 s g rest mode hmode hblank hends hstays =>
    obtain rfl := reading_of_endsAt hmode hblank hends
    have hspace : g.char = ' ' := by simp [endsAt] at hends; exact hends.1
    refine ⟨[], .stop (by rw [scan_glyph hmode, if_neg hblank, if_pos hends, if_neg hstays]) (.inr ?_)⟩
    simp [nextChar?, hspace]
  | case7 s g rest mode hmode hblank hends ih =>
    rw [resumptions_glyph hmode, if_neg hblank, if_neg hends] at hundisturbed
    have hagreed : Agreed s.passed (glyphChars s.field) (g.char :: cellChars rest) := by
      cases mode with
      | reading => exact hready.2
      | seekingLine => exact absurd rfl hmode
      | resuming =>
        obtain ⟨earlier, hfield⟩ := List.head?_eq_some_iff.1 hready
        rw [hfield]
        exact agreed_of_undisturbed (hundisturbed (s.passed, g.char :: cellChars rest) (by simp))
    have hready' : (s.take g (nextChar? rest)).Ready (cellChars rest) .reading := by
      refine ⟨by simp, ?_⟩
      rw [passed_take, glyphChars_field_take]
      exact hagreed.next
    have hundisturbed' : ∀ r ∈ resumptions .reading (s.take g (nextChar? rest)) rest, disturbs r.1 r.2 = false := by
      intro r hr
      apply hundisturbed
      split
      · exact List.mem_cons_of_mem _ hr
      · exact hr
    obtain ⟨taken, h⟩ := ih hready' hundisturbed'
    exact ⟨g.char :: taken, .ofTake (by rw [scan_glyph hmode, if_neg hblank, if_neg hends]) hagreed h⟩

end OperandScan

/-! ### Statements -/

/-- The cells of a statement from its operand field on. -/
def operandCells (cells : List Cell) : List Cell :=
  dropSpaces (takeWord [] (dropSpaces (takeWord [] cells).2)).2

/-- No text between the pieces of a continued operand field changes how the field is read. -/
def readsFieldAlone (cells : List Cell) : Bool :=
  (OperandScan.resumptions .reading {} (operandCells cells)).all fun r => !disturbs r.1 r.2

theorem map_text_operands (cells : List Cell) (span : Span) (h : readsFieldAlone cells = true) :
    (statementOf cells span).operands.map Field.text = splitOperands (statementOf cells span).operandText := by
  have hready : ({} : OperandScan).Ready (cellChars (operandCells cells)) .reading := ⟨rfl, Agreed.refl _ _⟩
  have hundisturbed : ∀ r ∈ OperandScan.resumptions .reading {} (operandCells cells), disturbs r.1 r.2 = false := by
    simpa [readsFieldAlone] using h
  obtain ⟨taken, hc⟩ := OperandScan.scan_splits _ _ _ hready hundisturbed
  obtain ⟨s, hs⟩ : ∃ s, s = (OperandScan.scan .reading {} (operandCells cells)).1 := ⟨_, rfl⟩
  have hfield : glyphChars s.field = taken.reverse := by rw [hs, hc.field]; simp [glyphChars]
  have hsplit : s.splitWith [] = splitOperandsFrom {} [] [] taken := by rw [hs, hc.operands]; rfl
  have htext : (statementOf cells span).operandText = taken := by
    show fieldText (fieldOf? (OperandScan.scan .reading {} (operandCells cells)).1.field) = taken
    rw [← hs, fieldText_fieldOf?, hfield, List.reverse_reverse]
  have hoperands : (statementOf cells span).operands = s.result := by rw [hs]; rfl
  rw [htext, hoperands]
  by_cases hnil : s.field = []
  · have htaken : taken = [] := by simpa [hnil, glyphChars] using hfield
    subst htaken
    have hnone : s.operands = [] ∧ s.current = [] := by
      simpa [OperandScan.splitWith, splitOperandsFrom, glyphChars, List.append_eq_singleton_iff] using hsplit
    simp [OperandScan.result, hnil, hnone, fieldOf?, splitOperands]
  · have htaken : taken ≠ [] := by
      intro htaken
      simp [htaken, glyphChars, hnil] at hfield
    have hlast : s.last.isSome = true := by
      rw [hs] at hnil ⊢
      exact hc.last (fun hne => absurd rfl hne) hnil
    rw [OperandScan.map_text_result s hnil hlast, hsplit, splitOperands, if_neg (by simpa using htaken)]

/-- **The operands of a statement are those that splitting its operand field gives**, so the statement that is built of
its own texts has the same operands: for every statement of every source in which no text between the pieces of the
field changes how the field is read. -/
theorem operands_eq_splitOperands (source : List Char) (ls : List NumberedLine)
    (hls : ls ∈ statementLines 0 none (recordLines source)) (halone : readsFieldAlone (statementCells ls) = true) :
    let s := statementOf (statementCells ls) (linesSpan ls)
    s ∈ statementsOf source ∧ s.operands.map Field.text = splitOperands s.operandText ∧
      (s.withTexts s.labelText (fieldText s.instruction) s.operandText).operands.map Field.text =
        s.operands.map Field.text := by
  intro s
  have hsplit : s.operands.map Field.text = splitOperands s.operandText := map_text_operands _ _ halone
  refine ⟨List.mem_map.2 ⟨ls, hls, rfl⟩, hsplit, ?_⟩
  rw [hsplit, Statement.withTexts]
  simp [Function.comp_def]

/-- A statement whose operands go on behind a remark that fills its line. -/
def remarkBeforeOperands (lastColumn : Char) : List Char :=
  " LA 1, REMARK".toList ++ List.replicate 57 ' ' ++ lastColumn :: "-\n               L'A,B".toList

theorem operands_behind_remark :
    let ls := [⟨0, (remarkBeforeOperands '.').take 72⟩, ⟨1, "               L'A,B".toList⟩]
    let s := statementOf (statementCells ls) (linesSpan ls)
    ls ∈ statementLines 0 none (recordLines (remarkBeforeOperands '.')) ∧ readsFieldAlone (statementCells ls) = true ∧
      s ∈ statementsOf (remarkBeforeOperands '.') ∧
      (s.withTexts s.labelText (fieldText s.instruction) s.operandText).operands.map Field.text =
        ["1".toList, "L'A".toList, "B".toList] := by
  intro ls s
  have hls : ls ∈ statementLines 0 none (recordLines (remarkBeforeOperands '.')) := by decide +kernel
  have halone : readsFieldAlone (statementCells ls) = true := by decide +kernel
  have hoperands : s.operands.map Field.text = ["1".toList, "L'A".toList, "B".toList] := by decide +kernel
  obtain ⟨hs, -, htexts⟩ := operands_eq_splitOperands _ ls hls halone
  exact ⟨hls, halone, hs, htexts.trans hoperands⟩

/-- A letter at the end of the remark makes the letter of an attribute reference part of a longer name. -/
theorem operands_differ_from_field :
    ¬ ∀ source, ∀ s ∈ statementsOf source, s.operands.map Field.text = splitOperands s.operandText := by
  intro h
  have hd : ∀ s ∈ statementsOf (remarkBeforeOperands 'X'), s.operands.map Field.text = splitOperands s.operandText :=
    h _
  revert hd
  decide +kernel

end AssemblerIndex
