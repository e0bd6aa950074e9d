import AssemblerIndex.Expression.Substitution
import AssemblerIndex.Proofs.Expression.Precedence

/-!
# Variable symbols in texts

Two scanners replace variable symbols by their values: that of model statements, `substitute`, and that of quoted
texts in expressions, `quoted`.  They share only `reference`, which reads one variable symbol.

* `Segment` — a piece of a text, a literal or a variable symbol that its period ends, and how it is written;
* `Segment.Proper`, `Segment.text` — the piece makes sense in a state of the assembler, and what takes its place there;
* `reference_written` — a variable symbol is read up to its period, whatever follows;
* `expression_signed` — a signed term in front of a character that ends expressions, or of the end, is a whole
  expression;
* `substitution_agrees` — **both scanners give the literals and the values, and scan no value again**.
-/

namespace AssemblerIndex.Expression

/-! ### Pieces of a text -/

/-- The characters of a name, in capital or small letters. -/
def IsName (name : List Char) : Prop :=
  (∀ c ∈ name, isNameChar c = true) ∧ ∃ c ∈ name.head?, isNameStart c = true

/-- The digits of a number that fits a word. -/
def IsSubscript (ds : List Char) : Prop :=
  ds ≠ [] ∧ (∀ c ∈ ds, c.isDigit = true) ∧ Nat.ofDigitChars 10 ds 0 < 2147483648

instance (ds : List Char) : Decidable (IsSubscript ds) :=
  -- not the instance that goes through all characters there are
  have : Decidable (∀ c ∈ ds, c.isDigit = true) := List.decidableBAll (fun c => c.isDigit = true) ds
  inferInstanceAs (Decidable (_ ∧ _ ∧ _))

/-- The variable that is visible under a name in capital letters. -/
def visibleAs (x : Context) (name : List Char) : Option Variable :=
  x.visible? (String.ofList (name.map Char.toUpper))

/-- A piece of a text: characters that stand for themselves, or a variable symbol with or without a subscript. -/
inductive Segment where
  | literal (s : List Char)
  | reference (name : List Char) (subscript : Option (List Char))

namespace Segment

/-- A subscript in its parentheses. -/
def subscriptText : Option (List Char) → List Char
  | none => []
  | some ds => '(' :: ds ++ [')']

/-- The piece as it is written; a period ends a variable symbol. -/
def written : Segment → List Char
  | literal s => s
  | reference name subscript => '&' :: name ++ subscriptText subscript ++ ['.']

/-- The piece has no character that stands for more than itself, or it names a visible variable, which takes the
subscript if there is one. -/
def Proper (x : Context) : Segment → Prop
  | literal s => '&' ∉ s ∧ '\'' ∉ s
  | reference name subscript => IsName name ∧
      ∃ v, visibleAs x name = some v ∧ ∀ ds ∈ subscript, v.takesSubscript = true ∧ IsSubscript ds

/-- What takes the place of the piece: the value of a variable symbol as a text. -/
def text (x : Context) : Segment → List Char
  | literal s => s
  | reference name subscript =>
    ((visibleAs x name).map fun v => (v.value (subscript.toList.map (Nat.ofDigitChars 10 · 0))).toText).getD []

end Segment

/-! ### Expressions of one term -/

section

variable {e : Environment} {v : SetValue} {c : Char} {s rest : List Char}

/-- The characters that operators begin with, in capital letters. -/
def operatorFronts : List Char := ['O', 'X', 'A', 'E', 'N', 'L', 'G', '+', '-', '*', '/']

theorem fronts_subset (k : Nat) : fronts k ⊆ operatorFronts := by
  unfold fronts
  split <;> decide

theorem closing_notMem_operatorFronts (h : c ∈ closings) : c.toUpper ∉ operatorFronts := by
  simp only [closings, List.mem_cons, List.not_mem_nil, or_false] at h
  rcases h with rfl | rfl <;> decide

theorem ne_of_closing (h : c ∈ closings) : c ≠ ' ' ∧ c.isDigit = false := by
  simp only [closings, List.mem_cons, List.not_mem_nil, or_false] at h
  rcases h with rfl | rfl <;> decide

/-- A signed term is a whole expression where no operator follows. -/
theorem expression_signed_alone (hspace : c ≠ ' ') (hnot : keyword? ['N', 'O', 'T'] (c :: s) = none)
    (h : (signed e (c :: s)).out = (v, skip rest)) (hend : ∀ d ∈ (skip rest).head?, d.toUpper ∉ operatorFronts) :
    (expression e (c :: s)).out = (v, skip rest) := by
  have hstops (k : Nat) : (further e k v rest).out = (v, skip rest) :=
    further_stops fun d hd hfront => hend d hd (fronts_subset k hfront)
  have hproduct : (reader e 5 (c :: s)).out = (v, skip rest) :=
    (reader_of_tighter (k := 5) (by decide) h).trans (hstops 5)
  have hsum : (reader e 4 (c :: s)).out = (v, skip rest) :=
    (reader_of_tighter (k := 4) (by decide) hproduct).trans (hstops 4)
  have hrelation : relation? (skip rest) relationWords = none := by
    cases hskip : skip rest with
    | nil => rfl
    | cons d t =>
      have hd : d.toUpper ∉ operatorFronts := hend d (by rw [hskip, List.head?_cons, Option.mem_some])
      have hwords : ['E', 'N', 'L', 'G'] ⊆ operatorFronts := by decide
      exact relation?_eq_none (fun hmem => hd (hwords hmem)) t
  have hcomparison : (comparison e (c :: s)).out = (v, skip rest) := by
    obtain ⟨-, hbehind⟩ := out_eq.1 (show (sum e (c :: s)).out = (v, skip rest) from hsum)
    rw [out_comparison, hbehind, hrelation]
    exact hsum
  have hnegation : (reader e 2 (c :: s)).out = (v, skip rest) := by
    show (negation e (c :: s)).out = _
    rw [out_negation, skip_cons hspace, hnot]
    exact hcomparison
  have hconjunction : (reader e 1 (c :: s)).out = (v, skip rest) :=
    (reader_of_tighter (k := 1) (by decide) hnegation).trans (hstops 1)
  exact (reader_of_tighter (k := 0) (by decide) hconjunction).trans (hstops 0)

/-- A signed term is a whole expression where a character that ends expressions, or the end, follows. -/
theorem expression_signed_of_keyword? (hspace : c ≠ ' ') (hnot : keyword? ['N', 'O', 'T'] (c :: s) = none)
    (h : (signed e (c :: s)).out = (v, skip rest)) (hend : ∀ d ∈ (skip rest).head?, d ∈ closings) :
    (expression e (c :: s)).out = (v, skip rest) :=
  expression_signed_alone hspace hnot h fun d hd => closing_notMem_operatorFronts (hend d hd)

theorem expression_signed (hspace : c ≠ ' ') (hnot : c.toUpper ≠ 'N') (h : (signed e (c :: s)).out = (v, skip rest))
    (hend : ∀ d ∈ (skip rest).head?, d ∈ closings) : (expression e (c :: s)).out = (v, skip rest) :=
  expression_signed_of_keyword? hspace (keyword?_eq_none hnot _ _) h hend

theorem expression_digits {ds : List Char} (h : IsSubscript ds) (hc : c ∈ closings) :
    (expression e (ds ++ c :: rest)).out = (wrapped (Nat.ofDigitChars 10 ds 0 : Nat), c :: rest) := by
  obtain ⟨hne, hdigits, hlt⟩ := h
  obtain ⟨hspace, hdigit⟩ := ne_of_closing hc
  have hsigned : (signed e (ds ++ c :: rest)).out = _ := signed_digits hne hdigits hlt (by simp [hdigit])
  obtain ⟨d, t, rfl⟩ := List.exists_cons_of_ne_nil hne
  have hd : startsTerm d = true := by rw [startsTerm, hdigits d List.mem_cons_self, Bool.true_or]
  obtain ⟨hfront, hnot⟩ := ne_of_startsTerm hd
  have hskip : skip (c :: rest) = c :: rest := skip_cons hspace rest
  have hread : (expression e (d :: t ++ c :: rest)).out = (_, skip (c :: rest)) :=
    expression_signed hfront hnot hsigned (by simp [hskip, hc])
  rwa [hskip] at hread

/-! ### One variable symbol -/

theorem takeName_name {name : List Char} (hname : IsName name) (hrest : ∀ c ∈ rest.head?, isNameChar c = false) :
    (takeName (name ++ rest)).value = String.ofList (name.map Char.toUpper) ∧ (takeName (name ++ rest)).rest = rest := by
  obtain ⟨htake, hdrop⟩ := takeWhile_append_of_stop hname.1 hrest
  refine ⟨?_, hdrop⟩
  show String.ofList (((name ++ rest).takeWhile isNameChar).map Char.toUpper) = _
  rw [htake]

theorem subscripts_digits {ds : List Char} (h : IsSubscript ds) (rest : List Char) :
    (subscripts e (ds ++ ')' :: rest)).value = [Nat.ofDigitChars 10 ds 0] ∧
      (subscripts e (ds ++ ')' :: rest)).rest = rest := by
  have hread : (expression e (ds ++ ')' :: rest)).out = _ := expression_digits h (by decide)
  obtain ⟨hvalue, hbehind⟩ := out_eq.1 hread
  have hindex : (wrapped (Nat.ofDigitChars 10 ds 0 : Nat)).toWord.toInt.toNat = Nat.ofDigitChars 10 ds 0 := by
    have hlt := h.2.2
    rw [wrapped, SetValue.toWord, Int32.toInt_ofInt_of_le (by omega) (by omega)]
    exact Int.toNat_natCast _
  rw [subscripts]
  dsimp only
  split
  · rename_i heq
    rw [show (takeSpaces (expression e (ds ++ ')' :: rest)).rest).rest = ')' :: rest from hbehind] at heq
    cases heq
  · refine ⟨?_, ?_⟩
    · show [(expression e (ds ++ ')' :: rest)).value.toWord.toInt.toNat] = _
      rw [hvalue, hindex]
    · have hparenthesis : skip (skip (expression e (ds ++ ')' :: rest)).rest) = ')' :: rest := by rw [skip_skip, hbehind]
      exact takeChar_rest hparenthesis

theorem reference_subscripted {n : List Char} {u : List Char} {is : List Nat} {w : Variable}
    (hafter : after? '(' (takeName s).rest = some u) (hvisible : e.visible? (takeName s).value = some w)
    (htakes : w.takesSubscript = true) (hvalue : (subscripts e u).value = is) (hrest : (subscripts e u).rest = n) :
    (reference e s).value = ⟨some w, is⟩ ∧ (reference e s).rest = n := by
  subst hvalue hrest
  rw [reference]
  dsimp only
  split
  · rename_i heq
    obtain rfl := Option.some.inj (heq.symm.trans hafter)
    have htaken : Option.any Variable.takesSubscript (e.visible? (takeName s).value) = true := by
      rw [hvisible]
      exact htakes
    rw [if_pos htaken]
    refine ⟨?_, rfl⟩
    show Reference.mk (e.visible? (takeName s).value) _ = _
    rw [hvisible]
  · rename_i heq
    rw [hafter] at heq
    cases heq

end

section

variable {x : Context} {name : List Char} {subscript : Option (List Char)}

/-- A variable symbol is read up to its period, whatever stands behind it. -/
theorem reference_written (h : (Segment.reference name subscript).Proper x) (rest : List Char) :
    let s := name ++ (Segment.subscriptText subscript ++ '.' :: rest)
    (reference (environment x) s).value.target.isSome = true ∧
      (reference (environment x) s).value.text = (Segment.reference name subscript).text x ∧
      (reference (environment x) s).rest = '.' :: rest := by
  intro s
  obtain ⟨hname, v, hv, htakes⟩ := h
  have hstop : ∀ c ∈ (Segment.subscriptText subscript ++ '.' :: rest).head?, isNameChar c = false := by
    intro c hc
    cases subscript with
    | none => cases hc; decide
    | some ds => cases hc; decide
  obtain ⟨hcapital, hbehind⟩ := takeName_name hname hstop
  have hvisible : (environment x).visible? (takeName s).value = some v := by
    rw [hcapital]
    exact hv
  cases subscript with
  | none =>
    have hafter : after? '(' (takeName s).rest = none := by
      rw [hbehind]
      exact after?_eq_none (by decide) rest
    obtain ⟨hvalue, hrest⟩ := reference_eq (e := environment x) hafter
    rw [hvalue, hrest, hvisible, hbehind]
    refine ⟨rfl, ?_, rfl⟩
    simp [Segment.text, hv, Reference.text, Reference.value]
  | some ds =>
    obtain ⟨htakes, hds⟩ := htakes ds rfl
    have hafter : after? '(' (takeName s).rest = some (ds ++ ')' :: '.' :: rest) := by
      rw [hbehind, Segment.subscriptText, List.append_assoc, List.cons_append, after?_self]
      rfl
    obtain ⟨hindex, hleft⟩ := subscripts_digits (e := environment x) hds ('.' :: rest)
    obtain ⟨hvalue, hrest⟩ := reference_subscripted hafter hvisible htakes hindex hleft
    rw [hvalue, hrest]
    refine ⟨rfl, ?_, rfl⟩
    simp [Segment.text, hv, Reference.text, Reference.value]

theorem takeNext_self (c : Char) (s : List Char) : (takeNext c (c :: s)).rest = s := by
  unfold takeNext
  split
  · rename_i heq
    rw [after?_self] at heq
    exact (Option.some.inj heq).symm
  · rename_i heq
    rw [after?_self] at heq
    cases heq

end

/-! ### Quoted texts -/

/-- What is left of a quoted text, up to the apostrophe that ends both, stands for `t`. -/
structure Spells (e : Environment) (s t : List Char) : Prop where
  value : (quoted e s).value = t
  rest : (quoted e s).rest = []

section

variable {e : Environment} {s t : List Char}

theorem spells_apostrophe (e : Environment) : Spells e ['\''] [] := by
  constructor
  · rw [quoted]
    simp
  · rw [quoted]
    simp

theorem Spells.character {c : Char} (hampersand : c ≠ '&') (hquote : c ≠ '\'') (h : Spells e s t) :
    Spells e (c :: s) (c :: t) := by
  have hread : (quoted e (c :: s)).value = c :: (quoted e s).value ∧ (quoted e (c :: s)).rest = (quoted e s).rest := by
    rw [quoted]
    · exact ⟨rfl, rfl⟩
    all_goals simp_all
  exact ⟨by rw [hread.1, h.value], by rw [hread.2, h.rest]⟩

theorem Spells.literal {l : List Char} (hl : '&' ∉ l ∧ '\'' ∉ l) (h : Spells e s t) : Spells e (l ++ s) (l ++ t) := by
  induction l with
  | nil => exact h
  | cons c l ih =>
    simp only [List.mem_cons, not_or] at hl
    obtain ⟨⟨hampersand, hl⟩, hquote, hl'⟩ := hl
    exact (ih ⟨hl, hl'⟩).character (Ne.symm hampersand) (Ne.symm hquote)

theorem Spells.reference {c : Char} {u rest : List Char} (hc : c ≠ '&')
    (hrest : (Expression.reference e (c :: u)).rest = '.' :: rest) (h : Spells e rest t) :
    Spells e ('&' :: c :: u) ((Expression.reference e (c :: u)).value.text ++ t) := by
  have hread : (quoted e ('&' :: c :: u)).value = (Expression.reference e (c :: u)).value.text ++
        (quoted e (takeNext '.' (Expression.reference e (c :: u)).rest).rest).value ∧
      (quoted e ('&' :: c :: u)).rest = (quoted e (takeNext '.' (Expression.reference e (c :: u)).rest).rest).rest := by
    rw [quoted]
    · exact ⟨rfl, rfl⟩
    · simp_all
  rw [hrest, takeNext_self] at hread
  exact ⟨by rw [hread.1, h.value], by rw [hread.2, h.rest]⟩

theorem Spells.strings (h : Spells e s t) :
    (Expression.strings e s).value = t ∧ (Expression.strings e s).rest = [] := by
  rw [Expression.strings]
  dsimp only
  split
  · rename_i heq
    rw [h.rest] at heq
    cases heq
  · have hend : ∀ u : List Char, u = [] → (moreStrings e t u).value = t ∧ (moreStrings e t u).rest = [] := by
      rintro _ rfl
      rw [moreStrings]
      · exact ⟨rfl, rfl⟩
      · simp
    rw [h.value]
    exact hend _ h.rest

/-- Quoted texts through the end are a whole expression. -/
theorem expression_strings (hvalue : (strings e s).value = t) (hrest : (strings e s).rest = []) :
    (expression e ('\'' :: s)).value = .character t := by
  have hsigned : (signed e ('\'' :: s)).out = (.character t, skip []) := by
    rw [signed_term (by decide) (by decide) (by decide) (by decide), plainTerm]
    show (SetValue.character (strings e s).value, skip (strings e s).rest) = _
    rw [hvalue, hrest]
  exact (out_eq.1 (expression_signed (by decide) (by decide) hsigned (by simp))).1

theorem Spells.expression (h : Spells e s t) :
    (Expression.expression e ('\'' :: s)).value = .character t := by
  obtain ⟨hvalue, hrest⟩ := h.strings
  exact expression_strings hvalue hrest

end

/-! ### Model statements -/

section

variable {e : Environment} {s : List Char}

theorem substituteIn_character {c : Char} (hampersand : c ≠ '&') (s : List Char) :
    substituteIn e (c :: s) = c :: substituteIn e s := by
  rw [substituteIn]
  all_goals simp_all

theorem substituteIn_literal {l : List Char} (hl : '&' ∉ l) (s : List Char) :
    substituteIn e (l ++ s) = l ++ substituteIn e s := by
  induction l with
  | nil => rfl
  | cons c l ih =>
    simp only [List.mem_cons, not_or] at hl
    rw [List.cons_append, substituteIn_character (Ne.symm hl.1), ih hl.2, List.cons_append]

theorem substituteIn_reference {c : Char} {rest : List Char} (hc : c ≠ '&') (hstart : isNameStart c = true)
    (htarget : (reference e (c :: s)).value.target.isSome = true) (hrest : (reference e (c :: s)).rest = '.' :: rest) :
    substituteIn e ('&' :: c :: s) = (reference e (c :: s)).value.text ++ substituteIn e rest := by
  rw [substituteIn]
  · rw [if_pos (by simpa using hstart)]
    dsimp only
    split
    · rw [hrest, takeNext_self]
    · rename_i hnone
      rw [hnone] at htarget
      cases htarget
  · simp_all

end

/-! ### Both scanners -/

theorem exists_of_isName {name : List Char} (h : IsName name) :
    ∃ c t, name = c :: t ∧ isNameStart c = true ∧ c ≠ '&' := by
  obtain ⟨-, c, hc, hstart⟩ := h
  cases name with
  | nil => cases hc
  | cons d t =>
    obtain rfl : d = c := Option.some.inj hc
    refine ⟨d, t, rfl, hstart, ?_⟩
    rintro rfl
    exact absurd hstart (by decide)

/-- What a list of pieces is written as. -/
def writtenAll (segments : List Segment) : List Char := segments.flatMap Segment.written

/-- What takes the place of a list of pieces. -/
def textAll (x : Context) (segments : List Segment) : List Char := segments.flatMap (Segment.text x)

@[simp] theorem writtenAll_cons (p : Segment) (segments : List Segment) :
    writtenAll (p :: segments) = p.written ++ writtenAll segments := rfl

@[simp] theorem textAll_cons (x : Context) (p : Segment) (segments : List Segment) :
    textAll x (p :: segments) = p.text x ++ textAll x segments := rfl

section

variable {x : Context} {segments : List Segment}

theorem spells_writtenAll (h : ∀ p ∈ segments, p.Proper x) :
    Spells (environment x) (writtenAll segments ++ ['\'']) (textAll x segments) := by
  induction segments with
  | nil => exact spells_apostrophe _
  | cons p segments ih =>
    obtain ⟨hp, hsegments⟩ := List.forall_mem_cons.1 h
    have hrest := ih hsegments
    rw [writtenAll_cons, textAll_cons, List.append_assoc]
    cases p with
    | literal s => exact hrest.literal hp
    | reference name subscript =>
      obtain ⟨-, htext, hleft⟩ := reference_written hp (writtenAll segments ++ ['\''])
      obtain ⟨c, t, rfl, -, hc⟩ := exists_of_isName hp.1
      rw [← htext, Segment.written, List.append_assoc, List.append_assoc]
      exact hrest.reference hc hleft

theorem substituteIn_writtenAll (h : ∀ p ∈ segments, p.Proper x) :
    substituteIn (environment x) (writtenAll segments) = textAll x segments := by
  induction segments with
  | nil => exact substituteIn.eq_1 _
  | cons p segments ih =>
    obtain ⟨hp, hsegments⟩ := List.forall_mem_cons.1 h
    rw [writtenAll_cons, textAll_cons, ← ih hsegments]
    cases p with
    | literal s => exact substituteIn_literal hp.1 _
    | reference name subscript =>
      obtain ⟨htarget, htext, hleft⟩ := reference_written hp (writtenAll segments)
      obtain ⟨c, t, rfl, hstart, hc⟩ := exists_of_isName hp.1
      rw [← htext, Segment.written, List.append_assoc, List.append_assoc]
      exact substituteIn_reference hc hstart htarget hleft

end

/-- **Both scanners give the literals and the values of the variable symbols**, one behind the other. -/
theorem substitution_agrees (x : Context) (segments : List Segment) (h : ∀ p ∈ segments, p.Proper x) :
    substitute x (writtenAll segments) = textAll x segments ∧
      evaluate x ('\'' :: writtenAll segments ++ ['\'']) = .character (textAll x segments) := by
  constructor
  · exact substituteIn_writtenAll h
  · exact (spells_writtenAll h).expression

theorem substitution_of_ampersand_value :
    let elements := (SetSymbol.declared .arithmetic false false).assign (some 2) (.arithmetic (-7))
    let x := ((default : Context).bind "A" (scalarSymbol .character (.character "X&A.'(".toList))).bind "B" (.own elements)
    let segments := [Segment.literal "(.".toList, .reference ['a'] none, .reference ['B'] (some ['0', '2']),
      .literal "(1)".toList]
    (∀ p ∈ segments, p.Proper x) ∧ substitute x "(.&a.&B(02).(1)".toList = "(.X&A.'(7(1)".toList ∧
      evaluate x "'(.&a.&B(02).(1)'".toList = .character "(.X&A.'(7(1)".toList := by
  intro elements x segments
  have hproper : ∀ p ∈ segments, p.Proper x := by
    simp only [segments, List.forall_mem_cons]
    refine ⟨by simp [Segment.Proper], ⟨⟨by simp [isNameChar], 'a', rfl, by decide⟩, _, rfl, by simp⟩,
      ⟨⟨by simp [isNameChar], 'B', rfl, by decide⟩, _, rfl, ?_⟩, by simp [Segment.Proper], by simp⟩
    rintro _ ⟨⟩
    exact ⟨rfl, by simp, by simp, by decide⟩
  have hwritten : writtenAll segments = "(.&a.&B(02).(1)".toList := by decide +kernel
  have htext : textAll x segments = "(.X&A.'(7(1)".toList := by decide +kernel
  have hscanned := substitution_agrees x segments hproper
  rw [hwritten, htext] at hscanned
  exact ⟨hproper, hscanned⟩

end AssemblerIndex.Expression
