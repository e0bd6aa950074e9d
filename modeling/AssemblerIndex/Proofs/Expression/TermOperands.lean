import AssemblerIndex.Proofs.Expression.CharacterExpressions
import AssemblerIndex.Proofs.Expression.Elements
import AssemblerIndex.Proofs.Expression.SelfDefiningTerms

/-!
# Self-defining terms as operands

A text is valued as a self-defining term as a whole: what counts is that it ends with an apostrophe.  In an expression
a term ends at the first apostrophe that is not doubled.

* `ClosesEarly` — an apostrophe in the text stands alone, and something follows in front of the last one;
* `takeQuoted_closed`, `takeQuoted_open` — where a quoted term ends;
* `evaluate_term` — **a term has the same value as a text and as an expression**, unless it closes early; then only its
  front is read as an operand.
-/

namespace AssemblerIndex.Expression

open SelfDefiningTerm (quotedTerm isPaired)

/-- An apostrophe between the first and the last one stands alone, and it is not the last but one. -/
def ClosesEarly (t : List Char) : Prop :=
  ∃ letter s c rest, t = quotedTerm letter (s ++ '\'' :: c :: rest) ∧ isPaired s = true ∧ c ≠ '\''

theorem closesEarly_aloneApostrophe : ClosesEarly "C'A'B'".toList :=
  ⟨'C', ['A'], 'B', [], rfl, rfl, by decide⟩

/-! ### Where quoted terms end -/

section

variable {s rest : List Char}

/-- A text has only doubled apostrophes, or there is a first one that stands alone. -/
theorem isPaired_or_exists (s : List Char) :
    isPaired s = true ∨ ∃ front rest, s = front ++ '\'' :: rest ∧ isPaired front = true ∧ rest.head? ≠ some '\'' := by
  fun_induction isPaired s with
  | case1 s ih =>
    rcases ih with hs | ⟨front, rest, rfl, hfront, hrest⟩
    · exact .inl hs
    · exact .inr ⟨'\'' :: '\'' :: front, rest, rfl, hfront, hrest⟩
  | case2 s hs =>
    refine .inr ⟨[], s, rfl, rfl, fun hhead => ?_⟩
    obtain ⟨rest, rfl⟩ := List.head?_eq_some_iff.1 hhead
    exact hs rest rfl
  | case3 c s hpair hquote ih =>
    rcases ih with hs | ⟨front, rest, rfl, hfront, hrest⟩
    · exact .inl hs
    · refine .inr ⟨c :: front, rest, rfl, ?_, hrest⟩
      rw [isPaired]
      · exact hfront
      all_goals simp_all
  | case4 => exact .inl rfl

/-- A quoted term ends at the first apostrophe that stands alone. -/
theorem takeQuoted_closed (hs : isPaired s = true) (hrest : rest.head? ≠ some '\'') :
    (takeQuoted (s ++ '\'' :: rest)).Gives (s ++ ['\'']) rest := by
  fun_induction isPaired s with
  | case1 s ih =>
    obtain ⟨hvalue, hleft⟩ := ih hs
    rw [List.cons_append, List.cons_append, takeQuoted]
    exact ⟨congrArg ('\'' :: '\'' :: ·) hvalue, hleft⟩
  | case2 => cases hs
  | case3 c s hpair hquote ih =>
    obtain ⟨hvalue, hleft⟩ := ih hs
    rw [List.cons_append, takeQuoted]
    · exact ⟨congrArg (c :: ·) hvalue, hleft⟩
    all_goals simp_all
  | case4 =>
    rw [List.nil_append, takeQuoted]
    · exact ⟨rfl, rfl⟩
    · rintro u rfl
      exact hrest rfl

/-- Without such an apostrophe it goes through the end. -/
theorem takeQuoted_open (hs : isPaired s = true) : (takeQuoted s).Gives s [] := by
  fun_induction isPaired s with
  | case1 s ih =>
    obtain ⟨hvalue, hleft⟩ := ih hs
    rw [takeQuoted]
    exact ⟨congrArg ('\'' :: '\'' :: ·) hvalue, hleft⟩
  | case2 => cases hs
  | case3 c s hpair hquote ih =>
    obtain ⟨hvalue, hleft⟩ := ih hs
    rw [takeQuoted]
    · exact ⟨congrArg (c :: ·) hvalue, hleft⟩
    all_goals simp_all
  | case4 =>
    rw [takeQuoted]
    exact ⟨rfl, rfl⟩

end

section

variable {e : Environment} {x : Context} {letter : Char} {body s t : List Char} {v : Int32} {n : Nat}

theorem isPaired_append (hs : isPaired s = true) (t : List Char) : isPaired (s ++ t) = isPaired t := by
  fun_induction isPaired s with
  | case1 s ih => exact ih hs
  | case2 => cases hs
  | case3 c s hpair hquote ih =>
    rw [List.cons_append, isPaired]
    · exact ih hs
    all_goals simp_all
  | case4 => rfl

/-- A term that does not close early is taken through its last apostrophe. -/
theorem takeQuoted_whole (h : ¬ClosesEarly (quotedTerm letter body)) :
    (takeQuoted (body ++ ['\''])).Gives (body ++ ['\'']) [] := by
  rcases isPaired_or_exists body with hpaired | ⟨front, rest, rfl, hfront, hrest⟩
  · exact takeQuoted_closed hpaired nofun
  · cases rest with
    | nil =>
      -- the last apostrophe seems doubled, and none is left to close the term
      rw [List.append_assoc]
      exact takeQuoted_open (isPaired_append hfront _)
    | cons c rest => exact absurd ⟨letter, front, c, rest, rfl, hfront, by simpa using hrest⟩ h

/-! ### Operands -/

/-- The letters of quoted terms. -/
theorem mem_of_toUpper (h : letter.toUpper ∈ ['X', 'B', 'C']) : letter ∈ ['X', 'x', 'B', 'b', 'C', 'c'] := by
  have hall : ∀ c : Char, c.toUpper ∈ ['X', 'B', 'C'] → c ∈ ['X', 'x', 'B', 'b', 'C', 'c'] := by
    refine Text.of_ascii (by decide +kernel) fun c hc hmem => ?_
    rw [Text.toUpper_of_ge hc] at hmem
    exact absurd hmem (Text.notMem_of_ge (by decide) hc)
  exact hall letter h

/-- A quoted term is taken as a word. -/
theorem takeWord_quoted (hletter : letter.toUpper ∈ ['X', 'B', 'C']) (s : List Char) :
    (takeWord (letter :: '\'' :: s)).Gives (.term (letter :: '\'' :: (takeQuoted s).value)) (takeQuoted s).rest := by
  rw [takeWord, if_pos hletter]
  exact ⟨rfl, rfl⟩

/-- A quoted term is read as an operand. -/
theorem signed_quoted (hletter : letter.toUpper ∈ ['X', 'B', 'C']) (s : List Char) :
    (signed e (letter :: '\'' :: s)).out =
      (termValue (letter :: '\'' :: (takeQuoted s).value), skip (takeQuoted s).rest) := by
  obtain ⟨hword, hrest⟩ := takeWord_quoted hletter s
  have hplain : letter ≠ ' ' ∧ letter ≠ '-' ∧ letter ≠ '+' ∧ letter ≠ '(' ∧ letter ≠ '\'' ∧ letter ≠ '&' ∧
      letter.isDigit = false ∧ isNameStart letter = true ∧ Attribute.ofLetter? letter = none := by
    have hall : ['X', 'x', 'B', 'b', 'C', 'c'].all fun c => decide (c ≠ ' ' ∧ c ≠ '-' ∧ c ≠ '+' ∧ c ≠ '(' ∧ c ≠ '\'' ∧
        c ≠ '&' ∧ c.isDigit = false ∧ isNameStart c = true ∧ Attribute.ofLetter? c = none) := by decide +kernel
    exact of_decide_eq_true (List.all_eq_true.1 hall letter (mem_of_toUpper hletter))
  obtain ⟨hspace, hminus, hplus, hopen, hquote, hampersand, hdigit, hname, hattribute⟩ := hplain
  have hnone : attribute? (letter :: '\'' :: s) = none := by
    simp only [attribute?, hattribute, Option.map_none, ite_self]
  rw [out_signed, skip_cons hspace, after?_eq_none hminus, after?_eq_none hplus]
  show (term e (letter :: '\'' :: s)).out = _
  rw [term]
  split
  · rename_i heq
    rw [hnone] at heq
    cases heq
  · rw [plainTerm]
    · rw [if_neg (by simp [hdigit]), if_pos hname]
      show (wordValue e (takeWord (letter :: '\'' :: s)).value, skip (takeWord (letter :: '\'' :: s)).rest) = _
      rw [hword, hrest]
      rfl
    all_goals simp_all

/-- The letter of a term in apostrophes. -/
theorem letter_of_value? (h : SelfDefiningTerm.value? (quotedTerm letter body) = some v) :
    letter.toUpper ∈ ['X', 'B', 'C'] := by
  rcases SelfDefiningTerm.cases_of_value? h with hdecimal | ⟨letter', body', heq, hletter⟩
  · exact absurd hdecimal (SelfDefiningTerm.not_isNumeral_quotedTerm letter body)
  · obtain ⟨rfl, -⟩ := SelfDefiningTerm.quotedTerm_inj heq
    rcases hletter with hc | ⟨base, limit, hbase⟩
    · simp [hc]
    · simp only [SelfDefiningTerm.bases, List.mem_cons, Prod.mk.injEq, List.not_mem_nil, or_false] at hbase
      rcases hbase with ⟨hx, -⟩ | ⟨hb, -⟩
      · simp [hx]
      · simp [hb]

/-- A decimal number is evaluated to its value. -/
theorem evaluate_numeral (hs : SelfDefiningTerm.IsNumeral 10 t) (h : SelfDefiningTerm.value? t = some v) :
    evaluate x t = .arithmetic v := by
  have hdigits : ∀ c ∈ t, c.isDigit = true := fun c hc => (SelfDefiningTerm.isDigit_iff c).2 (hs.digits c hc)
  have hnumber : Nat.ofDigitChars 10 t 0 = SelfDefiningTerm.numberIn 10 t :=
    Option.some.inj ((digits?_of_isDigit hs.ne_nil hdigits).symm.trans
      (SelfDefiningTerm.digits?_of_isNumeral (by decide) hs))
  have hfits : Nat.ofDigitChars 10 t 0 < 2147483648 := by
    rw [SelfDefiningTerm.value?_of_isNumeral hs] at h
    split at h
    · rwa [hnumber]
    · cases h
  have hvalue : termValue t = .arithmetic v := by rw [termValue, h, Option.getD_some]
  have hsigned : (signed (environment x) (t ++ [])).out = (termValue t, skip []) := by
    rw [termValue_digits hs.ne_nil hdigits hfits]
    exact signed_digits hs.ne_nil hdigits hfits (by simp)
  rw [List.append_nil, hvalue] at hsigned
  obtain ⟨c, u, rfl⟩ := List.exists_cons_of_ne_nil hs.ne_nil
  obtain ⟨hspace, hnot⟩ := ne_of_startsTerm (c := c) (by rw [startsTerm, hdigits c List.mem_cons_self, Bool.true_or])
  exact evaluate_of_signed hspace (keyword?_eq_none hnot _ _) hsigned

/-- A term in apostrophes that does not close early is evaluated to its value. -/
theorem evaluate_quoted (hletter : letter.toUpper ∈ ['X', 'B', 'C']) (hclosed : ¬ClosesEarly (quotedTerm letter body))
    (h : SelfDefiningTerm.value? (quotedTerm letter body) = some v) :
    evaluate x (quotedTerm letter body) = .arithmetic v := by
  obtain ⟨htaken, hrest⟩ := takeQuoted_whole hclosed
  have hsigned : (signed (environment x) (quotedTerm letter body)).out = (.arithmetic v, []) := by
    rw [quotedTerm, signed_quoted hletter, htaken, hrest, ← quotedTerm, termValue, h]
    rfl
  have hspace : letter ≠ ' ' := by
    rintro rfl
    exact absurd hletter (by decide)
  have hnot : letter.toUpper ≠ 'N' := fun hn => absurd (hn ▸ hletter) (by decide)
  exact evaluate_of_signed hspace (keyword?_eq_none hnot _ _) hsigned

/-- A well written term does not close early. -/
theorem not_closesEarly_of_denotes (h : SelfDefiningTerm.Denotes t n) : ¬ClosesEarly t := by
  rintro ⟨letter, s, c, rest, rfl, hs, hc⟩
  rcases h.cases_quotedTerm with ⟨base, limit, hbase, hdigits⟩ | ⟨-, hpaired⟩
  · have hquote := hdigits.digits '\'' (by simp)
    have hle := (SelfDefiningTerm.bases_le hbase).1
    have : SelfDefiningTerm.digitValue '\'' = 16 := by decide +kernel
    omega
  · rw [isPaired_append hs, isPaired] at hpaired
    · cases hpaired
    · simpa using hc

/-- **A term has the same value as a text and as an expression**, unless it closes early: then what is read as the first
operand is only its front.  Well written terms do not close early. -/
theorem evaluate_term (x : Context) (h : SelfDefiningTerm.value? t = some v) :
    (¬ClosesEarly t → evaluate x t = .arithmetic v ∧ (SetValue.character t).coerce .arithmetic = evaluate x t) ∧
      (ClosesEarly t → ∃ front rest, t = front ++ rest ∧ rest ≠ [] ∧
        (signed (environment x) t).out = (termValue front, skip rest)) ∧
      ∀ n, SelfDefiningTerm.Denotes t n → ¬ClosesEarly t := by
  refine ⟨fun hclosed => ?_, ?_, fun n => not_closesEarly_of_denotes⟩
  · have hvalue : evaluate x t = .arithmetic v := by
      rcases SelfDefiningTerm.cases_of_value? h with hdecimal | ⟨letter, body, rfl, -⟩
      · exact evaluate_numeral hdecimal h
      · exact evaluate_quoted (letter_of_value? h) hclosed h
    refine ⟨hvalue, ?_⟩
    rw [hvalue, SetValue.coerce, SetValue.toWord, h, Option.getD_some]
  · rintro ⟨letter, s, c, rest, rfl, hs, hc⟩
    have hbehind : (c :: (rest ++ ['\''])).head? ≠ some '\'' := by simpa using hc
    obtain ⟨htaken, hrest⟩ := takeQuoted_closed hs hbehind
    have hwhole : quotedTerm letter (s ++ '\'' :: c :: rest) =
        letter :: '\'' :: (s ++ '\'' :: c :: (rest ++ ['\''])) := by simp [quotedTerm]
    have hread := signed_quoted (e := environment x) (letter_of_value? h) (s ++ '\'' :: c :: (rest ++ ['\'']))
    rw [htaken, hrest] at hread
    refine ⟨quotedTerm letter s, c :: (rest ++ ['\'']), by simp [quotedTerm], List.cons_ne_nil c _, ?_⟩
    rw [hwhole]
    exact hread

end

/-- A term with doubled characters, and one that closes early. -/
theorem evaluate_term_of_doubled_characters :
    SelfDefiningTerm.value? "C'''&&a'".toList = some 0x7D5081 ∧
      evaluate default "C'''&&a'".toList = .arithmetic 0x7D5081 ∧
      ∃ front rest, "C'A'B'".toList = front ++ rest ∧ rest ≠ [] ∧
        (signed (environment default) "C'A'B'".toList).out = (termValue front, skip rest) := by
  have hencodes : SelfDefiningTerm.Encodes "''&&a".toList "'&a".toList :=
    .pair (by decide) (.pair (by decide) (.single (by decide) .nil))
  have hterm : SelfDefiningTerm.Denotes (quotedTerm 'C' "''&&a".toList) (SelfDefiningTerm.codeNumber "'&a".toList) :=
    .characters rfl rfl hencodes (by decide)
  have hwhole : SelfDefiningTerm.value? "C'''&&a'".toList = some 0x7D5081 := by decide +kernel
  have hearly : SelfDefiningTerm.value? "C'A'B'".toList = some 0xC17DC2 := by decide +kernel
  obtain ⟨hvalue, -, hclosed⟩ := evaluate_term default hwhole
  exact ⟨hwhole, (hvalue (hclosed _ hterm)).1, (evaluate_term default hearly).2.1 closesEarly_aloneApostrophe⟩

/-- **The text of a term that closes early has another value than the expression.** -/
theorem evaluate_term_cut_short :
    ¬∀ (x : Context) (t : List Char) (v : Int32), SelfDefiningTerm.value? t = some v → evaluate x t = .arithmetic v := by
  intro hall
  have hvalue : evaluate default "C'A'B'".toList = .arithmetic 0xC17DC2 := hall _ _ _ (by decide +kernel)
  have hsigned : (signed (environment default) "C'A'B'".toList).out = (.arithmetic 0xC1, skip "B'".toList) := by
    have hpaired : isPaired ['A'] = true := rfl
    have hbehind : "B'".toList.head? ≠ some '\'' := by decide
    obtain ⟨htaken, hrest⟩ := takeQuoted_closed hpaired hbehind
    have hletter : 'C'.toUpper ∈ ['X', 'B', 'C'] := by decide
    have hread := signed_quoted (e := environment default) hletter "A'B'".toList
    rw [show "A'B'".toList = ['A'] ++ '\'' :: "B'".toList from rfl, htaken, hrest] at hread
    exact hread.trans (congrArg (·, skip "B'".toList) (by decide +kernel))
  have hend : ∀ d ∈ (skip "B'".toList).head?, d.toUpper ∉ operatorFronts := by
    intro d hd
    obtain rfl : 'B' = d := Option.some.inj hd
    decide
  have hread : (expression (environment default) "C'A'B'".toList).out = _ :=
    expression_signed_alone (by decide) (keyword?_eq_none (by decide) _ _) hsigned hend
  have hcut : evaluate default "C'A'B'".toList = .arithmetic 0xC1 := (out_eq.1 hread).1
  rw [hcut] at hvalue
  exact absurd hvalue (by decide)

end AssemblerIndex.Expression
