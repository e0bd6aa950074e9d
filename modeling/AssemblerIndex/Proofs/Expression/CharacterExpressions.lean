import AssemblerIndex.Proofs.Expression.VariableSymbols

/-!
# Character expressions

A character expression joins quoted texts by periods, each of which may be cut by a substring notation.  Where a quoted
text ends shows only in the character behind its apostrophe; doubling makes sure that none inside of it looks like an
end.

* `Numeral` — an integer literal with or without a minus sign, and its value;
* `doubled` — a text as it stands between apostrophes;
* `Part` — a text with an optional substring notation, how it is written and what it selects;
* `quoted_doubled` — a doubled text is read up to the apostrophe that ends it, whatever follows;
* `evaluate_joined` — **the value of a character expression is what its parts select**.
-/

namespace AssemblerIndex.Expression

/-! ### Integer literals -/

/-- An integer literal: its digits, behind a minus sign if it is negative. -/
structure Numeral where
  isNegative : Bool
  digits : List Char

namespace Numeral

/-- The magnitude is below 2^31. -/
def Proper (n : Numeral) : Prop := IsSubscript n.digits

instance (n : Numeral) : Decidable n.Proper := inferInstanceAs (Decidable (IsSubscript _))

/-- The literal as it is written. -/
def written (n : Numeral) : List Char := (if n.isNegative then ['-'] else []) ++ n.digits

def magnitude (n : Numeral) : Nat := Nat.ofDigitChars 10 n.digits 0

def value (n : Numeral) : Int := if n.isNegative then -n.magnitude else n.magnitude

end Numeral

section

variable {e : Environment} {n : Numeral} {c : Char}

theorem expression_numeral (h : n.Proper) (hc : c ∈ closings) (rest : List Char) :
    (expression e (n.written ++ c :: rest)).out = (wrapped n.value, c :: rest) := by
  cases hsign : n.isNegative with
  | false =>
    rw [Numeral.written, Numeral.value, hsign]
    exact expression_digits h hc
  | true =>
    obtain ⟨hne, hdigits, hlt⟩ := h
    obtain ⟨hspace, hdigit⟩ := ne_of_closing hc
    have hskip : skip (c :: rest) = c :: rest := skip_cons hspace rest
    have hunsigned : (signed e (n.digits ++ c :: rest)).out = _ := signed_digits hne hdigits hlt (by simp [hdigit])
    obtain ⟨hvalue, hrest⟩ := out_eq.1 hunsigned
    have hsigned : (signed e ('-' :: (n.digits ++ c :: rest))).out = (wrapped (-n.magnitude), skip (c :: rest)) := by
      rw [out_signed, skip_cons (by decide), after?_self]
      simp only [hvalue, hrest, wrapped, SetValue.toWord, Int32.ofInt_neg]
      rfl
    have hread : (expression e ('-' :: (n.digits ++ c :: rest))).out = (_, skip (c :: rest)) :=
      expression_signed (by decide) (by decide) hsigned (by simp [hskip, hc])
    rw [hskip] at hread
    rw [Numeral.written, Numeral.value, hsign]
    exact hread

theorem toInt_wrapped_value (h : n.Proper) : (wrapped n.value).toWord.toInt = n.value := by
  have hlt : n.magnitude < 2147483648 := h.2.2
  refine Int32.toInt_ofInt_of_le ?_ ?_ <;> unfold Numeral.value <;> split <;> simp <;> omega

end

/-! ### Substring notations -/

/-- The step gives this value and leaves this text. -/
structure Taken.Gives {α : Type} {s : List Char} (r : Taken α s) (a : α) (t : List Char) : Prop where
  value : r.value = a
  rest : r.rest = t

/-- The length in a substring notation; an asterisk stands for all of the rest. -/
def lengthWritten : Option Numeral → List Char
  | none => ['*']
  | some n => n.written

section

variable {e : Environment} {i : Numeral} {l : Option Numeral}

/-- A literal begins with a digit or a minus sign. -/
theorem Numeral.Proper.exists_cons {n : Numeral} (h : n.Proper) : ∃ c t, n.written = c :: t ∧ c ≠ ' ' ∧ c ≠ '*' := by
  obtain ⟨hne, hdigits, -⟩ := h
  obtain ⟨d, ds, hds⟩ := List.exists_cons_of_ne_nil hne
  have hd : d.isDigit = true := hdigits d (hds ▸ List.mem_cons_self)
  cases hsign : n.isNegative with
  | true => exact ⟨'-', n.digits, by rw [written, hsign]; rfl, by decide, by decide⟩
  | false =>
    refine ⟨d, ds, by rw [written, hsign, hds]; rfl, ?_, ?_⟩ <;>
      · rintro rfl
        cases hd

/-- A substring notation is read through its closing parenthesis. -/
theorem substring_written (hi : i.Proper) (hl : ∀ n ∈ l, n.Proper) (rest : List Char) :
    (substring e (i.written ++ ',' :: (lengthWritten l ++ ')' :: rest))).Gives
      ((wrapped i.value).toWord, l.map fun n => (wrapped n.value).toWord) rest := by
  obtain ⟨s, hs⟩ : ∃ s, s = i.written ++ ',' :: (lengthWritten l ++ ')' :: rest) := ⟨_, rfl⟩
  rw [← hs]
  have hstart : (expression e s).out = _ := hs ▸ expression_numeral hi (by decide) _
  obtain ⟨hvalue, hbehind⟩ := out_eq.1 hstart
  have hbetween :
      (takeSpaces (takeChar ',' (expression e s).rest).rest).rest = skip (lengthWritten l ++ ')' :: rest) := by
    rw [takeChar_rest hbehind]
    rfl
  rw [substring]
  dsimp only
  cases l with
  | none =>
    have hlength : skip (lengthWritten none ++ ')' :: rest) = '*' :: ')' :: rest := rfl
    split
    · rename_i u hu
      rw [hbetween, hlength, after?_self] at hu
      cases hu
      exact ⟨by rw [← hvalue]; rfl, takeChar_rest (skip_cons (by decide) rest)⟩
    · rename_i hu
      rw [hbetween, hlength, after?_self] at hu
      cases hu
  | some n =>
    obtain ⟨c, t, hn, hspace, hasterisk⟩ := (hl n rfl).exists_cons
    have hlength : skip (lengthWritten (some n) ++ ')' :: rest) = n.written ++ ')' :: rest := by
      rw [lengthWritten, hn, List.cons_append, skip_cons hspace]
    split
    · rename_i u hu
      rw [hbetween, hlength, hn, List.cons_append, after?_eq_none hasterisk] at hu
      cases hu
    · have hread : (expression e (takeSpaces (takeChar ',' (expression e s).rest).rest).rest).out =
          (wrapped n.value, ')' :: rest) := by
        rw [hbetween, hlength]
        exact expression_numeral (hl n rfl) (by decide) rest
      obtain ⟨hnumber, hleft⟩ := out_eq.1 hread
      exact ⟨by rw [← hvalue, Option.map_some, ← hnumber]; rfl, takeChar_rest hleft⟩

end

/-! ### Quoted texts -/

/-- A character as it stands between apostrophes. -/
def doubledCharacter (c : Char) : List Char := if c = '\'' ∨ c = '&' then [c, c] else [c]

/-- A text as it stands between apostrophes: every apostrophe and every ampersand of it is doubled. -/
def doubled (s : List Char) : List Char := s.flatMap doubledCharacter

/-- A doubled text is read up to the apostrophe that ends it, unless that one looks doubled as well. -/
theorem quoted_doubled (e : Environment) (s : List Char) {rest : List Char} (hrest : rest.head? ≠ some '\'') :
    (quoted e (doubled s ++ '\'' :: rest)).Gives s rest := by
  induction s with
  | nil =>
    show (quoted e ('\'' :: rest)).Gives [] rest
    rw [quoted]
    · exact ⟨rfl, rfl⟩
    · rintro u rfl
      exact hrest rfl
  | cons c s ih =>
    obtain ⟨hvalue, hleft⟩ := ih
    rw [doubled, List.flatMap_cons, ← doubled, List.append_assoc, doubledCharacter]
    by_cases hc : c = '\'' ∨ c = '&'
    · rw [if_pos hc]
      rcases hc with rfl | rfl
      · show (quoted e ('\'' :: '\'' :: (doubled s ++ '\'' :: rest))).Gives _ _
        rw [quoted]
        exact ⟨congrArg ('\'' :: ·) hvalue, hleft⟩
      · show (quoted e ('&' :: '&' :: (doubled s ++ '\'' :: rest))).Gives _ _
        rw [quoted]
        exact ⟨congrArg ('&' :: ·) hvalue, hleft⟩
    · rw [if_neg hc]
      show (quoted e (c :: (doubled s ++ '\'' :: rest))).Gives _ _
      rw [quoted]
      · exact ⟨congrArg (c :: ·) hvalue, hleft⟩
      all_goals simp_all

/-! ### Parts -/

/-- A part of a character expression: a text and, if it is cut, where the substring begins and how long it is. -/
structure Part where
  text : List Char
  substring : Option (Numeral × Option Numeral)

/-- A substring notation as it is written; nothing is written where the text is not cut. -/
def substringWritten : Option (Numeral × Option Numeral) → List Char
  | none => []
  | some (i, l) => '(' :: (i.written ++ ',' :: (lengthWritten l ++ [')']))

namespace Part

/-- The literals of the substring notation are below 2^31 in magnitude. -/
def Proper (p : Part) : Prop := ∀ c ∈ p.substring, c.1.Proper ∧ ∀ n ∈ c.2, n.Proper

instance (p : Part) : Decidable p.Proper := inferInstanceAs (Decidable (∀ c ∈ p.substring, _))

/-- The part as it is written. -/
def written (p : Part) : List Char := '\'' :: (doubled p.text ++ '\'' :: substringWritten p.substring)

/-- What the part selects: the characters of its text from the one with the given number on, counted from one, and no
more than the given number of them. -/
def value (p : Part) : List Char :=
  match p.substring with
  | none => p.text
  | some (i, none) => p.text.drop ((max i.value 1).toNat - 1)
  | some (i, some n) => (p.text.drop ((max i.value 1).toNat - 1)).take (max n.value 0).toNat

end Part

theorem selected_eq_value {p : Part} {i : Numeral} {l : Option Numeral} (h : p.substring = some (i, l))
    (hp : p.Proper) :
    selected p.text (wrapped i.value).toWord (l.map fun n => (wrapped n.value).toWord) = p.value := by
  obtain ⟨hi, hl⟩ := hp _ h
  have hstart : i.value.toNat - 1 = (max i.value 1).toNat - 1 := by omega
  unfold selected Part.value
  rw [h, toInt_wrapped_value hi, hstart]
  cases l with
  | none => rfl
  | some n =>
    have hlength : n.value.toNat = (max n.value 0).toNat := by omega
    simp [toInt_wrapped_value (hl n rfl), hlength]

/-! ### Joining -/

section

variable {e : Environment}

/-- A quoted text that no parenthesis follows stands for itself. -/
theorem strings_uncut {s q rest : List Char} (hq : (quoted e s).Gives q rest) (hrest : rest.head? ≠ some '(')
    {a t : List Char} (h : (moreStrings e q rest).Gives a t) : (strings e s).Gives a t := by
  obtain ⟨rfl, rfl⟩ := hq
  rw [strings]
  dsimp only
  split
  · rename_i u hu
    obtain ⟨c, t, ht⟩ : ∃ c t, (quoted e s).rest = c :: t := by
      cases hleft : (quoted e s).rest with
      | nil => simp [hleft, after?] at hu
      | cons c t => exact ⟨c, t, rfl⟩
    have hc : c ≠ '(' := by
      rintro rfl
      exact hrest (by rw [ht]; rfl)
    rw [ht, after?_eq_none hc] at hu
    cases hu
  · exact ⟨h.value, h.rest⟩

/-- A quoted text with a substring notation stands for what that selects. -/
theorem strings_cut {s q u rest : List Char} {i : Int32} {l : Option Int32} (hq : (quoted e s).Gives q ('(' :: u))
    (hu : (substring e u).Gives (i, l) rest) {a t : List Char} (h : (moreStrings e (selected q i l) rest).Gives a t) :
    (strings e s).Gives a t := by
  obtain ⟨rfl, hleft⟩ := hq
  rw [strings]
  dsimp only
  split
  · rename_i u' hu'
    rw [hleft, after?_self] at hu'
    cases hu'
    obtain ⟨hvalue, rfl⟩ := hu
    obtain ⟨rfl, rfl⟩ : (substring e u).value.1 = i ∧ (substring e u).value.2 = l := by simp [hvalue]
    exact ⟨h.value, h.rest⟩
  · rename_i hu'
    rw [hleft, after?_self] at hu'
    cases hu'

theorem moreStrings_stop (e : Environment) (first : List Char) : (moreStrings e first []).Gives first [] := by
  rw [moreStrings]
  · exact ⟨rfl, rfl⟩
  · simp

theorem moreStrings_period {s t : List Char} (first : List Char) (h : (strings e s).Gives t []) :
    (moreStrings e first ('.' :: '\'' :: s)).Gives (first ++ t) [] := by
  rw [moreStrings]
  exact ⟨congrArg (first ++ ·) h.value, h.rest⟩

/-- Parts as they are written behind a first one, each behind a period. -/
def writtenBehind (parts : List Part) : List Char := parts.flatMap fun p => '.' :: p.written

/-- A character expression: its parts with periods between them. -/
def joined (parts : List Part) : List Char := ['.'].intercalate (parts.map Part.written)

theorem joined_cons (p : Part) (parts : List Part) : joined (p :: parts) = p.written ++ writtenBehind parts := by
  induction parts generalizing p with
  | nil => simp [joined, writtenBehind]
  | cons p' parts ih =>
    have hbehind := ih p'
    simp only [joined, List.map_cons, List.intercalate_cons_cons] at hbehind ⊢
    rw [hbehind]
    simp [writtenBehind]

theorem head?_writtenBehind {parts : List Part} {c : Char} (hc : c ≠ '.') : (writtenBehind parts).head? ≠ some c := by
  cases parts with
  | nil => simp [writtenBehind]
  | cons p parts => simpa [writtenBehind] using hc.symm

/-- A part is read up to the next one. -/
theorem strings_part {p : Part} (hp : p.Proper) {parts : List Part} {t : List Char}
    (h : (moreStrings e p.value (writtenBehind parts)).Gives t []) :
    (strings e (doubled p.text ++ '\'' :: substringWritten p.substring ++ writtenBehind parts)).Gives t [] := by
  rw [List.append_assoc, List.cons_append]
  cases hsubstring : p.substring with
  | none =>
    have hbehind {c : Char} (hc : c ≠ '.') : (writtenBehind parts).head? ≠ some c := head?_writtenBehind hc
    refine strings_uncut (quoted_doubled e p.text (hbehind (by decide))) (hbehind (by decide)) ?_
    rwa [Part.value, hsubstring] at h
  | some c =>
    obtain ⟨i, l⟩ := c
    obtain ⟨hi, hl⟩ := hp _ hsubstring
    have hwritten : substringWritten (some (i, l)) ++ writtenBehind parts =
        '(' :: (i.written ++ ',' :: (lengthWritten l ++ ')' :: writtenBehind parts)) := by simp [substringWritten]
    rw [hwritten]
    refine strings_cut (quoted_doubled e p.text (by simp)) (substring_written hi hl (writtenBehind parts)) ?_
    rwa [selected_eq_value hsubstring hp]

theorem moreStrings_writtenBehind {parts : List Part} (h : ∀ p ∈ parts, p.Proper) (first : List Char) :
    (moreStrings e first (writtenBehind parts)).Gives (first ++ parts.flatMap Part.value) [] := by
  induction parts generalizing first with
  | nil =>
    rw [List.flatMap_nil, List.append_nil]
    exact moreStrings_stop e first
  | cons p parts ih =>
    obtain ⟨hp, hparts⟩ := List.forall_mem_cons.1 h
    exact moreStrings_period first (strings_part hp (ih hparts p.value))

/-- **The value of a character expression**: what its parts select, one behind the other. -/
theorem evaluate_joined (x : Context) (parts : List Part) (hne : parts ≠ []) (h : ∀ p ∈ parts, p.Proper) :
    evaluate x (joined parts) = .character (parts.flatMap Part.value) := by
  obtain ⟨p, parts, rfl⟩ := List.exists_cons_of_ne_nil hne
  obtain ⟨hp, hparts⟩ := List.forall_mem_cons.1 h
  have hstrings := strings_part hp (moreStrings_writtenBehind (e := environment x) hparts p.value)
  rw [joined_cons]
  exact expression_strings hstrings.value hstrings.rest

/-- A text that ends in an apostrophe, one that looks like two texts, a start before the first character and a negative
length. -/
theorem evaluate_joined_texts :
    let x : Context := default
    let parts : List Part := [⟨"A'&'".toList, none⟩,
      ⟨"BCDEF".toList, some (⟨false, ['0', '2']⟩, some ⟨false, ['3']⟩)⟩,
      ⟨"'.'(X".toList, some (⟨true, ['1']⟩, none)⟩,
      ⟨"Q".toList, some (⟨false, ['1']⟩, some ⟨true, ['4']⟩)⟩]
    (∀ p ∈ parts, p.Proper) ∧
      evaluate x "'A''&&'''.'BCDEF'(02,3).'''.''(X'(-1,*).'Q'(1,-4)".toList = .character "A'&'CDE'.'(X".toList := by
  intro x parts
  have hproper : ∀ p ∈ parts, p.Proper := by decide
  have hwritten : joined parts = "'A''&&'''.'BCDEF'(02,3).'''.''(X'(-1,*).'Q'(1,-4)".toList := by decide +kernel
  have hvalue : parts.flatMap Part.value = "A'&'CDE'.'(X".toList := by decide +kernel
  have heval := evaluate_joined x parts (by simp [parts]) hproper
  rw [hwritten, hvalue] at heval
  exact ⟨hproper, heval⟩

end

end AssemblerIndex.Expression
