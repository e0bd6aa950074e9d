import AssemblerIndex.Assembly.Ordinary

/-!
# Sums as they are written

A sum is written as its first term followed by the others, each behind its sign.  It is split at the signs outside of
quotes and parentheses, so its terms come out again if each of them, taken alone, holds no such sign and closes what it
opens.

* `written` — a sum as a text;
* `StandsAlone` — a text that is one term wherever it stands in a sum;
* `signedTerms_written` — **splitting a written sum gives back its terms**;
* `WellWritten` — the asterisk, decimal numbers, names, and quoted texts in which apostrophes are doubled; they stand
  alone (`WellWritten.standsAlone`).
-/

namespace AssemblerIndex

/-! ### Written sums -/

/-- The sign of a term as a character. -/
def SignedTerm.sign (x : SignedTerm) : Char := if x.isNegative then '-' else '+'

/-- Terms behind the first one, each behind its sign. -/
def writtenBehindFirst (xs : List SignedTerm) : List Char := xs.flatMap fun x => x.sign :: x.text

/-- A sum as a text; the first term has no sign. -/
def written : List SignedTerm → List Char
  | [] => []
  | x :: rest => x.text ++ writtenBehindFirst rest

/-- What is open behind a text that follows `before`. -/
def TermScan.through (n : TermScan) (before : List Char) : List Char → TermScan
  | [] => n
  | c :: rest => (n.after before c rest.head?).through (c :: before) rest

/-- The text is not empty, it is a single term if it is taken for a sum, and it closes what it opens. -/
structure StandsAlone (s : List Char) : Prop where
  ne_nil : s ≠ []
  single : signedTerms s = [⟨false, s⟩]
  closed : TermScan.through {} [] s = {}

/-- The text ends, or begins with a sign. -/
def EndsOrSigned (s : List Char) : Prop := ∀ c, s.head? = some c → c = '+' ∨ c = '-'

/-! ### Splitting -/

section Splitting

variable {n : TermScan} {before current front rest s : List Char} {isNegative : Bool}

theorem isAttributeLetter_of_sign {c : Char} (h : c = '+' ∨ c = '-') : isAttributeLetter c = false := by
  rcases h with rfl | rfl <;> decide

theorem extendsAttribute_of_sign {c : Char} (h : c = '+' ∨ c = '-') : extendsAttribute c = false := by
  rcases h with rfl | rfl <;> decide

theorem startsAttributed_of_sign {c : Char} (h : c = '+' ∨ c = '-') : startsAttributed c = false := by
  rcases h with rfl | rfl <;> decide

/-- A sign in front of a term does not change which apostrophes belong to attribute references. -/
theorem isAttributeQuote_behind_front (hfront : EndsOrSigned front) (before : List Char) (next : Option Char) :
    isAttributeQuote (before ++ front) next = isAttributeQuote before next := by
  cases next with
  | none => cases before <;> cases front <;> rfl
  | some d =>
    cases front with
    | nil => rw [List.append_nil]
    | cons c front =>
      have hc := hfront c rfl
      rcases before with _ | ⟨a, _ | ⟨b, before⟩⟩
      · simp [isAttributeQuote, isAttributeLetter_of_sign hc]
      · simp [isAttributeQuote, extendsAttribute_of_sign hc]
      · rfl

/-- Nor does a sign behind it. -/
theorem isAttributeQuote_in_front (hrest : EndsOrSigned rest) (before s : List Char) :
    isAttributeQuote before (s ++ rest).head? = isAttributeQuote before s.head? := by
  cases s with
  | cons c s => rfl
  | nil =>
    rw [List.nil_append, List.head?_nil]
    cases hr : rest.head? with
    | none => rfl
    | some c => cases before <;> simp [isAttributeQuote, startsAttributed_of_sign (hrest c hr)]

theorem after_in_sum (hfront : EndsOrSigned front) (hrest : EndsOrSigned rest) (n : TermScan) (before s : List Char)
    (c : Char) : n.after (before ++ front) c (s ++ rest).head? = n.after before c s.head? := by
  unfold TermScan.after
  rw [isAttributeQuote_behind_front hfront, isAttributeQuote_in_front hrest]

theorem signedTermsFrom_ne_nil (n : TermScan) (isNegative : Bool) (before current s : List Char) :
    signedTermsFrom n isNegative before current s ≠ [] := by
  induction s generalizing n before current with
  | nil => exact nofun
  | cons c s ih =>
    unfold signedTermsFrom
    split
    · exact nofun
    · exact ih _ _ _

/-- A text in which no sign splits is passed as a whole, whatever stands around it. -/
theorem signedTermsFrom_of_single (hfront : EndsOrSigned front) (hrest : EndsOrSigned rest)
    (h : signedTermsFrom n false before current s = [⟨false, current.reverse ++ s⟩]) :
    signedTermsFrom n isNegative (before ++ front) current (s ++ rest) =
      signedTermsFrom (n.through before s) isNegative (s.reverse ++ (before ++ front)) (s.reverse ++ current) rest := by
  induction s generalizing n before current with
  | nil => rfl
  | cons c s ih =>
    unfold signedTermsFrom at h
    split at h
    · -- the text would be split here
      exact absurd (List.cons.inj h).2 (signedTermsFrom_ne_nil _ _ _ _ _)
    · rename_i hwhole
      have h : signedTermsFrom (n.after before c s.head?) false (c :: before) (c :: current) s =
          [⟨false, (c :: current).reverse ++ s⟩] := by
        rw [h, List.reverse_cons, List.append_assoc, List.singleton_append]
      rw [List.cons_append, signedTermsFrom, if_neg hwhole, after_in_sum hfront hrest]
      rw [show c :: (before ++ front) = c :: before ++ front from rfl, ih h]
      simp only [TermScan.through, List.reverse_cons, List.append_assoc, List.cons_append, List.nil_append]

theorem endsOrSigned_writtenBehindFirst (xs : List SignedTerm) : EndsOrSigned (writtenBehindFirst xs) := by
  cases xs with
  | nil => exact nofun
  | cons x xs =>
    intro c hc
    obtain rfl : x.sign = c := Option.some.inj hc
    unfold SignedTerm.sign
    cases x.isNegative <;> simp

/-- Terms that stand alone come out again, whatever stands in front of them. -/
theorem signedTermsFrom_written {x : SignedTerm} {xs : List SignedTerm} (h : ∀ y ∈ x :: xs, StandsAlone y.text)
    (hfront : EndsOrSigned front) :
    signedTermsFrom {} x.isNegative front [] (x.text ++ writtenBehindFirst xs) = x :: xs := by
  induction xs generalizing x front with
  | nil =>
    have hx := h x List.mem_cons_self
    rw [show front = [] ++ front from rfl,
      signedTermsFrom_of_single hfront (endsOrSigned_writtenBehindFirst []) hx.single]
    simp [writtenBehindFirst, signedTermsFrom]
  | cons y ys ih =>
    have hx := h x List.mem_cons_self
    have hsign : (y.sign = '+' ∨ y.sign = '-') ∧ decide (y.sign = '-') = y.isNegative := by
      unfold SignedTerm.sign
      cases y.isNegative <;> simp
    rw [show front = [] ++ front from rfl,
      signedTermsFrom_of_single hfront (endsOrSigned_writtenBehindFirst (y :: ys)) hx.single, hx.closed,
      writtenBehindFirst, List.flatMap_cons, ← writtenBehindFirst, List.cons_append, signedTermsFrom,
      if_pos ⟨hsign.1, rfl, rfl, by simpa using hx.ne_nil⟩, hsign.2, ih (fun z hz => h z (List.mem_cons_of_mem _ hz))]
    · simp
    · intro c hc
      obtain rfl := Option.some.inj hc
      exact hsign.1

/-- **Splitting a written sum gives back its terms.** -/
theorem signedTerms_written {x : SignedTerm} {xs : List SignedTerm} (hx : x.isNegative = false)
    (h : ∀ y ∈ x :: xs, StandsAlone y.text) : signedTerms (written (x :: xs)) = x :: xs := by
  have hall : signedTermsFrom {} x.isNegative [] [] (x.text ++ writtenBehindFirst xs) = x :: xs :=
    signedTermsFrom_written h nofun
  rwa [hx] at hall

end Splitting

/-! ### Terms that stand alone -/

/-- The text with every apostrophe doubled. -/
def withDoubledQuotes (s : List Char) : List Char := s.flatMap fun c => if c = '\'' then [c, c] else [c]

/-- The character opens nothing and splits nothing. -/
def isPlain (c : Char) : Bool := c ∉ ['\'', '(', ')', '+', '-']

/-- A term as it should be written. -/
inductive WellWritten : List Char → Prop
  /-- the location counter -/
  | counter : WellWritten ['*']
  /-- a decimal number -/
  | number {s : List Char} (ne : s ≠ []) (digits : ∀ c ∈ s, c.isDigit) : WellWritten s
  /-- a name -/
  | name {s : List Char} (ne : s ≠ []) (names : ∀ c ∈ s, isNameChar c) : WellWritten s
  /-- a hexadecimal, binary or character term -/
  | quoted {letter : Char} (h : letter.toUpper ∈ ['X', 'B', 'C']) (s : List Char) :
    WellWritten (letter :: '\'' :: (withDoubledQuotes s ++ ['\'']))

section WellWritten

variable {n : TermScan} {before current s : List Char}

theorem isPlain_iff {c : Char} : isPlain c ↔ c ≠ '\'' ∧ c ≠ '(' ∧ c ≠ ')' ∧ c ≠ '+' ∧ c ≠ '-' := by
  simp only [isPlain, List.mem_cons, List.not_mem_nil, or_false, not_or, decide_eq_true_eq]

/-- A property that none of the other characters has makes a character plain. -/
theorem isPlain_of {p : Char → Bool} {c : Char} (hc : p c) (h : ['\'', '(', ')', '+', '-'].all fun d => !p d) :
    isPlain c := by
  refine decide_eq_true fun hmem => ?_
  simpa [hc] using List.all_eq_true.1 h c hmem

theorem not_sign_of_isPlain {c : Char} (hc : isPlain c) : ¬(c = '+' ∨ c = '-') :=
  not_or.2 (isPlain_iff.1 hc).2.2.2

theorem after_of_plain {c : Char} (hc : isPlain c) (next : Option Char) : n.after before c next = n := by
  obtain ⟨hquote, hopen, hclose, -⟩ := isPlain_iff.1 hc
  unfold TermScan.after
  rw [if_neg fun h => hquote h.1, if_neg hopen, if_neg hclose, ite_self]

/-- A text of plain characters is one term. -/
theorem standsAlone_of_plain (ne : s ≠ []) (h : ∀ c ∈ s, isPlain c) : StandsAlone s := by
  have scanned (s : List Char) (h : ∀ c ∈ s, isPlain c) (before current : List Char) :
      signedTermsFrom {} false before current s = [⟨false, current.reverse ++ s⟩] ∧
        TermScan.through {} before s = {} := by
    induction s generalizing before current with
    | nil => exact ⟨by simp [signedTermsFrom], rfl⟩
    | cons c s ih =>
      have hc := h c List.mem_cons_self
      obtain ⟨hterms, hclosed⟩ := ih (fun d hd => h d (List.mem_cons_of_mem _ hd)) (c :: before) (c :: current)
      rw [signedTermsFrom, if_neg fun hsplit => not_sign_of_isPlain hc hsplit.1, TermScan.through, after_of_plain hc, hterms, hclosed]
      simp
  obtain ⟨hsingle, hclosed⟩ := scanned s h [] []
  exact ⟨ne, hsingle, hclosed⟩

theorem isAttributeQuote_behind_quote (before : List Char) (next : Option Char) :
    isAttributeQuote ('\'' :: before) next = false := by
  cases next <;> simp [isAttributeQuote, isAttributeLetter]

theorem isAttributeQuote_in_front_of_quote (before : List Char) : isAttributeQuote before (some '\'') = false := by
  cases before <;> simp [isAttributeQuote, startsAttributed]

/-- An apostrophe that belongs to no attribute reference opens or closes a quoted text. -/
theorem after_of_quote {next : Option Char} (h : isAttributeQuote before next = false) :
    n.after before '\'' next = { n with quoted := !n.quoted } :=
  if_pos ⟨rfl, h⟩

/-- The inside of a quoted text, through the apostrophe that closes it. -/
theorem scan_quoted (s : List Char) (before current : List Char) (hcurrent : current ≠ []) :
    signedTermsFrom { quoted := true } false before current (withDoubledQuotes s ++ ['\'']) =
        [⟨false, current.reverse ++ (withDoubledQuotes s ++ ['\''])⟩] ∧
      TermScan.through { quoted := true } before (withDoubledQuotes s ++ ['\'']) = {} := by
  induction s generalizing before current with
  | nil =>
    have hlast : isAttributeQuote before none = false := by cases before <;> rfl
    have hclose : TermScan.after { quoted := true } before '\'' none = {} := after_of_quote hlast
    constructor
    · simp [withDoubledQuotes, signedTermsFrom]
    · simp [withDoubledQuotes, TermScan.through, hclose]
  | cons c s ih =>
    by_cases hc : c = '\''
    · -- between the two apostrophes nothing is quoted
      subst hc
      have hfirst : TermScan.after { quoted := true } before '\'' (some '\'') = {} :=
        after_of_quote (isAttributeQuote_in_front_of_quote before)
      have hsecond (next : Option Char) : TermScan.after {} ('\'' :: before) '\'' next = { quoted := true } :=
        after_of_quote (isAttributeQuote_behind_quote before next)
      obtain ⟨hterms, hclosed⟩ := ih ('\'' :: '\'' :: before) ('\'' :: '\'' :: current) nofun
      rw [withDoubledQuotes, List.flatMap_cons, ← withDoubledQuotes, if_pos rfl]
      constructor
      · simp only [List.cons_append, List.nil_append, signedTermsFrom, List.head?_cons, hfirst, hsecond]
        rw [if_neg (by simp), if_neg (by simp), hterms]
        simp
      · simp only [List.cons_append, List.nil_append, TermScan.through, List.head?_cons, hfirst, hsecond, hclosed]
    · have hinside (next : Option Char) : TermScan.after { quoted := true } before c next = { quoted := true } := by
        unfold TermScan.after
        rw [if_neg fun h => hc h.1, if_pos rfl]
      obtain ⟨hterms, hclosed⟩ := ih (c :: before) (c :: current) nofun
      rw [withDoubledQuotes, List.flatMap_cons, ← withDoubledQuotes, if_neg hc]
      constructor
      · simp only [List.cons_append, List.nil_append, signedTermsFrom, hinside]
        rw [if_neg (by simp), hterms]
        simp
      · simp only [List.cons_append, List.nil_append, TermScan.through, hinside, hclosed]

/-- **Well written terms stand alone.** -/
theorem WellWritten.standsAlone (h : WellWritten s) : StandsAlone s := by
  cases h with
  | counter => exact standsAlone_of_plain nofun (List.forall_mem_singleton.2 (by decide))
  | number ne digits => exact standsAlone_of_plain ne fun c hc => isPlain_of (digits c hc) (by decide)
  | name ne names => exact standsAlone_of_plain ne fun c hc => isPlain_of (names c hc) (by decide)
  | @quoted letter h s =>
    have hplain : isPlain letter :=
      isPlain_of (p := fun c => c.toUpper ∈ ['X', 'B', 'C']) (decide_eq_true h) (by decide)
    have hletter : isAttributeLetter letter = false := by
      simp only [List.mem_cons, List.not_mem_nil, or_false] at h
      rcases h with h | h | h <;> simp [isAttributeLetter, h]
    have hopen (next : Option Char) : TermScan.after {} [letter] '\'' next = { quoted := true } := by
      refine after_of_quote ?_
      cases next <;> simp [isAttributeQuote, hletter]
    obtain ⟨hterms, hclosed⟩ := scan_quoted s ['\'', letter] ['\'', letter] nofun
    refine ⟨nofun, ?_, ?_⟩
    · rw [signedTerms, signedTermsFrom, if_neg fun hsplit => not_sign_of_isPlain hplain hsplit.1,
        after_of_plain hplain, signedTermsFrom, if_neg (by simp), hopen, hterms]
      rfl
    · rw [TermScan.through, after_of_plain hplain, TermScan.through, hopen, hclosed]

end WellWritten

end AssemblerIndex
