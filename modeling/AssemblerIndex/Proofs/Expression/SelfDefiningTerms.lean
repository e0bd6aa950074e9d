import AssemblerIndex.SelfDefiningTerm
import AssemblerIndex.Proofs.Text.Capitals
import Mathlib.Data.Nat.Digits.Defs

/-!
# The grammar of self-defining terms

Which texts are self-defining terms, and for which numbers, said without reading them.

* `digitValue`, `numberIn` — digits and the numbers that they stand for in a base;
* `Encodes`, `isPaired` — what a text in apostrophes stands for, and whether all apostrophes in it are doubled;
* `Denotes` — the grammar of terms: decimal numbers, `X'..'`, `B'..'` and `C'..'`;
* `Tolerated` — texts beyond the grammar that count as terms as well: a plus sign in front of the digits, and an
  apostrophe that stands alone;
* `value?_eq_some_iff` — **a text has a value exactly if it is a term or a tolerated one**, and its value is the number
  as a word.
-/

namespace AssemblerIndex.SelfDefiningTerm

/-! ### Digits -/

/-- The digits of all bases, in order of their values. -/
def figures : List Char := ['0', '1', '2', '3', '4', '5', '6', '7', '8', '9', 'A', 'B', 'C', 'D', 'E', 'F']

/-- The value of a digit, a capital or small letter: its place among the figures. -/
def digitValue (c : Char) : Nat := figures.idxOf c.toUpper

/-- The text consists of digits in a base, at least one. -/
structure IsNumeral (base : Nat) (s : List Char) : Prop where
  ne_nil : s ≠ []
  digits : ∀ c ∈ s, digitValue c < base

/-- The number whose figures in a base have these values, the first one the highest. -/
def positional (base : Nat) (values : List Nat) : Nat := Nat.ofDigits base values.reverse

/-- The number that digits stand for in a base. -/
def numberIn (base : Nat) (s : List Char) : Nat := positional base (s.map digitValue)

section

variable {base n : Nat} {c : Char} {s : List Char}

theorem positional_eq_foldl (base : Nat) (values : List Nat) :
    positional base values = values.foldl (fun n d => n * base + d) 0 := by
  rw [positional, Nat.ofDigits_eq_foldr, List.foldr_reverse]
  simp only [Nat.cast_id, Nat.add_comm, Nat.mul_comm]

theorem digitValue_of_ge (h : 128 ≤ c.toNat) : digitValue c = 16 := by
  rw [digitValue, Text.toUpper_of_ge h]
  exact List.idxOf_eq_length (Text.notMem_of_ge (by decide) h)

theorem digit?_of_ge (h : 128 ≤ c.toNat) : digit? base c = none := by
  have hle (d : Char) (hd : d.toNat < 128) : ¬c ≤ d := fun hcd => by
    have : c.toNat ≤ d.toNat := hcd
    omega
  simp [digit?, hle '9' (by decide), hle 'F' (by decide), hle 'f' (by decide)]

theorem digit?_sixteen (c : Char) : digit? 16 c = if digitValue c < 16 then some (digitValue c) else none := by
  revert c
  refine Text.of_ascii (by decide +kernel) fun c hc => ?_
  simp [digit?_of_ge hc, digitValue_of_ge hc]

/-- A character is read as a digit exactly if its value is below the base. -/
theorem digit?_eq (hbase : base ≤ 16) (c : Char) :
    digit? base c = if digitValue c < base then some (digitValue c) else none := by
  have hfilter : digit? base c = (digit? 16 c).filter (· < base) := by
    unfold digit?
    rw [Option.filter_filter]
    refine congrArg (Option.filter · _) (funext fun n => ?_)
    by_cases hn : n < base <;> simp [hn, show n < base → n < 16 by omega]
  rw [hfilter, digit?_sixteen]
  by_cases hc : digitValue c < base
  · simp [hc, show digitValue c < 16 by omega]
  · split <;> simp [Nat.not_lt.1 hc]

theorem isDigit_iff (c : Char) : c.isDigit = true ↔ digitValue c < 10 := by
  revert c
  refine Text.of_ascii (by decide +kernel) fun c hc => ?_
  have hdigit : c.isDigit = false := by
    have : ¬c.toNat ≤ '9'.toNat := by
      have : '9'.toNat = 57 := rfl
      omega
    exact Bool.and_eq_false_iff.2 (.inr (decide_eq_false this))
  simp [hdigit, digitValue_of_ge hc]

/-- Reading digits goes on from a number that has been read. -/
theorem foldlM_digit? (hbase : base ≤ 16) (hs : ∀ c ∈ s, digitValue c < base) (m : Nat) :
    s.foldlM (fun n c => (digit? base c).map (n * base + ·)) m =
      some ((s.map digitValue).foldl (fun n d => n * base + d) m) := by
  induction s generalizing m with
  | nil => rfl
  | cons c s ih =>
    obtain ⟨hc, hs⟩ := List.forall_mem_cons.1 hs
    rw [List.foldlM_cons, digit?_eq hbase, if_pos hc]
    exact ih hs _

theorem digits?_of_isNumeral (hbase : base ≤ 16) (h : IsNumeral base s) : digits? base s = some (numberIn base s) := by
  rw [digits?, if_neg (by simpa using h.ne_nil), foldlM_digit? hbase h.digits, numberIn, positional_eq_foldl]

theorem isNumeral_of_digits? (hbase : base ≤ 16) (h : digits? base s = some n) : IsNumeral base s := by
  unfold digits? at h
  split at h
  · cases h
  · rename_i hne
    refine ⟨by simpa using hne, fun c hc => ?_⟩
    by_contra hlarge
    -- reading fails at the first character that is no digit
    have hfails (s : List Char) (hc : c ∈ s) (m : Nat) :
        s.foldlM (fun n c => (digit? base c).map (n * base + ·)) m = none := by
      induction s generalizing m with
      | nil => cases hc
      | cons d s ih =>
        rw [List.foldlM_cons]
        rcases List.mem_cons.1 hc with rfl | hc
        · rw [digit?_eq hbase, if_neg hlarge]
          rfl
        · cases digit? base d with
          | none => rfl
          | some k => exact ih hc _
    rw [hfails s hc] at h
    cases h

theorem digits?_eq_some_iff (hbase : base ≤ 16) : digits? base s = some n ↔ IsNumeral base s ∧ n = numberIn base s := by
  constructor
  · intro h
    have hs := isNumeral_of_digits? hbase h
    rw [digits?_of_isNumeral hbase hs] at h
    exact ⟨hs, (Option.some.inj h).symm⟩
  · rintro ⟨hs, rfl⟩
    exact digits?_of_isNumeral hbase hs

/-- A plus sign in front of the digits makes no difference. -/
theorem unsigned?_eq_some_iff (hbase : base ≤ 16) :
    unsigned? base s = some n ↔
      IsNumeral base s ∧ n = numberIn base s ∨ ∃ t, s = '+' :: t ∧ IsNumeral base t ∧ n = numberIn base t := by
  unfold unsigned?
  split
  · rename_i t
    have hsign : ¬IsNumeral base ('+' :: t) := fun h => by
      have hplus : digitValue '+' < base := h.digits '+' List.mem_cons_self
      have : digitValue '+' = 16 := by decide +kernel
      omega
    simp [digits?_eq_some_iff hbase, hsign]
  · rename_i hplain
    rw [digits?_eq_some_iff hbase]
    constructor
    · exact .inl
    · rintro (h | ⟨t, rfl, -⟩)
      · exact h
      · exact absurd rfl (hplain t)

/-- The number of a given count of digits is less than that power of the base. -/
theorem positional_lt {values : List Nat} (hbase : 1 < base) (h : ∀ d ∈ values, d < base) :
    positional base values < base ^ values.length := by
  rw [← List.length_reverse]
  exact Nat.ofDigits_lt_base_pow_length hbase (by simpa using h)

end

/-! ### Texts in apostrophes -/

/-- A letter and a text in apostrophes. -/
def quotedTerm (letter : Char) (body : List Char) : List Char := letter :: '\'' :: (body ++ ['\''])

/-- Every apostrophe is doubled. -/
def isPaired : List Char → Bool
  | '\'' :: '\'' :: s => isPaired s
  | '\'' :: _ => false
  | _ :: s => isPaired s
  | [] => true

/-- A text in apostrophes stands for another text: two apostrophes and two ampersands stand for one, every other
character for itself. -/
inductive Encodes : List Char → List Char → Prop
  | nil : Encodes [] []
  | pair {c : Char} {s t : List Char} (hc : c ∈ ['\'', '&']) (h : Encodes s t) : Encodes (c :: c :: s) (c :: t)
  | single {c : Char} {s t : List Char} (alone : c ∈ ['\'', '&'] → s.head? ≠ some c) (h : Encodes s t) :
    Encodes (c :: s) (c :: t)

section

variable {q c letter : Char} {s t body : List Char}

theorem quoted?_eq_some_iff : quoted? s = some (letter, body) ↔ s = quotedTerm letter body := by
  constructor
  · intro h
    unfold quoted? at h
    split at h
    · split at h
      · rename_i hlast
        obtain ⟨body', rfl⟩ := List.getLast?_eq_some_iff.1 hlast
        simp only [List.dropLast_concat, Option.some.injEq, Prod.mk.injEq] at h
        obtain ⟨rfl, rfl⟩ := h
        rfl
      · cases h
    · cases h
  · rintro rfl
    simp [quoted?, quotedTerm]

theorem undouble_pair (q : Char) (s : List Char) : undouble q (q :: q :: s) = q :: undouble q s := by
  rw [undouble, if_pos ⟨rfl, rfl⟩]

theorem undouble_single (h : c = q → s.head? ≠ some q) : undouble q (c :: s) = c :: undouble q s := by
  cases s with
  | nil => rfl
  | cons d s =>
    rw [undouble, if_neg]
    rintro ⟨rfl, rfl⟩
    exact h rfl rfl

theorem head?_undouble (q : Char) (s : List Char) : (undouble q s).head? = s.head? := by
  fun_cases undouble q s <;> simp_all

/-- What a text in apostrophes stands for is read by writing doubled apostrophes and then doubled ampersands once. -/
theorem Encodes.undouble (h : Encodes s t) : undouble '&' (undouble '\'' s) = t := by
  induction h with
  | nil => rfl
  | @pair c s t hc _ ih =>
    simp only [List.mem_cons, List.not_mem_nil, or_false] at hc
    rcases hc with rfl | rfl
    · rw [undouble_pair, undouble_single (by simp), ih]
    · have hinner : SelfDefiningTerm.undouble '\'' ('&' :: '&' :: s) = '&' :: '&' :: SelfDefiningTerm.undouble '\'' s := by
        rw [undouble_single (by simp), undouble_single (by simp)]
      rw [hinner, undouble_pair, ih]
  | @single c s t alone _ ih =>
    rw [undouble_single (fun hc => by simpa [hc] using alone), undouble_single (fun hc => ?_), ih]
    rw [head?_undouble]
    simpa [hc] using alone

/-- Every text in apostrophes stands for one. -/
theorem exists_encodes (s : List Char) : ∃ t, Encodes s t := by
  induction hn : s.length using Nat.strongRecOn generalizing s with
  | ind n ih =>
    match s, hn with
    | [], _ => exact ⟨[], .nil⟩
    | c :: s, hn =>
      by_cases hpair : c ∈ ['\'', '&'] ∧ s.head? = some c
      · obtain ⟨hc, hhead⟩ := hpair
        obtain ⟨s, rfl⟩ := List.head?_eq_some_iff.1 hhead
        obtain ⟨t, ht⟩ := ih s.length (by simp only [List.length_cons] at hn; omega) s rfl
        exact ⟨c :: t, .pair hc ht⟩
      · obtain ⟨t, ht⟩ := ih s.length (by simp only [List.length_cons] at hn; omega) s rfl
        exact ⟨c :: t, .single (fun hc hhead => hpair ⟨hc, hhead⟩) ht⟩

end

/-! ### Terms -/

/-- The letters of the terms with digits, their bases and how many digits they have at most. -/
def bases : List (Char × Nat × Nat) := [('X', 16, 8), ('B', 2, 32)]

/-- The number that the codes of characters make up, one byte each. -/
def codeNumber (s : List Char) : Nat := positional 256 (s.map fun c => (Ebcdic.encode c).toNat)

/-- The text is a self-defining term for the number. -/
inductive Denotes : List Char → Nat → Prop
  | decimal {s : List Char} (h : IsNumeral 10 s) (fits : numberIn 10 s < 2147483648) : Denotes s (numberIn 10 s)
  | based {letter : Char} {base limit : Nat} {s : List Char} (hletter : (letter.toUpper, base, limit) ∈ bases)
    (h : IsNumeral base s) (fits : s.length ≤ limit) : Denotes (quotedTerm letter s) (numberIn base s)
  | characters {letter : Char} {s t : List Char} (hletter : letter.toUpper = 'C') (paired : isPaired s)
    (h : Encodes s t) (fits : 1 ≤ t.length ∧ t.length ≤ 4) : Denotes (quotedTerm letter s) (codeNumber t)

/-- The text is no term, but it is taken for one, as if there were no sign or as if the apostrophe were doubled. -/
inductive Tolerated : List Char → Nat → Prop
  | signed {letter : Char} {base limit : Nat} {s : List Char} (hletter : (letter.toUpper, base, limit) ∈ bases)
    (h : IsNumeral base s) (fits : s.length < limit) : Tolerated (quotedTerm letter ('+' :: s)) (numberIn base s)
  | unpaired {letter : Char} {s t : List Char} (hletter : letter.toUpper = 'C') (unpaired : isPaired s = false)
    (h : Encodes s t) (fits : 1 ≤ t.length ∧ t.length ≤ 4) : Tolerated (quotedTerm letter s) (codeNumber t)

section

variable {n base limit : Nat} {letter : Char} {s t body : List Char} {v : Int32}

theorem characterValue_eq (s : List Char) : characterValue s = codeNumber s := by
  rw [codeNumber, positional_eq_foldl, characterValue, List.foldl_map]

theorem bases_le (h : (letter.toUpper, base, limit) ∈ bases) : base ≤ 16 ∧ 1 < base ∧ base ^ limit = 2 ^ 32 := by
  simp only [bases, List.mem_cons, Prod.mk.injEq, List.not_mem_nil, or_false] at h
  rcases h with ⟨-, rfl, rfl⟩ | ⟨-, rfl, rfl⟩ <;> decide

/-- No text in apostrophes consists of digits. -/
theorem not_isNumeral_quotedTerm (letter : Char) (body : List Char) : ¬IsNumeral 10 (quotedTerm letter body) := by
  intro h
  have hquote := h.digits '\'' (by simp [quotedTerm])
  exact absurd hquote (by decide +kernel)

theorem isNumeral_iff : IsNumeral 10 s ↔ s ≠ [] ∧ s.all Char.isDigit = true := by
  rw [List.all_eq_true]
  constructor
  · rintro ⟨hne, hdigits⟩
    exact ⟨hne, fun c hc => (isDigit_iff c).2 (hdigits c hc)⟩
  · rintro ⟨hne, hdigits⟩
    exact ⟨hne, fun c hc => (isDigit_iff c).1 (hdigits c hc)⟩

theorem value?_of_isNumeral (h : IsNumeral 10 s) :
    value? s = if numberIn 10 s < 2147483648 then some (Int32.ofNat (numberIn 10 s)) else none := by
  rw [value?, if_pos (isNumeral_iff.1 h), digits?_of_isNumeral (by decide) h]

theorem value?_of_not_isNumeral (h : ¬IsNumeral 10 s) (hquoted : ∀ letter body, s ≠ quotedTerm letter body) :
    value? s = none := by
  rw [value?, if_neg (mt isNumeral_iff.2 h)]
  cases hq : quoted? s with
  | none => rfl
  | some r => exact absurd (quoted?_eq_some_iff.1 hq) (hquoted r.1 r.2)

/-- A term with digits in apostrophes. -/
theorem value?_based (h : (letter.toUpper, base, limit) ∈ bases) (body : List Char) :
    value? (quotedTerm letter body) = if body.length ≤ limit then (unsigned? base body).map Int32.ofNat else none := by
  rw [value?, if_neg (mt isNumeral_iff.2 (not_isNumeral_quotedTerm letter body)), quoted?_eq_some_iff.2 rfl]
  simp only [bases, List.mem_cons, Prod.mk.injEq, List.not_mem_nil, or_false] at h
  rcases h with ⟨hl, rfl, rfl⟩ | ⟨hl, rfl, rfl⟩ <;> simp only [hl]

/-- A term with characters in apostrophes. -/
theorem value?_characters (h : letter.toUpper = 'C') (hbody : Encodes body t) :
    value? (quotedTerm letter body) =
      if 1 ≤ t.length ∧ t.length ≤ 4 then some (Int32.ofNat (codeNumber t)) else none := by
  rw [value?, if_neg (mt isNumeral_iff.2 (not_isNumeral_quotedTerm letter body)), quoted?_eq_some_iff.2 rfl]
  simp only [h, hbody.undouble, characterValue_eq]

/-- A text with a value is a number, or it has the form of a term in apostrophes. -/
theorem cases_of_value? (h : value? s = some v) :
    IsNumeral 10 s ∨ ∃ letter body, s = quotedTerm letter body ∧
      (letter.toUpper = 'C' ∨ ∃ base limit, (letter.toUpper, base, limit) ∈ bases) := by
  by_cases hdecimal : IsNumeral 10 s
  · exact .inl hdecimal
  refine .inr ?_
  by_contra hnone
  have hletter (letter : Char) (body : List Char) (hs : s = quotedTerm letter body) : value? s = none := by
    have hforms : ¬(letter.toUpper = 'C' ∨ ∃ base limit, (letter.toUpper, base, limit) ∈ bases) :=
      fun hl => hnone ⟨letter, body, hs, hl⟩
    rw [value?, if_neg (mt isNumeral_iff.2 hdecimal), quoted?_eq_some_iff.2 hs]
    dsimp only
    split
    · rename_i hx
      exact absurd (.inr ⟨16, 8, by simp [hx, bases]⟩) hforms
    · rename_i hb
      exact absurd (.inr ⟨2, 32, by simp [hb, bases]⟩) hforms
    · rename_i hc
      exact absurd (.inl hc) hforms
    · rfl
  by_cases hquoted : ∃ letter body, s = quotedTerm letter body
  · obtain ⟨letter, body, hs⟩ := hquoted
    rw [hletter letter body hs] at h
    cases h
  · rw [value?_of_not_isNumeral hdecimal fun letter body hs => hquoted ⟨letter, body, hs⟩] at h
    cases h

/-- A text with a value is a term, or it is taken for one. -/
theorem exists_of_value? (h : value? s = some v) : ∃ n, (Denotes s n ∨ Tolerated s n) ∧ v = Int32.ofNat n := by
  rcases cases_of_value? h with hdecimal | ⟨letter, body, rfl, hletter | ⟨base, limit, hletter⟩⟩
  · rw [value?_of_isNumeral hdecimal] at h
    split at h
    · rename_i fits
      exact ⟨_, .inl (.decimal hdecimal fits), (Option.some.inj h).symm⟩
    · cases h
  · obtain ⟨t, ht⟩ := exists_encodes body
    rw [value?_characters hletter ht] at h
    split at h
    · rename_i fits
      refine ⟨_, ?_, (Option.some.inj h).symm⟩
      cases hpaired : isPaired body with
      | true => exact .inl (.characters hletter hpaired ht fits)
      | false => exact .inr (.unpaired hletter hpaired ht fits)
    · cases h
  · have hbase := (bases_le hletter).1
    rw [value?_based hletter] at h
    split at h
    · rename_i fits
      obtain ⟨n, hn, rfl⟩ := Option.map_eq_some_iff.1 h
      rcases (unsigned?_eq_some_iff hbase).1 hn with ⟨hbody, rfl⟩ | ⟨t, rfl, ht, rfl⟩
      · exact ⟨_, .inl (.based hletter hbody fits), rfl⟩
      · exact ⟨_, .inr (.signed hletter ht fits), rfl⟩
    · cases h

/-- A term has its number for a value. -/
theorem Denotes.value? (h : Denotes s n) : value? s = some (Int32.ofNat n) := by
  cases h with
  | decimal h fits => rw [value?_of_isNumeral h, if_pos fits]
  | based hletter h fits =>
    rw [value?_based hletter, if_pos fits, (unsigned?_eq_some_iff (bases_le hletter).1).2 (.inl ⟨h, rfl⟩)]
    rfl
  | characters hletter _ h fits => rw [value?_characters hletter h, if_pos fits]

theorem Tolerated.value? (h : Tolerated s n) : value? s = some (Int32.ofNat n) := by
  cases h with
  | @signed letter base limit s hletter h fits =>
    have fits : ('+' :: s).length ≤ limit := fits
    rw [value?_based hletter, if_pos fits,
      (unsigned?_eq_some_iff (bases_le hletter).1).2 (.inr ⟨_, rfl, h, rfl⟩)]
    rfl
  | unpaired hletter _ h fits => rw [value?_characters hletter h, if_pos fits]

/-- The numbers of terms have 32 bits. -/
theorem codeNumber_lt (h : s.length ≤ 4) : codeNumber s < 2 ^ 32 := by
  refine Nat.lt_of_lt_of_le (positional_lt (by decide) ?_) (Nat.pow_le_pow_right (by decide : 0 < 256) ?_ : _ ≤ 256 ^ 4)
  · intro d hd
    obtain ⟨c, -, rfl⟩ := List.mem_map.1 hd
    exact (Ebcdic.encode c).toNat_lt
  · rwa [List.length_map]

theorem numberIn_lt (hletter : (letter.toUpper, base, limit) ∈ bases) (h : IsNumeral base s) (fits : s.length ≤ limit) :
    numberIn base s < 2 ^ 32 := by
  obtain ⟨-, hone, hpow⟩ := bases_le hletter
  rw [← hpow]
  refine Nat.lt_of_lt_of_le (positional_lt hone ?_) (Nat.pow_le_pow_right (by omega) ?_)
  · intro d hd
    obtain ⟨c, hc, rfl⟩ := List.mem_map.1 hd
    exact h.digits c hc
  · rwa [List.length_map]

theorem lt_of_denotes (h : Denotes s n ∨ Tolerated s n) : n < 2 ^ 32 := by
  rcases h with h | h
  · cases h with
    | decimal _ fits => exact Nat.lt_trans fits (by decide)
    | based hletter h fits => exact numberIn_lt hletter h fits
    | characters _ _ _ fits => exact codeNumber_lt fits.2
  · cases h with
    | signed hletter h fits => exact numberIn_lt hletter h (by omega)
    | unpaired _ _ _ fits => exact codeNumber_lt fits.2

theorem quotedTerm_inj {letter' : Char} {body' : List Char} (h : quotedTerm letter body = quotedTerm letter' body') :
    letter = letter' ∧ body = body' := by
  simp only [quotedTerm, List.cons.injEq, true_and] at h
  exact ⟨h.1, List.append_cancel_right h.2⟩

/-- A term in apostrophes consists of digits, or its apostrophes are doubled. -/
theorem Denotes.cases_quotedTerm (h : Denotes (quotedTerm letter body) n) :
    (∃ base limit, (letter.toUpper, base, limit) ∈ bases ∧ IsNumeral base body) ∨
      letter.toUpper = 'C' ∧ isPaired body = true := by
  generalize hs : quotedTerm letter body = s at h
  cases h with
  | decimal h => exact absurd (hs ▸ h) (not_isNumeral_quotedTerm letter body)
  | based hletter h =>
    obtain ⟨rfl, rfl⟩ := quotedTerm_inj hs
    exact .inl ⟨_, _, hletter, h⟩
  | characters hletter paired =>
    obtain ⟨rfl, rfl⟩ := quotedTerm_inj hs
    exact .inr ⟨hletter, paired⟩

theorem not_mem_bases (h : letter.toUpper = 'C') : (letter.toUpper, base, limit) ∉ bases := by
  simp [bases, h]

/-- What is only taken for a term is none. -/
theorem Tolerated.not_denotes (h : Tolerated s n) : ¬∃ m, Denotes s m := by
  rintro ⟨m, hm⟩
  cases h with
  | @signed letter base limit s hletter h =>
    rcases hm.cases_quotedTerm with ⟨base', limit', hletter', hdigits⟩ | ⟨hcharacters, -⟩
    · have hplus := hdigits.digits '+' List.mem_cons_self
      have hbase := (bases_le hletter').1
      have : digitValue '+' = 16 := by decide +kernel
      omega
    · exact not_mem_bases hcharacters hletter
  | unpaired hcharacters unpaired =>
    rcases hm.cases_quotedTerm with ⟨base, limit, hletter, -⟩ | ⟨-, paired⟩
    · exact not_mem_bases hcharacters hletter
    · rw [unpaired] at paired
      cases paired

/-- **Self-defining terms are accepted exactly**, apart from the texts that are taken for one: a text has a value if and
only if it is one or the other, and the value is its number as a word. -/
theorem value?_eq_some_iff (s : List Char) :
    (∀ v, value? s = some v ↔ ∃ n < 2 ^ 32, (Denotes s n ∨ Tolerated s n) ∧ v = Int32.ofNat n) ∧
      ∀ n, Tolerated s n → ¬∃ m, Denotes s m := by
  refine ⟨fun v => ⟨fun h => ?_, ?_⟩, fun n h => h.not_denotes⟩
  · obtain ⟨n, hn, rfl⟩ := exists_of_value? h
    exact ⟨n, lt_of_denotes hn, hn, rfl⟩
  · rintro ⟨n, -, hn | hn, rfl⟩
    · exact hn.value?
    · exact hn.value?

end

/-- Doubled apostrophes and ampersands stand for one, and a sign makes no term. -/
theorem value?_of_doubled_characters :
    Denotes "C'''&&a'".toList 0x7D5081 ∧ value? "C'''&&a'".toList = some 0x7D5081 ∧
      Tolerated "x'+f'".toList 15 ∧ ¬∃ n, Denotes "x'+f'".toList n := by
  have hencodes : Encodes "''&&a".toList "'&a".toList :=
    .pair (by decide) (.pair (by decide) (.single (by decide) .nil))
  have hterm : Denotes (quotedTerm 'C' "''&&a".toList) (codeNumber "'&a".toList) :=
    .characters rfl rfl hencodes (by decide)
  have hnumber : codeNumber "'&a".toList = 0x7D5081 := by decide +kernel
  rw [hnumber] at hterm
  have htolerated : Tolerated (quotedTerm 'x' ('+' :: ['f'])) (numberIn 16 ['f']) :=
    .signed (show ('x'.toUpper, 16, 8) ∈ bases by decide) ⟨nofun, List.forall_mem_singleton.2 (by decide +kernel)⟩ (by decide)
  exact ⟨hterm, ((value?_eq_some_iff _).1 _).2 ⟨_, by decide, .inl hterm, rfl⟩, htolerated,
    (value?_eq_some_iff _).2 _ htolerated⟩

/-- **A sign in front of the digits and an apostrophe that stands alone make no term, but they are accepted.** -/
theorem value?_beyond_terms :
    ¬(∀ v, value? "X'+F'".toList = some v ↔ ∃ n, Denotes "X'+F'".toList n ∧ v = Int32.ofNat n) ∧
      ¬(∀ v, value? "C'A'B'".toList = some v ↔ ∃ n, Denotes "C'A'B'".toList n ∧ v = Int32.ofNat n) := by
  have hbeyond {s : List Char} {n : Nat} (h : Tolerated s n) :
      ¬(∀ v, value? s = some v ↔ ∃ n, Denotes s n ∧ v = Int32.ofNat n) := by
    intro hall
    obtain ⟨m, hm, -⟩ := (hall _).1 h.value?
    exact h.not_denotes ⟨m, hm⟩
  have hsigned : Tolerated (quotedTerm 'X' ('+' :: ['F'])) (numberIn 16 ['F']) :=
    .signed (show ('X'.toUpper, 16, 8) ∈ bases by decide) ⟨nofun, List.forall_mem_singleton.2 (by decide +kernel)⟩ (by decide)
  have hunpaired : Tolerated (quotedTerm 'C' "A'B".toList) (codeNumber "A'B".toList) :=
    .unpaired rfl rfl (.single (by decide) (.single (by decide) (.single (by decide) .nil))) (by decide)
  exact ⟨hbeyond hsigned, hbeyond hunpaired⟩

end AssemblerIndex.SelfDefiningTerm
