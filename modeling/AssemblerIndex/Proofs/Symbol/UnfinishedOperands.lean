import AssemblerIndex.Proofs.Expression.SelfDefiningTerms
import AssemblerIndex.Proofs.Symbol.DataOperands

/-!
# Unfinished operands that define data

An operand may be cut off anywhere while it is typed.  It is read all the same, but for one place: behind the
parenthesis that opens its nominal values.

* `CutOff` — a text that ends there;
* `parse_eq_nothingOpened_iff`, `parse_eq_untyped_iff` — **which texts are not read**;
* `measure?_bounds` — the numbers of a text of less than 2³¹ bytes fit into words;
* `Sensible` — the numbers of an operand make sense, as they do if they fit;
* `exists_parse_commas` — a count of values that may not fit.
-/

namespace AssemblerIndex.DataOperand

open SelfDefiningTerm (number?)

/-- The character opens no nominal values. -/
def opensNothing (c : Char) : Bool := c != '\'' && c != '('

/-- The text is cut off behind the parenthesis that opens its nominal values: a number, a type, and no apostrophe or
other parenthesis before this one. -/
def CutOff (s : List Char) : Prop :=
  ∃ digits type modifiers, s = digits ++ type :: (modifiers ++ ['(']) ∧ (∀ c ∈ digits, c.isDigit = true) ∧
    type.isAlpha = true ∧ ∀ c ∈ modifiers, opensNothing c = true

/-! ### The parts of an operand -/

section

variable {c t : Char} {s rest n : List Char} {e : DataFault} {d : DataOperand}

theorem isAlpha_toUpper (c : Char) : c.toUpper.isAlpha = c.isAlpha := by
  revert c
  exact Text.of_ascii (by decide +kernel) fun c hc => by rw [Text.toUpper_of_ge hc]

theorem opensNothing_of_isAlphanum (h : c.isAlphanum = true) : opensNothing c = true := by
  have hquote : c ≠ '\'' := by
    rintro rfl
    exact absurd h (by decide)
  have hparenthesis : c ≠ '(' := by
    rintro rfl
    exact absurd h (by decide)
  simp [opensNothing, hquote, hparenthesis]

theorem opensNothing_of_isDigit (h : c.isDigit = true) : opensNothing c = true :=
  opensNothing_of_isAlphanum (by rw [Char.isAlphanum, h, Bool.or_true])

theorem opensNothing_of_toUpper (h : c.toUpper.isAlpha = true) : opensNothing c = true :=
  opensNothing_of_isAlphanum (by rw [Char.isAlphanum, ← isAlpha_toUpper, h, Bool.true_or])

theorem not_isDigit_of_isAlpha (h : c.isAlpha = true) : c.isDigit = false := by
  have hall : ∀ c : Char, c.isAlpha = true → c.isDigit = false := by
    refine Text.of_ascii (by decide +kernel) fun c hc _ => ?_
    exact Bool.eq_false_iff.2 fun hdigit => by
      have := (SelfDefiningTerm.isDigit_iff c).1 hdigit
      rw [SelfDefiningTerm.digitValue_of_ge hc] at this
      omega
  exact hall c h

/-- What is passed over anyway may be taken off first. -/
theorem dropWhile_dropWhile {p q : Char → Bool} (h : ∀ c, q c = true → p c = true) (s : List Char) :
    (s.dropWhile q).dropWhile p = s.dropWhile p := by
  induction s with
  | nil => rfl
  | cons c s ih =>
    cases hq : q c with
    | true => rw [List.dropWhile_cons_of_pos hq, ih, List.dropWhile_cons_of_pos (h c hq)]
    | false => rw [List.dropWhile_cons_of_neg (by simp [hq])]

/-- Neither a doubled type nor an explicit length keeps nominal values from being found. -/
theorem dropWhile_explicitLength (rest : List Char) (type : Char) :
    (explicitLength (if (rest.head?.map Char.toUpper) == some 'D' && decide (type ∈ ['A', 'F', 'V']) then rest.tail
      else rest)).2.dropWhile opensNothing = rest.dropWhile opensNothing := by
  have hlength (s : List Char) : (explicitLength s).2.dropWhile opensNothing = s.dropWhile opensNothing := by
    unfold explicitLength
    cases s with
    | nil => rfl
    | cons c s =>
      dsimp only
      split
      · rename_i hc
        rw [List.dropWhile_cons_of_pos (opensNothing_of_toUpper (by rw [hc]; decide))]
        exact dropWhile_dropWhile (fun _ => opensNothing_of_isDigit) s
      · rfl
  rw [hlength]
  split
  · rename_i hdoubled
    cases rest with
    | nil => rfl
    | cons c rest =>
      have hc : c.toUpper = 'D' := by simpa using (Bool.and_eq_true_iff.1 hdoubled).1
      rw [List.tail_cons, List.dropWhile_cons_of_pos (opensNothing_of_toUpper (by rw [hc]; decide))]
  · rfl

/-- An operand with a type is read if its nominal values are. -/
theorem exists_parse_eq_map (hs : s.dropWhile Char.isDigit = t :: rest) (ht : t.isAlpha = true) :
    ∃ f, parse s = (nominal? (rest.dropWhile opensNothing)).map f := by
  have htype : ¬(!t.toUpper.isAlpha) = true := by
    rw [isAlpha_toUpper, ht]
    decide
  have hmap (x : Except DataFault (Option (List Char))) (f : Option (List Char) → DataOperand) :
      (x >>= fun n => pure (f n)) = x.map f := by cases x <;> rfl
  rw [← dropWhile_explicitLength rest t.toUpper]
  unfold parse
  rw [hs]
  dsimp only
  rw [if_neg htype]
  exact ⟨_, hmap _ _⟩

theorem nominal?_eq_nothingOpened_iff : nominal? s = .error .nothingOpened ↔ s = ['('] := by
  unfold nominal?
  split
  · simp
  · rename_i rest
    cases rest <;> simp
  · rename_i hother
    simp only [reduceCtorEq, false_iff]
    exact fun hs => hother [] hs

theorem nominal?_ne_untyped (s : List Char) : nominal? s ≠ .error .untyped := by
  unfold nominal?
  split
  · simp
  · split <;> simp
  · simp

/-! ### Which texts are read -/

/-- **A text without a type is passed over.** -/
theorem parse_eq_untyped_iff (s : List Char) :
    parse s = .error .untyped ↔ ∀ t ∈ (s.dropWhile Char.isDigit).head?, t.isAlpha = false := by
  cases hs : s.dropWhile Char.isDigit with
  | nil =>
    unfold parse
    rw [hs]
    simp
  | cons t rest =>
    cases ht : t.isAlpha with
    | false =>
      have htype : (!t.toUpper.isAlpha) = true := by rw [isAlpha_toUpper, ht, Bool.not_false]
      have hparse : parse s = .error .untyped := by
        unfold parse
        rw [hs]
        exact if_pos htype
      simp [hparse, ht]
    | true =>
      obtain ⟨f, hf⟩ := exists_parse_eq_map hs ht
      have hne : parse s ≠ .error .untyped := by
        rw [hf]
        cases hn : nominal? (rest.dropWhile opensNothing) with
        | error e =>
          rintro ⟨⟩
          exact nominal?_ne_untyped _ hn
        | ok n => nofun
      simp [hne, ht]

/-- **The parenthesis opens nothing exactly in a text that is cut off behind it.** -/
theorem parse_eq_nothingOpened_iff (s : List Char) : parse s = .error .nothingOpened ↔ CutOff s := by
  constructor
  · intro h
    cases hs : s.dropWhile Char.isDigit with
    | nil =>
      unfold parse at h
      rw [hs] at h
      cases h
    | cons t rest =>
      have ht : t.isAlpha = true := by
        by_contra ht
        have huntyped := (parse_eq_untyped_iff s).2 (by simpa [hs] using ht)
        cases huntyped.symm.trans h
      obtain ⟨f, hf⟩ := exists_parse_eq_map hs ht
      have hrest : rest.dropWhile opensNothing = ['('] := by
        rw [← nominal?_eq_nothingOpened_iff]
        rw [hf] at h
        cases hn : nominal? (rest.dropWhile opensNothing) with
        | error e =>
          rw [hn] at h
          cases h
          rfl
        | ok n =>
          rw [hn] at h
          cases h
      refine ⟨s.takeWhile Char.isDigit, t, rest.takeWhile opensNothing, ?_, ?_, ht, ?_⟩
      · rw [← hrest, List.takeWhile_append_dropWhile, ← hs, List.takeWhile_append_dropWhile]
      · exact fun c hc => List.all_eq_true.1 List.all_takeWhile c hc
      · exact fun c hc => List.all_eq_true.1 List.all_takeWhile c hc
  · rintro ⟨digits, t, modifiers, rfl, hdigits, ht, hmodifiers⟩
    have hs : (digits ++ t :: (modifiers ++ ['('])).dropWhile Char.isDigit = t :: (modifiers ++ ['(']) := by
      rw [List.dropWhile_append_of_pos hdigits, List.dropWhile_cons_of_neg (by simp [not_isDigit_of_isAlpha ht])]
    obtain ⟨f, hf⟩ := exists_parse_eq_map hs ht
    have hrest : (modifiers ++ ['(']).dropWhile opensNothing = ['('] := by
      rw [List.dropWhile_append_of_pos hmodifiers]
      rfl
    rw [hf, hrest]
    rfl

/-! ### Numbers that fit -/

theorem byteCount_le_of_sublist {t : List Char} (h : s.Sublist t) : byteCount s ≤ byteCount t := by
  induction h with
  | slnil => exact Nat.le_refl _
  | cons c _ ih =>
    rw [byteCount_cons]
    omega
  | cons_cons c _ ih =>
    rw [byteCount_cons, byteCount_cons]
    omega

theorem length_le_byteCount (s : List Char) : s.length ≤ byteCount s := by
  induction s with
  | nil => exact Nat.le_refl _
  | cons c s ih =>
    have := c.utf8Size_pos
    rw [byteCount_cons, List.length_cons]
    omega

theorem quotedValue_sublist (s : List Char) : (quotedValue s).Sublist s := by
  fun_induction quotedValue s with
  | case1 s ih => exact (ih.cons _).cons_cons _
  | case2 => exact List.nil_sublist _
  | case3 c s _ _ ih => exact ih.cons_cons c
  | case4 => exact .slnil

/-- Nominal values are shorter than their text. -/
theorem byteCount_of_nominal? (h : nominal? s = .ok (some n)) : byteCount n < byteCount s := by
  have hpos (c : Char) (rest : List Char) (hn : n.Sublist rest) : byteCount n < byteCount (c :: rest) := by
    have hle := byteCount_le_of_sublist hn
    have := c.utf8Size_pos
    rw [byteCount_cons]
    omega
  unfold nominal? at h
  split at h
  · cases h
    exact hpos _ _ (quotedValue_sublist _)
  · split at h
    · cases h
    · cases h
      exact hpos _ _ (List.dropLast_sublist _)
  · cases h

theorem length_splitOperandsFrom_le (m : Nesting) (before current s : List Char) :
    (splitOperandsFrom m before current s).length ≤ s.length + 1 := by
  induction s generalizing m before current with
  | nil => exact Nat.le_refl _
  | cons c s ih =>
    unfold splitOperandsFrom
    split
    · exact Nat.succ_le_succ (ih m (c :: before) [])
    · exact Nat.le_succ_of_le (ih _ (c :: before) (c :: current))

theorem valueCount_pos (type : Char) (nominal : Option (List Char)) : 1 ≤ valueCount type nominal := by
  unfold valueCount
  split
  · split
    · exact Nat.le_refl 1
    · exact Nat.le_max_left 1 _
  · exact Nat.le_refl 1

theorem valueCount_le {k : Nat} (type : Char) {nominal : Option (List Char)} (h : ∀ n ∈ nominal, byteCount n < k) :
    valueCount type nominal ≤ max 1 k := by
  unfold valueCount
  split
  · rename_i n
    have hn := h n rfl
    have hlength := length_le_byteCount n
    have hsplit : (splitOperands n).length ≤ n.length + 1 := by
      unfold splitOperands
      split
      · exact Nat.zero_le _
      · exact length_splitOperandsFrom_le ..
    split <;> omega
  · omega

/-- An implicit length is that of the nominal values at most, or that of a type. -/
theorem implicitLength_le {k : Nat} (type : Char) (doubled : Bool) {nominal : Option (List Char)}
    (h : ∀ n ∈ nominal, byteCount n < k) : (implicitLength type doubled nominal).1 ≤ max 16 k := by
  have hsigns (n : List Char) : byteCount (withoutSigns n) ≤ byteCount n :=
    byteCount_le_of_sublist (List.dropWhile_sublist _)
  have hnominal (f : List Char → Nat) (hf : ∀ n, f n ≤ byteCount n + 1) :
      (nominal.map (max 1 ∘ f)).getD 1 ≤ max 16 k := by
    cases nominal with
    | none => exact Nat.le_trans (by decide : 1 ≤ 16) (Nat.le_max_left 16 k)
    | some n =>
      have hn := h n rfl
      have hfn := hf n
      simp only [Option.map_some, Option.getD_some, Function.comp_apply]
      omega
  unfold implicitLength
  dsimp only
  split
  · omega
  · split
    · omega
    · split
      · omega
      · split
        · exact Nat.le_max_left 16 k
        · exact hnominal _ fun n => by
            have := length_le_byteCount n
            omega
        · exact hnominal _ fun n => by omega
        · exact hnominal _ fun n => by omega
        · exact hnominal _ fun n => by
            have := hsigns n
            omega
        · exact hnominal _ fun n => by
            have := hsigns n
            omega
        · omega

theorem number?_lt {k : Nat} (h : number? s = some k) : k < 2 ^ 31 := by
  simpa using (Option.filter_eq_some_iff.1 h).2

theorem exactLength_sublist (s : List Char) : (exactLength s).2.Sublist s := by
  unfold exactLength
  cases s with
  | nil => exact .slnil
  | cons c s =>
    dsimp only
    split
    · exact (List.dropWhile_sublist _).cons c
    · exact List.Sublist.refl _

theorem exactLength_lt {k : Nat} (h : (exactLength s).1 = some k) : k < 2 ^ 31 := by
  unfold exactLength at h
  cases s with
  | nil => cases h
  | cons c s =>
    dsimp only at h
    split at h
    · exact number?_lt h
    · cases h

/-- A measure is made up of an explicit length that fits, and of nominal values from the text. -/
theorem exists_measured {m : DataMeasure} (h : measure? s = some m) :
    ∃ explicit type doubled nominal, m = measured (number? (s.takeWhile Char.isDigit)) explicit type doubled nominal ∧
      (∀ k ∈ explicit, k < 2 ^ 31) ∧ ∀ n ∈ nominal, byteCount n < byteCount s := by
  have hdigits : (s.dropWhile Char.isDigit).Sublist s := List.dropWhile_sublist _
  unfold measure? at h
  cases hs : s.dropWhile Char.isDigit with
  | nil =>
    rw [hs] at h
    cases h
  | cons t rest =>
    rw [hs] at h hdigits
    dsimp only at h
    generalize (rest.head?.map Char.toUpper == some 'D' && decide (t.toUpper ∈ ['A', 'F', 'V'])) = doubled at h
    split at h
    · cases h
    have hlength := exactLength_sublist (if doubled = true then rest.tail else rest)
    have hfits (k : Nat) := exactLength_lt (s := if doubled = true then rest.tail else rest) (k := k)
    generalize exactLength (if doubled = true then rest.tail else rest) = l at h hlength hfits
    obtain ⟨explicit, behind⟩ := l
    dsimp only at h hlength hfits
    split at h
    · cases h
    · rename_i nominal hnominal
      refine ⟨explicit, t.toUpper, doubled, nominal, (Option.some.inj h).symm, fun k hk => hfits k hk, ?_⟩
      rintro n rfl
      have hrest : (if doubled = true then rest.tail else rest).Sublist rest := by
        split
        · exact List.tail_sublist rest
        · exact List.Sublist.refl rest
      have hbehind : (behind.dropWhile fun c => c != '\'' && c != '(').Sublist s :=
        (List.dropWhile_sublist _).trans (hlength.trans (hrest.trans ((List.sublist_cons_self t rest).trans hdigits)))
      exact Nat.lt_of_lt_of_le (byteCount_of_nominal? hnominal) (byteCount_le_of_sublist hbehind)

/-- The numbers of a text that is not too long fit into words. -/
theorem measure?_bounds {m : DataMeasure} (h : measure? s = some m) :
    m.repetitions < 2 ^ 31 ∧ 1 ≤ m.count ∧ (byteCount s < 2 ^ 31 → m.count < 2 ^ 31 ∧ m.length < 2 ^ 31) := by
  obtain ⟨explicit, type, doubled, nominal, rfl, hexplicit, hnominal⟩ := exists_measured h
  refine ⟨?_, valueCount_pos type nominal, fun hs => ⟨?_, ?_⟩⟩
  · show (number? (s.takeWhile Char.isDigit)).getD 1 < 2 ^ 31
    cases hk : number? (s.takeWhile Char.isDigit) with
    | none => decide
    | some k => exact number?_lt hk
  · have : valueCount type nominal ≤ max 1 (byteCount s) := valueCount_le type hnominal
    show valueCount type nominal < 2 ^ 31
    omega
  · have := implicitLength_le type doubled hnominal
    show explicit.getD (implicitLength type doubled nominal).1 < 2 ^ 31
    cases explicit with
    | none =>
      show (implicitLength type doubled nominal).1 < 2 ^ 31
      omega
    | some k => exact hexplicit k rfl

/-! ### What is read makes sense -/

/-- The numbers of an operand make sense. -/
structure Sensible (d : DataOperand) : Prop where
  repetitions : 0 ≤ d.repetitions
  length : 0 ≤ d.length
  count : 1 ≤ d.count
  alignment : d.alignment ∈ [1, 2, 4, 8]

theorem Holds.alignment_mem {m : DataMeasure} (h : d.Holds m) : d.alignment ∈ [1, 2, 4, 8] := by
  have hmem := List.mem_map_of_mem (f := Int32.ofNat) m.isBoundary
  rw [h.alignment]
  exact hmem

theorem Holds.repetitions_nonneg {m : DataMeasure} (h : d.Holds m) (fits : m.repetitions < 2 ^ 31) :
    0 ≤ d.repetitions := by
  rw [Int32.le_iff_toInt_le, h.repetitions, toInt_ofNat_eq_iff.2 fits]
  exact Int.natCast_nonneg _

theorem Holds.length_nonneg {m : DataMeasure} (h : d.Holds m) (fits : m.length < 2 ^ 31) : 0 ≤ d.length := by
  rw [Int32.le_iff_toInt_le, h.length, toInt_ofNat_eq_iff.2 fits]
  exact Int.natCast_nonneg _

theorem Holds.one_le_count {m : DataMeasure} (h : d.Holds m) (fits : m.count < 2 ^ 31) (hpos : 1 ≤ m.count) :
    1 ≤ d.count := by
  rw [Int32.le_iff_toInt_le, h.count, toInt_ofNat_eq_iff.2 fits]
  exact Int.ofNat_le.2 hpos

end

/-! ### Counts that overflow -/

theorem length_splitOperandsFrom_commas (before current : List Char) (k : Nat) :
    (splitOperandsFrom {} before current (List.replicate k ',')).length = k + 1 := by
  induction k generalizing before current with
  | zero => rfl
  | succ k ih =>
    rw [List.replicate_succ, splitOperandsFrom, if_pos ⟨rfl, rfl⟩, List.length_cons, ih]

/-- Nominal values that are all empty are counted as well. -/
theorem exists_parse_commas (k : Nat) :
    ∃ d, parse ('A' :: '(' :: (List.replicate (k + 1) ',' ++ [')'])) = .ok d ∧ d.count = Int32.ofNat (k + 2) := by
  have hnominal : nominal? ('(' :: (List.replicate (k + 1) ',' ++ [')'])) = .ok (some (List.replicate (k + 1) ',')) := by
    simp [nominal?]
  have hcount : valueCount 'A' (some (List.replicate (k + 1) ',')) = k + 2 := by
    have hsplit : (splitOperands (List.replicate (k + 1) ',')).length = k + 2 := by
      rw [splitOperands, if_neg (by simp)]
      exact length_splitOperandsFrom_commas [] [] (k + 1)
    rw [valueCount, if_neg (by decide), hsplit]
    omega
  refine ⟨⟨1, 'A', 4, 4, Int32.ofNat (k + 2)⟩, ?_, rfl⟩
  show (nominal? ('(' :: (List.replicate (k + 1) ',' ++ [')'])) >>= _) = _
  rw [hnominal, ← hcount]
  rfl

end AssemblerIndex.DataOperand
