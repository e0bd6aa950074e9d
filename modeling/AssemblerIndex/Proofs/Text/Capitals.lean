import AssemblerIndex.Text.LetterCase

/-!
# Capital letters stay as they are

What `upper` leaves behind are characters that it maps to themselves, so a name in capital letters is
its own capital form.  Outside of ASCII this is read off the tables: the images of a run lie apart from
the characters of every run and from those with a longer capital form.
-/

namespace AssemblerIndex.Text

/-- The character is its own capital form. -/
def IsCapital (c : Char) : Prop := upperChar c = [c]

instance (c : Char) : Decidable (IsCapital c) := by unfold IsCapital; infer_instance

/-! ### Runs -/

/-- The first image of a run. -/
def CaseRun.firstImage (r : CaseRun) : Nat := (r.first + r.shift).toNat

/-- The last image of a run. -/
def CaseRun.lastImage (r : CaseRun) : Nat := (r.last + r.shift).toNat

/-- All characters of the run are even, or all are odd. -/
def CaseRun.hasParity (r : CaseRun) : Bool := r.step == 2 || r.first == r.last

/-- No image of the run `r` is a character of the run `q`, to judge by their ends and by parity. -/
def CaseRun.isApart (r q : CaseRun) : Bool :=
  Nat.blt r.lastImage q.first || Nat.blt q.last r.firstImage ||
    (r.hasParity && q.hasParity && (r.firstImage + q.first) % 2 == 1)

/-- The run goes up to its end, and its images are no negative numbers. -/
def CaseRun.isProper (r : CaseRun) : Bool := decide (r.first ≤ r.last) && decide (0 ≤ r.first + r.shift)

theorem CaseRun.covers_parity {r : CaseRun} {n : Nat} (h : r.covers n) (hr : r.hasParity) :
    n % 2 = r.first % 2 := by
  simp only [covers, hasParity, Bool.and_eq_true, Bool.or_eq_true, decide_eq_true_eq, beq_iff_eq] at h hr
  obtain ⟨⟨h1, h2⟩, h3⟩ := h
  rcases hr with hs | hs
  · rw [hs] at h3
    omega
  · have : n = r.first := by omega
    rw [this]

/-- A run covers no image of a run that lies apart from it. -/
theorem CaseRun.not_covers_of_isApart {r q : CaseRun} {n : Nat} (hn : r.covers n) (hr : r.isProper)
    (h : r.isApart q) : ¬ q.covers (n + r.shift).toNat := by
  intro hq
  have hc := hn
  have hd := hq
  simp only [covers, Bool.and_eq_true, decide_eq_true_eq, beq_iff_eq] at hc hd
  simp only [isProper, Bool.and_eq_true, decide_eq_true_eq] at hr
  simp only [isApart, firstImage, lastImage, Bool.and_eq_true, Bool.or_eq_true, Nat.blt_eq,
    beq_iff_eq] at h
  rcases h with (h | h) | ⟨⟨hp, hp'⟩, hodd⟩
  · omega
  · omega
  · have h1 := covers_parity hn hp
    have h2 := covers_parity hq hp'
    omega

/-! ### The tables -/

/-- The characters with a longer capital form, one run for each. -/
def longRuns : List CaseRun := longCapitals.map fun e => ⟨e.1, e.1, 1, 0⟩

theorem upperRuns_isProper : upperRuns.all CaseRun.isProper := by decide +kernel

theorem upperRuns_isApart : upperRuns.all fun r => upperRuns.all r.isApart := by decide +kernel

theorem upperRuns_isApart_longRuns : upperRuns.all fun r => longRuns.all r.isApart := by decide +kernel

/-- The images of a run are beyond ASCII, but for two runs of one character. -/
theorem upperRuns_firstImage : upperRuns.all fun r => Nat.ble 128 r.firstImage ||
    r.first == r.last && decide (IsCapital (Char.ofNat r.firstImage)) := by decide +kernel

theorem longCapitals_isCapital :
    longCapitals.all fun e => e.2.all fun n => decide (IsCapital (Char.ofNat n)) := by decide +kernel

theorem ascii_isCapital : ∀ n < 128, IsCapital (Char.ofNat n).toUpper := by decide +kernel

/-! ### Characters -/

theorem lookup_eq_none_of_forall {n : Nat} {l : List (Nat × List Nat)} (h : ∀ e ∈ l, n ≠ e.1) :
    l.lookup n = none := by
  rw [List.lookup_eq_none_iff]
  intro e he
  simpa using h e he

/-- An image of a run outside of ASCII is its own capital form. -/
theorem isCapital_of_covers {r : CaseRun} (hr : r ∈ upperRuns) {c d : Char} (hc : r.covers c.toNat)
    (hd : d.toNat = (c.toNat + r.shift).toNat) (hge : 128 ≤ d.toNat) : IsCapital d := by
  have hproper := List.all_eq_true.1 upperRuns_isProper r hr
  have long : longCapitals.lookup d.toNat = none := by
    refine lookup_eq_none_of_forall fun e he heq => ?_
    have hq : (⟨e.1, e.1, 1, 0⟩ : CaseRun) ∈ longRuns := List.mem_map.2 ⟨e, he, rfl⟩
    have := CaseRun.not_covers_of_isApart hc hproper
      (List.all_eq_true.1 (List.all_eq_true.1 upperRuns_isApart_longRuns r hr) _ hq)
    rw [← hd, heq] at this
    simp [CaseRun.covers] at this
  have runs : upperRuns.find? (·.covers d.toNat) = none := by
    rw [List.find?_eq_none]
    intro q hq
    rw [hd]
    exact CaseRun.not_covers_of_isApart hc hproper
      (List.all_eq_true.1 (List.all_eq_true.1 upperRuns_isApart r hr) q hq)
  unfold IsCapital upperChar mapByRuns
  rw [if_neg (by omega), long, runs]

/-- The image under a run is capital, unless the character stays as it is. -/
theorem isCapital_of_mapByRuns {c : Char} (h : mapByRuns upperRuns c ≠ c) :
    IsCapital (mapByRuns upperRuns c) := by
  unfold mapByRuns at h ⊢
  split
  · rename_i r hr
    rw [hr] at h
    have hmem := List.mem_of_find?_eq_some hr
    have hcov : r.covers c.toNat := by simpa using List.find?_some hr
    unfold shifted at h ⊢
    dsimp only at h ⊢
    split
    · rename_i hvalid
      have hnat : (Char.ofNat (c.toNat + r.shift).toNat).toNat = (c.toNat + r.shift).toNat := by
        unfold Char.ofNat
        rw [dif_pos hvalid]
        rfl
      rcases Nat.lt_or_ge (c.toNat + r.shift).toNat 128 with hlt | hge
      · -- a run with an image in ASCII has one character, and its image is listed
        have hone := List.all_eq_true.1 upperRuns_firstImage r hmem
        simp only [Bool.or_eq_true, Nat.ble_eq, Bool.and_eq_true, beq_iff_eq, CaseRun.firstImage] at hone
        have hcov' := hcov
        simp only [CaseRun.covers, Bool.and_eq_true, decide_eq_true_eq, beq_iff_eq] at hcov'
        rcases hone with h128 | ⟨hone, hcap⟩
        · omega
        · rw [show c.toNat = r.first by omega]
          exact of_decide_eq_true hcap
      · exact isCapital_of_covers hmem hcov hnat (by rw [hnat]; exact hge)
    · rename_i hvalid
      exact absurd (if_neg hvalid) h
  · rename_i hr
    rw [hr] at h
    exact absurd rfl h

/-- **What a capital form consists of is capital.** -/
theorem isCapital_of_mem_upperChar {c d : Char} (h : d ∈ upperChar c) : IsCapital d := by
  by_cases hlt : c.toNat < 128
  · have huc : upperChar c = [c.toUpper] := if_pos hlt
    rw [huc, List.mem_singleton] at h
    have := ascii_isCapital c.toNat hlt
    rwa [Char.ofNat_toNat, ← h] at this
  · cases hlong : longCapitals.lookup c.toNat with
    | some ns =>
      have huc : upperChar c = ns.map Char.ofNat := by
        unfold upperChar
        rw [if_neg hlt, hlong]
      rw [huc] at h
      obtain ⟨n, hn, rfl⟩ := List.mem_map.1 h
      obtain ⟨l₁, l₂, hl, -⟩ := List.lookup_eq_some_iff.1 hlong
      have he : (c.toNat, ns) ∈ longCapitals := by rw [hl]; simp
      exact of_decide_eq_true (List.all_eq_true.1 (List.all_eq_true.1 longCapitals_isCapital _ he) n hn)
    | none =>
      have huc : upperChar c = [mapByRuns upperRuns c] := by
        unfold upperChar
        rw [if_neg hlt, hlong]
      rw [huc, List.mem_singleton] at h
      subst h
      by_cases hself : mapByRuns upperRuns c = c
      · rw [hself] at huc ⊢
        exact huc
      · exact isCapital_of_mapByRuns hself

/-! ### Texts -/

theorem upperChars_of_isCapital {s : List Char} (h : ∀ c ∈ s, IsCapital c) : upperChars s = s := by
  induction s with
  | nil => rfl
  | cons c s ih =>
    unfold upperChars at ih ⊢
    rw [List.flatMap_cons, h c List.mem_cons_self, ih fun d hd => h d (List.mem_cons_of_mem _ hd)]
    rfl

/-- **A text in capital letters is its own capital form.** -/
theorem upperChars_upperChars (s : List Char) : upperChars (upperChars s) = upperChars s := by
  refine upperChars_of_isCapital fun d hd => ?_
  obtain ⟨c, -, hc⟩ := List.mem_flatMap.1 hd
  exact isCapital_of_mem_upperChar hc

theorem upper_upper (s : String) : upper (upper s) = upper s := by
  unfold upper
  rw [String.toList_ofList, upperChars_upperChars]

/-! ### Comparison up to ASCII -/

/-- A property of characters is shown for those of ASCII one by one. -/
theorem of_ascii {P : Char → Prop} (small : ∀ n < 128, P (Char.ofNat n)) (large : ∀ c : Char, 128 ≤ c.toNat → P c)
    (c : Char) : P c := by
  by_cases hc : c.toNat < 128
  · have := small c.toNat hc
    rwa [Char.ofNat_toNat] at this
  · exact large c (by omega)

/-- A character beyond ASCII is none of a text in ASCII. -/
theorem notMem_of_ge {c : Char} {s : List Char} (hs : s.all (·.toNat < 128)) (h : 128 ≤ c.toNat) : c ∉ s := by
  intro hmem
  have : c.toNat < 128 := by simpa using List.all_eq_true.1 hs c hmem
  omega

theorem toUpper_of_ge {c : Char} (h : 128 ≤ c.toNat) : c.toUpper = c := by
  unfold Char.toUpper
  refine dif_neg fun hc => ?_
  have hle : c.toNat ≤ 'z'.toNat := hc.2
  have hz : 'z'.toNat = 122 := rfl
  omega

theorem upperChar_of_toUpper {c d : Char} (hd : IsCapital d) (h : c.toUpper = d.toUpper) :
    upperChar c = [d] := by
  have hself : d.toUpper = d := by
    by_cases hlt : d.toNat < 128
    · have huc : upperChar d = [d.toUpper] := if_pos hlt
      exact List.singleton_inj.1 (huc.symm.trans hd)
    · exact toUpper_of_ge (by omega)
  rw [hself] at h
  by_cases hlt : c.toNat < 128
  · rw [← h]
    exact if_pos hlt
  · rw [toUpper_of_ge (by omega)] at h
    rw [h]
    exact hd

/-- A text that is the same as a capital one up to the case of ASCII letters has it as its capital
form. -/
theorem upperChars_of_toUpper {s t : List Char} (ht : ∀ c ∈ t, IsCapital c)
    (h : s.map Char.toUpper = t.map Char.toUpper) : upperChars s = t := by
  induction s generalizing t with
  | nil => exact (List.map_eq_nil_iff.1 h.symm).symm
  | cons c s ih =>
    cases t with
    | nil => simp at h
    | cons d t =>
      rw [List.map_cons, List.map_cons, List.cons.injEq] at h
      have hc := upperChar_of_toUpper (ht d List.mem_cons_self) h.1
      have hs := ih (fun e he => ht e (List.mem_cons_of_mem _ he)) h.2
      unfold upperChars at hs ⊢
      rw [List.flatMap_cons, hc, hs]
      rfl

theorem upper_of_sameAscii {s t : String} (h : sameAscii s (upper t)) : upper s = upper t := by
  have hcap : ∀ c ∈ (upper t).toList, IsCapital c := by
    intro c hc
    unfold upper at hc
    rw [String.toList_ofList] at hc
    obtain ⟨b, -, hb⟩ := List.mem_flatMap.1 hc
    exact isCapital_of_mem_upperChar hb
  have hs := upperChars_of_toUpper hcap (eq_of_beq h)
  unfold upper at hs ⊢
  rw [hs, String.ofList_toList]

end AssemblerIndex.Text
