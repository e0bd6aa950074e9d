import AssemblerIndex.Proofs.Symbol.DataOperands
import AssemblerIndex.Proofs.Symbol.Offsets
import Mathlib.Algebra.Group.Int.Defs
import Mathlib.Data.List.Chain

/-!
# Extents of storage

Storage is laid out by moving a location counter up to a boundary and then on by the room that is needed.  Offsets are
words, so this comes out right as long as all of it ends below 2³¹.

* `Extent` — storage laid out under a location counter; its begin and end are what the counter was moved to;
* `Extent.Fits` — the storage ends below 2³¹, in exact numbers;
* `Extent.IsExact` — the room is reserved exactly, and moving the counter neither makes it smaller nor negative; this
  is so just for what fits (`Extent.isExact_iff_fits`);
* `Follows` — every extent begins where its counter stood;
* `Follows.laidOut` — **extents that follow each other and fit are disjoint and in order under each counter**, with
  gaps smaller than an alignment.
-/

namespace AssemblerIndex

/-! ### Words that do not overflow -/

section Words

variable {a b : Int32}

/-- The sum of words that are not negative is exact below 2³¹ and negative above. -/
theorem toInt_add_of_nonneg (ha : 0 ≤ a.toInt) (hb : 0 ≤ b.toInt) :
    (a + b).toInt = if a.toInt + b.toInt < 2 ^ 31 then a.toInt + b.toInt else a.toInt + b.toInt - 2 ^ 32 := by
  have ha' := a.toInt_lt
  have hb' := b.toInt_lt
  rw [Int32.toInt_add, Int.bmod_def]
  omega

/-- The least multiple of an alignment from a number on. -/
def roundUp (alignment : Nat) (n : Int) : Int := n + -n % alignment

variable {alignment : Nat} {n : Int}

theorem dvd_roundUp (alignment : Nat) (n : Int) : (alignment : Int) ∣ roundUp alignment n := by
  rw [roundUp, Int.dvd_iff_emod_eq_zero, Int.add_emod_emod, Int.add_right_neg, Int.zero_emod]

theorem le_roundUp (h : 0 < alignment) (n : Int) : n ≤ roundUp alignment n := by
  have := Int.emod_nonneg (-n) (Int.natCast_ne_zero.2 (Nat.ne_of_gt h))
  unfold roundUp
  omega

theorem roundUp_lt (h : 0 < alignment) (n : Int) : roundUp alignment n < n + alignment := by
  have := Int.emod_lt_of_pos (-n) (Int.natCast_pos.2 h)
  unfold roundUp
  omega

theorem roundUp_eq (alignment : Nat) (n : Int) :
    roundUp alignment n = if (alignment : Int) ∣ n then n else n + (alignment - n % alignment) := by
  rw [roundUp, Int.neg_emod, Int.natAbs_natCast]
  split
  · exact Int.add_zero n
  · rfl

/-- An offset is moved up exactly below 2³¹, and becomes negative above. -/
theorem toInt_alignOffset (h : alignment ∈ [1, 2, 4, 8]) (ha : 0 ≤ a.toInt) :
    (alignOffset (Int32.ofNat alignment) a).toInt =
      if roundUp alignment a.toInt < 2 ^ 31 then roundUp alignment a.toInt else roundUp alignment a.toInt - 2 ^ 32 := by
  have hbounds : 0 < alignment ∧ alignment ≤ 8 := by
    simp only [List.mem_cons, List.not_mem_nil, or_false] at h
    omega
  have hpos : (0 : Int) < alignment := Int.natCast_pos.2 hbounds.1
  have hnonneg := Int.emod_nonneg a.toInt (Int.ne_of_gt hpos)
  have hsmall := Int.emod_lt_of_pos a.toInt hpos
  -- the words that are computed hold the numbers that they should
  have hword : (Int32.ofNat alignment).toInt = alignment := Int32.toInt_ofNat_of_lt (by omega)
  have hrest : (a % Int32.ofNat alignment).toInt = a.toInt % alignment := by
    rw [Int32.toInt_mod, hword, Int.tmod_eq_emod_of_nonneg ha]
  have hgap : (Int32.ofNat alignment - a % Int32.ofNat alignment).toInt = alignment - a.toInt % alignment := by
    rw [Int32.toInt_sub, hword, hrest, Int.bmod_def]
    omega
  have hone : (1 : Int32) < Int32.ofNat alignment ↔ 1 < alignment := by
    rw [Int32.lt_iff_toInt_lt, hword]
    exact Int.ofNat_lt (n := 1)
  have hzero : a % Int32.ofNat alignment ≠ 0 ↔ ¬(alignment : Int) ∣ a.toInt := by
    rw [Ne, ← Int32.toInt_inj, hrest, Int.dvd_iff_emod_eq_zero]
    rfl
  unfold alignOffset
  simp only [hone, hzero]
  split
  · rename_i hmoved
    rw [toInt_add_of_nonneg ha (by omega), hgap, roundUp_eq, if_neg hmoved.2]
  · rename_i hstays
    have hdvd : (alignment : Int) ∣ a.toInt := by
      by_contra hdvd
      have hsame : alignment = 1 := Nat.le_antisymm (Nat.le_of_not_lt fun hlt => hstays ⟨hlt, hdvd⟩) hbounds.1
      exact hdvd (hsame ▸ Int.one_dvd _)
    rw [roundUp_eq, if_pos hdvd, if_pos a.toInt_lt]

end Words

/-! ### Extents -/

/-- Storage that is needed: some room from a boundary on. -/
structure Demand where
  alignment : Nat
  room : Nat
  isBoundary : alignment ∈ [1, 2, 4, 8]
  deriving Repr

/-- Storage laid out under a location counter, which stood at `before`. -/
structure Extent extends Demand where
  counter : CounterRef
  before : Int32
  deriving Repr

theorem Demand.alignment_pos (d : Demand) : 0 < d.alignment := by
  have := d.isBoundary
  simp only [List.mem_cons, List.not_mem_nil, or_false] at this
  omega

namespace Extent

variable {e : Extent}

/-- What the counter is moved up to. -/
def start (e : Extent) : Int32 := alignOffset (Int32.ofNat e.alignment) e.before

/-- What the counter is moved on to. -/
def stop (e : Extent) : Int32 := e.start + Int32.ofNat e.room

/-- The storage ends below 2³¹, in exact numbers. -/
def Fits (e : Extent) : Prop := roundUp e.alignment e.before.toInt + e.room < 2 ^ 31

instance (e : Extent) : Decidable e.Fits := inferInstanceAs (Decidable (_ < _))

/-- The room is reserved exactly, and the counter neither becomes smaller nor is it ever negative. -/
structure IsExact (e : Extent) : Prop where
  room : (Int32.ofNat e.room).toInt = e.room
  nonneg : 0 ≤ e.before
  up : e.before ≤ e.start
  on : e.start ≤ e.stop

theorem le_roundUp_before (e : Extent) : e.before.toInt ≤ roundUp e.alignment e.before.toInt :=
  le_roundUp e.alignment_pos _

/-- What fits begins at the next boundary. -/
theorem Fits.toInt_start (h : e.Fits) (h0 : 0 ≤ e.before.toInt) :
    e.start.toInt = roundUp e.alignment e.before.toInt := by
  unfold Fits at h
  rw [start, toInt_alignOffset e.isBoundary h0, if_pos (by omega)]

theorem Fits.toInt_room (h : e.Fits) (h0 : 0 ≤ e.before.toInt) : (Int32.ofNat e.room).toInt = e.room := by
  have := e.le_roundUp_before
  unfold Fits at h
  exact toInt_ofNat_eq_iff.2 (by omega)

/-- What fits ends behind the room that it takes. -/
theorem Fits.toInt_stop (h : e.Fits) (h0 : 0 ≤ e.before.toInt) : e.stop.toInt = e.start.toInt + e.room := by
  have := e.le_roundUp_before
  have hstart := h.toInt_start h0
  have hroom := h.toInt_room h0
  unfold Fits at h
  rw [stop, toInt_add_of_nonneg (by omega) (by omega), hroom, if_pos (by omega)]

theorem Fits.start_bounds (h : e.Fits) (h0 : 0 ≤ e.before.toInt) :
    e.before.toInt ≤ e.start.toInt ∧ e.start.toInt < e.before.toInt + e.alignment := by
  rw [h.toInt_start h0]
  exact ⟨e.le_roundUp_before, roundUp_lt e.alignment_pos _⟩

/-- **Storage is laid out exactly if and only if it fits**, from an offset that is not negative on. -/
theorem isExact_iff_fits (h0 : 0 ≤ e.before.toInt) : e.IsExact ↔ e.Fits := by
  have hround := e.le_roundUp_before
  have hlt := e.before.toInt_lt
  constructor
  · rintro ⟨hroom, -, hup, hon⟩
    rw [Int32.le_iff_toInt_le] at hup hon
    -- moving up to 2³¹ or beyond would make the counter negative
    have hstart : e.start.toInt = roundUp e.alignment e.before.toInt := by
      rw [start, toInt_alignOffset e.isBoundary h0] at hup ⊢
      have := roundUp_lt e.alignment_pos e.before.toInt
      have hbound : e.alignment ≤ 8 := by
        have := e.isBoundary
        simp only [List.mem_cons, List.not_mem_nil, or_false] at this
        omega
      omega
    -- and so would moving on
    have hroom' := toInt_ofNat_eq_iff.1 hroom
    rw [stop, toInt_add_of_nonneg (by omega) (by omega), hroom, hstart] at hon
    unfold Fits
    omega
  · intro h
    have hstart := h.toInt_start h0
    have hstop := h.toInt_stop h0
    refine ⟨h.toInt_room h0, Int32.le_iff_toInt_le.2 h0, ?_, ?_⟩ <;> rw [Int32.le_iff_toInt_le] <;> omega

end Extent

/-! ### Extents of one counter -/

/-- Extents under one counter, each of which begins where the counter stood; the first one does so at an offset. -/
def Chained (before : Int32) : List Extent → Prop
  | [] => True
  | e :: es => e.before = before ∧ Chained e.stop es

/-- The extents are disjoint and in order, from an offset on, and each of them begins at the next boundary. -/
structure LaidOut (before : Int) (es : List Extent) : Prop where
  aligned : ∀ e ∈ es, (e.alignment : Int) ∣ e.start.toInt
  exact : ∀ e ∈ es, e.stop.toInt = e.start.toInt + e.room
  first : ∀ e ∈ es.head?, e.start.toInt < before + e.alignment
  next : es.IsChain fun (e e' : Extent) => e'.start.toInt < e.stop.toInt + e'.alignment
  behind : ∀ e ∈ es, before ≤ e.start.toInt
  inOrder : es.Pairwise fun e e' => e.stop.toInt ≤ e'.start.toInt

section

variable {b : Int32} {es : List Extent}

/-- **Extents under one counter are disjoint and in order**, with gaps smaller than an alignment, if they fit. -/
theorem Chained.laidOut (h : Chained b es) (h0 : 0 ≤ b.toInt) (hfits : ∀ e ∈ es, e.Fits) : LaidOut b.toInt es := by
  induction es generalizing b with
  | nil => exact ⟨nofun, nofun, nofun, .nil, nofun, .nil⟩
  | cons e es ih =>
    obtain ⟨rfl, h⟩ := h
    have hfit := hfits e List.mem_cons_self
    have hstart := hfit.toInt_start h0
    have hstop := hfit.toInt_stop h0
    have hbounds := hfit.start_bounds h0
    have hrest := ih h (by omega) fun e he => hfits e (List.mem_cons_of_mem _ he)
    constructor
    · exact List.forall_mem_cons.2 ⟨hstart ▸ dvd_roundUp .., hrest.aligned⟩
    · exact List.forall_mem_cons.2 ⟨hstop, hrest.exact⟩
    · rintro _ ⟨⟩
      exact hbounds.2
    · exact List.isChain_cons.2 ⟨hrest.first, hrest.next⟩
    · refine List.forall_mem_cons.2 ⟨hbounds.1, fun e' he' => ?_⟩
      have := hrest.behind e' he'
      omega
    · exact List.pairwise_cons.2 ⟨hrest.behind, hrest.inOrder⟩

end

/-! ### Extents of all counters -/

/-- The offsets of the counters behind extents. -/
def offsetsAfter (f : CounterRef → Int32) : List Extent → CounterRef → Int32
  | [] => f
  | e :: es => offsetsAfter (Function.update f e.counter e.stop) es

/-- Each extent begins where its counter stood, from the given offsets on. -/
def Follows (f : CounterRef → Int32) : List Extent → Prop
  | [] => True
  | e :: es => e.before = f e.counter ∧ Follows (Function.update f e.counter e.stop) es

/-- The extents under a counter. -/
def extentsOf (k : CounterRef) (es : List Extent) : List Extent := es.filter (·.counter = k)

section

variable {f : CounterRef → Int32} {es es' : List Extent} {k : CounterRef}

theorem offsetsAfter_append (f : CounterRef → Int32) (es es' : List Extent) :
    offsetsAfter f (es ++ es') = offsetsAfter (offsetsAfter f es) es' := by
  induction es generalizing f with
  | nil => rfl
  | cons e es ih => exact ih _

theorem Follows.append (h : Follows f es) (h' : Follows (offsetsAfter f es) es') : Follows f (es ++ es') := by
  induction es generalizing f with
  | nil => exact h'
  | cons e es ih => exact ⟨h.1, ih h.2 h'⟩

/-- Counters without extents stay where they are. -/
theorem offsetsAfter_of_ne (hk : ∀ e ∈ es, e.counter ≠ k) : offsetsAfter f es k = f k := by
  induction es generalizing f with
  | nil => rfl
  | cons e es ih =>
    refine (ih fun e' he' => hk e' (List.mem_cons_of_mem _ he')).trans ?_
    exact Function.update_of_ne (hk e List.mem_cons_self).symm ..

/-- The extents under a counter are chained from where it stood. -/
theorem Follows.chained (h : Follows f es) (k : CounterRef) : Chained (f k) (extentsOf k es) := by
  induction es generalizing f with
  | nil => trivial
  | cons e es ih =>
    have hrest := ih h.2
    unfold extentsOf at hrest ⊢
    by_cases hk : e.counter = k
    · subst hk
      rw [Function.update_self] at hrest
      rw [List.filter_cons_of_pos (by simp)]
      exact ⟨h.1, hrest⟩
    · rw [Function.update_of_ne (Ne.symm hk)] at hrest
      rwa [List.filter_cons_of_neg (by simpa using hk)]

/-- A counter stands where its last extent ends. -/
theorem offsetsAfter_eq (f : CounterRef → Int32) (es : List Extent) (k : CounterRef) :
    offsetsAfter f es k = ((extentsOf k es).getLast?.map (·.stop)).getD (f k) := by
  induction es generalizing f with
  | nil => rfl
  | cons e es ih =>
    rw [offsetsAfter, ih]
    unfold extentsOf
    by_cases hk : e.counter = k
    · subst hk
      rw [List.filter_cons_of_pos (by simp), List.getLast?_cons, Function.update_self]
      cases (es.filter (·.counter = e.counter)).getLast? <;> rfl
    · rw [List.filter_cons_of_neg (by simpa using hk), Function.update_of_ne (Ne.symm hk)]

/-- **Extents that follow each other and fit are disjoint and in order under each counter.** -/
theorem Follows.laidOut (h : Follows f es) (h0 : ∀ k, 0 ≤ (f k).toInt) (hfits : ∀ e ∈ es, e.Fits) (k : CounterRef) :
    LaidOut (f k).toInt (extentsOf k es) :=
  (h.chained k).laidOut (h0 k) fun e he => hfits e (List.mem_of_mem_filter he)

/-- As long as all fits, counters are not negative and do not become smaller. -/
theorem Follows.nonneg (h : Follows f es) (h0 : ∀ k, 0 ≤ (f k).toInt) (hfits : ∀ e ∈ es, e.Fits) :
    (∀ e ∈ es, 0 ≤ e.before.toInt) ∧ ∀ k, (f k).toInt ≤ (offsetsAfter f es k).toInt := by
  induction es generalizing f with
  | nil => exact ⟨nofun, fun k => Int.le_refl _⟩
  | cons e es ih =>
    have hbefore : 0 ≤ e.before.toInt := h.1 ▸ h0 e.counter
    have hfit := hfits e List.mem_cons_self
    have hstop := hfit.toInt_stop hbefore
    have hstart := hfit.start_bounds hbefore
    have hup (k : CounterRef) : (f k).toInt ≤ (Function.update f e.counter e.stop k).toInt := by
      by_cases hk : k = e.counter
      · rw [hk, Function.update_self, ← h.1]
        omega
      · simp only [Function.update_of_ne hk, Int.le_refl]
    obtain ⟨hnonneg, hrest⟩ :=
      ih h.2 (fun k => Int.le_trans (h0 k) (hup k)) fun e he => hfits e (List.mem_cons_of_mem _ he)
    exact ⟨List.forall_mem_cons.2 ⟨hbefore, hnonneg⟩, fun k => Int.le_trans (hup k) (hrest k)⟩

/-- **All is laid out exactly if and only if all fits.** -/
theorem Follows.isExact_iff_fits (h : Follows f es) (h0 : ∀ k, 0 ≤ (f k).toInt) :
    (∀ e ∈ es, e.IsExact) ↔ ∀ e ∈ es, e.Fits := by
  constructor
  · intro hexact e he
    have hbefore := Int32.le_iff_toInt_le.1 (hexact e he).nonneg
    exact (Extent.isExact_iff_fits hbefore).1 (hexact e he)
  · intro hfits e he
    exact (Extent.isExact_iff_fits ((h.nonneg h0 hfits).1 e he)).2 (hfits e he)

end

/-! ### Storage under the counter in use -/

/-- The storage for demands under a counter that stands at an offset. -/
def extentsFrom (k : CounterRef) (before : Int32) : List Demand → List Extent
  | [] => []
  | d :: ds =>
    let e : Extent := { d with counter := k, before }
    e :: extentsFrom k e.stop ds

section

variable {k : CounterRef}

theorem counter_of_mem_extentsFrom {before : Int32} {ds : List Demand} {e : Extent} (h : e ∈ extentsFrom k before ds) :
    e.counter = k := by
  induction ds generalizing before with
  | nil => cases h
  | cons d ds ih =>
    rcases List.mem_cons.1 h with rfl | h
    · rfl
    · exact ih h

theorem follows_extentsFrom (f : CounterRef → Int32) (k : CounterRef) (ds : List Demand) :
    Follows f (extentsFrom k (f k) ds) := by
  induction ds generalizing f with
  | nil => trivial
  | cons d ds ih =>
    refine ⟨rfl, ?_⟩
    have hrest := ih (Function.update f k (Extent.stop { d with counter := k, before := f k }))
    rwa [Function.update_self] at hrest

end

end AssemblerIndex
