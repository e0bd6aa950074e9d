import AssemblerIndex.Proofs.Symbol.Operations
import AssemblerIndex.Proofs.Symbol.SignedTerms
import Mathlib.Data.List.Perm.Basic

/-!
# Sums and the order of their terms

Terms are summed up from left to right with one place in a section pending at a time.  So places cancel out only if each
one that is subtracted stands directly behind the one it is subtracted from, leaving absolute terms aside.

* `net` — what signed values come to in any order: places of one section and of opposite signs cancel out, and the sum
  is absolute if none is left, relocatable if one with a plus sign is, and undefined otherwise;
* `InPairs` — the places stand in such an order that they cancel out from left to right;
* `sumTerms_eq` — the value that summing up arrives at;
* `exists_order_in_pairs` — places that cancel out can be ordered so that they do so from left to right;
* `sums_in_order` — **a sum is its net value in each order in which the places stand in pairs, and undefined in the
  others**; `sum_undefined_out_of_order` is an example of the latter.
-/

namespace AssemblerIndex

/-- A value and whether it is subtracted. -/
structure SignedValue where
  isNegative : Bool
  value : SymbolValue
  deriving DecidableEq, Repr

namespace SignedValue

variable {vs ws : List SignedValue}

/-- What a value adds to the absolute part of a sum, or to its offset. -/
def amount (v : SignedValue) : Int32 :=
  let n := match v.value with
    | .absolute n => n
    | .relocatable _ offset => offset
    | .undefined => 0
  if v.isNegative then -n else n

/-- The sign and the section of a place. -/
def place? (v : SignedValue) : Option (Bool × Nat) :=
  match v.value with
  | .relocatable i _ => some (v.isNegative, i)
  | _ => none

/-- The signs and sections of the places, in order. -/
def places (vs : List SignedValue) : List (Bool × Nat) := vs.filterMap place?

/-- The sections of the places with a sign. -/
def sectionsOf (isNegative : Bool) (vs : List SignedValue) : List Nat :=
  (places vs).filterMap fun p => if p.1 = isNegative then some p.2 else none

/-- All amounts together. -/
def total (vs : List SignedValue) : Int32 := (vs.map amount).foldr (· + ·) 0

/-- The value of a sum with the sections of the places that are left over on both sides. -/
def valueWith (n : Int32) : (left owed : List Nat) → SymbolValue
  | [], [] => .absolute n
  | [i], [] => .relocatable i n
  | _, _ => .undefined

/-- What signed values come to, whatever their order. -/
def net (vs : List SignedValue) : SymbolValue :=
  let added := sectionsOf false vs
  let taken := sectionsOf true vs
  if .undefined ∈ vs.map (·.value) then .undefined
  else valueWith (total vs) (added.diff taken) (taken.diff added)

/-- Each place that is subtracted stands behind one of its section that is added, and no other place stands there but
possibly an added one at the end. -/
def InPairs : List (Bool × Nat) → Prop
  | [] => True
  | [(isNegative, _)] => isNegative = false
  | (isNegative, i) :: (isNegative', j) :: rest => isNegative = false ∧ isNegative' = true ∧ i = j ∧ InPairs rest

instance decidableInPairs : (ps : List (Bool × Nat)) → Decidable (InPairs ps)
  | [] => inferInstanceAs (Decidable True)
  | [(isNegative, _)] => inferInstanceAs (Decidable (isNegative = false))
  | (isNegative, i) :: (isNegative', j) :: rest =>
    have := decidableInPairs rest
    inferInstanceAs (Decidable (isNegative = false ∧ isNegative' = true ∧ i = j ∧ InPairs rest))

/-! ### Net values -/

@[simp] theorem places_absolute (isNegative : Bool) (n : Int32) (vs : List SignedValue) :
    places (⟨isNegative, .absolute n⟩ :: vs) = places vs := rfl

@[simp] theorem places_relocatable (isNegative : Bool) (i : Nat) (offset : Int32) (vs : List SignedValue) :
    places (⟨isNegative, .relocatable i offset⟩ :: vs) = (isNegative, i) :: places vs := rfl

theorem places_cons_of_none {v : SignedValue} (h : v.place? = none) (vs : List SignedValue) :
    places (v :: vs) = places vs :=
  List.filterMap_cons_none h

theorem places_cons_of_some {v : SignedValue} {p : Bool × Nat} (h : v.place? = some p) (vs : List SignedValue) :
    places (v :: vs) = p :: places vs :=
  List.filterMap_cons_some h

theorem places_append (vs ws : List SignedValue) : places (vs ++ ws) = places vs ++ places ws := List.filterMap_append

theorem total_cons (v : SignedValue) (vs : List SignedValue) : total (v :: vs) = v.amount + total vs := rfl

theorem total_perm (h : vs.Perm ws) : total vs = total ws := (h.map amount).foldr_op_eq

theorem sectionsOf_perm (h : vs.Perm ws) (isNegative : Bool) :
    (sectionsOf isNegative vs).Perm (sectionsOf isNegative ws) :=
  (h.filterMap place?).filterMap _

theorem valueWith_perm {l l' r r' : List Nat} (hl : l.Perm l') (hr : r.Perm r') (n : Int32) :
    valueWith n l r = valueWith n l' r' := by
  match l, l', r, r', hl.length_eq, hr.length_eq with
  | [], [], [], [], _, _ => rfl
  | [], [], _ :: _, _ :: _, _, _ => rfl
  | [i], [j], [], [], _, _ => rw [List.singleton_perm_singleton.1 hl]
  | [_], [_], _ :: _, _ :: _, _, _ => rfl
  | _ :: _ :: _, _ :: _ :: _, _, _, _, _ => rfl

/-- **The net value does not depend on the order.** -/
theorem net_perm (h : vs.Perm ws) : net vs = net ws := by
  have hleft := (sectionsOf_perm h false).diff (sectionsOf_perm h true)
  have howed := (sectionsOf_perm h true).diff (sectionsOf_perm h false)
  simp only [net, (h.map (·.value)).mem_iff, total_perm h, valueWith_perm hleft howed]

/-! ### Values in pairs -/

/-- The net value if the places stand in pairs. -/
def settled (vs : List SignedValue) : SymbolValue := if InPairs (places vs) then net vs else .undefined

theorem net_congr (hplaces : places vs = places ws) (htotal : total vs = total ws)
    (hundefined : .undefined ∈ vs.map (·.value) ↔ .undefined ∈ ws.map (·.value)) : net vs = net ws := by
  simp only [net, sectionsOf, hplaces, htotal, hundefined]

theorem settled_congr (hpairs : InPairs (places vs) ↔ InPairs (places ws)) (hnet : net vs = net ws) :
    settled vs = settled ws := by
  simp only [settled, hpairs, hnet]

/-- An absolute value is added to the absolute part wherever it stands. -/
theorem settled_absolute (isNegative : Bool) (a n : Int32) (ps vs : List SignedValue) :
    settled (⟨false, .absolute a⟩ :: (ps ++ ⟨isNegative, .absolute n⟩ :: vs)) =
      settled (⟨false, .absolute (a + if isNegative then -n else n)⟩ :: (ps ++ vs)) := by
  have hplaces : places (⟨false, .absolute a⟩ :: (ps ++ ⟨isNegative, .absolute n⟩ :: vs)) =
      places (⟨false, .absolute (a + if isNegative then -n else n)⟩ :: (ps ++ vs)) := by
    simp [places_append]
  have htotal : total (⟨false, .absolute a⟩ :: (ps ++ ⟨isNegative, .absolute n⟩ :: vs)) =
      total (⟨false, .absolute (a + if isNegative then -n else n)⟩ :: (ps ++ vs)) := by
    rw [total_cons, total_perm List.perm_middle, total_cons, total_cons, ← Int32.add_assoc]
    rfl
  exact settled_congr (by rw [hplaces]) (net_congr hplaces htotal (by simp))

/-- Two places of one section cancel out, and leave their distance. -/
theorem settled_pair (a : Int32) (i : Nat) (start offset : Int32) (vs : List SignedValue) :
    settled (⟨false, .absolute a⟩ :: ⟨false, .relocatable i start⟩ :: ⟨true, .relocatable i offset⟩ :: vs) =
      settled (⟨false, .absolute (a + (start - offset))⟩ :: vs) := by
  have htotal : total (⟨false, .absolute a⟩ :: ⟨false, .relocatable i start⟩ :: ⟨true, .relocatable i offset⟩ :: vs) =
      total (⟨false, .absolute (a + (start - offset))⟩ :: vs) := by
    simp only [total_cons, ← Int32.add_assoc]
    simp [amount, Int32.sub_eq_add_neg, Int32.add_assoc]
  refine settled_congr (by simp [InPairs]) ?_
  simp [net, sectionsOf, htotal, List.diff_cons]

theorem settled_alone (n : Int32) : settled [⟨false, .absolute n⟩] = .absolute n := by
  show SymbolValue.absolute (n + 0) = _
  rw [Int32.add_zero]

theorem settled_base (n : Int32) (i : Nat) (offset : Int32) :
    settled [⟨false, .absolute n⟩, ⟨false, .relocatable i offset⟩] = .relocatable i (offset + n) := by
  show SymbolValue.relocatable i (n + (offset + 0)) = _
  rw [Int32.add_zero, Int32.add_comm]

theorem settled_of_not (h : ¬InPairs (places vs)) : settled vs = .undefined := if_neg h

theorem settled_of_undefined (h : .undefined ∈ vs.map (·.value)) : settled vs = .undefined := by
  unfold settled net
  simp [h]

/-! ### Orders in pairs -/

/-- Every place that is subtracted is made up for by one that is added, and at most one of the latter is left over. -/
def Cancels (vs : List SignedValue) : Prop :=
  (sectionsOf true vs).diff (sectionsOf false vs) = [] ∧
    ((sectionsOf false vs).diff (sectionsOf true vs)).length ≤ 1

theorem cancels_of_net {vs : List SignedValue} (h : net vs ≠ .undefined) : Cancels vs := by
  unfold net at h
  dsimp only at h
  split at h
  · exact absurd rfl h
  · unfold Cancels
    generalize (sectionsOf false vs).diff (sectionsOf true vs) = left at h ⊢
    generalize (sectionsOf true vs).diff (sectionsOf false vs) = owed at h ⊢
    match left, owed, h with
    | [], [], _ => exact ⟨rfl, Nat.zero_le 1⟩
    | [_], [], _ => exact ⟨rfl, Nat.le_refl 1⟩
    | [], _ :: _, h => exact absurd rfl h
    | [_], _ :: _, h => exact absurd rfl h
    | _ :: _ :: _, _, h => exact absurd rfl h

theorem Cancels.perm {vs ws : List SignedValue} (h : Cancels vs) (hp : vs.Perm ws) : Cancels ws := by
  have howed := (sectionsOf_perm hp true).diff (sectionsOf_perm hp false)
  have hleft := (sectionsOf_perm hp false).diff (sectionsOf_perm hp true)
  exact ⟨(h.1 ▸ howed).nil_eq.symm, hleft.length_eq ▸ h.2⟩

theorem mem_sectionsOf {vs : List SignedValue} {isNegative : Bool} {i : Nat} :
    i ∈ sectionsOf isNegative vs ↔ ∃ v ∈ vs, v.place? = some (isNegative, i) := by
  simp only [sectionsOf, places, List.mem_filterMap]
  constructor
  · rintro ⟨⟨sign, j⟩, ⟨v, hv, hplace⟩, h⟩
    split at h
    · rename_i hsign
      obtain rfl := Option.some.inj h
      exact ⟨v, hv, hsign ▸ hplace⟩
    · cases h
  · rintro ⟨v, hv, hplace⟩
    exact ⟨_, ⟨v, hv, hplace⟩, if_pos rfl⟩

/-- Two places that cancel out may be left away. -/
theorem Cancels.tail {v w : SignedValue} {vs : List SignedValue} {i : Nat} (h : Cancels (v :: w :: vs))
    (hv : v.place? = some (false, i)) (hw : w.place? = some (true, i)) : Cancels vs := by
  have hplaces : places (v :: w :: vs) = (false, i) :: (true, i) :: places vs := by
    rw [places_cons_of_some hv, places_cons_of_some hw]
  have hadded : sectionsOf false (v :: w :: vs) = i :: sectionsOf false vs := by simp [sectionsOf, hplaces]
  have htaken : sectionsOf true (v :: w :: vs) = i :: sectionsOf true vs := by simp [sectionsOf, hplaces]
  simpa only [Cancels, hadded, htaken, List.diff_cons, List.erase_cons_head] using h

theorem isNegative_of_place? {v : SignedValue} {isNegative : Bool} {i : Nat} (h : v.place? = some (isNegative, i)) :
    v.isNegative = isNegative := by
  unfold place? at h
  split at h
  · exact congrArg Prod.fst (Option.some.inj h)
  · cases h

section

variable {α : Type} {f : α → SignedValue}

/-- Places none of which is subtracted stand in pairs if there is one at most. -/
theorem inPairs_of_added {vs : List SignedValue} (htaken : sectionsOf true vs = [])
    (hle : (sectionsOf false vs).length ≤ 1) : InPairs (places vs) := by
  unfold sectionsOf at htaken hle
  match hp : places vs with
  | [] => trivial
  | [(false, _)] => rfl
  | (true, i) :: rest => simp [hp] at htaken
  | (false, i) :: (true, j) :: rest => simp [hp] at htaken
  | (false, i) :: (false, j) :: rest => simp [hp] at hle

/-- Places that cancel out can be put in pairs. -/
theorem exists_order_in_pairs {xs : List α} (h : Cancels (xs.map f)) :
    ∃ ys : List α, ys.Perm xs ∧ InPairs (places (ys.map f)) := by
  have front {x : α} {l : List α} (hx : x ∈ l) : ∃ rest, (x :: rest).Perm l := by
    obtain ⟨s, t, rfl⟩ := List.append_of_mem hx
    exact ⟨s ++ t, List.perm_middle.symm⟩
  induction hn : xs.length using Nat.strongRecOn generalizing xs with
  | ind n ih =>
    by_cases htaken : sectionsOf true (xs.map f) = []
    · refine ⟨xs, .refl xs, inPairs_of_added htaken ?_⟩
      have hle := h.2
      rwa [htaken, List.diff_nil] at hle
    · -- a place that is subtracted, and one that makes up for it
      obtain ⟨i, hi⟩ := List.exists_mem_of_ne_nil _ htaken
      have hmade : i ∈ sectionsOf false (xs.map f) := by
        by_contra hnot
        exact List.not_mem_nil (h.1 ▸ List.mem_diff_of_mem hi hnot)
      obtain ⟨_, hv, hx⟩ := mem_sectionsOf.1 hi
      obtain ⟨x, hxmem, rfl⟩ := List.mem_map.1 hv
      obtain ⟨_, hw, hy⟩ := mem_sectionsOf.1 hmade
      obtain ⟨y, hymem, rfl⟩ := List.mem_map.1 hw
      obtain ⟨rest, hrest⟩ := front hxmem
      have hymem : y ∈ rest := by
        refine (List.mem_cons.1 (hrest.mem_iff.2 hymem)).resolve_left fun he => ?_
        rw [he, hx] at hy
        cases hy
      obtain ⟨rest', hrest'⟩ := front hymem
      have hperm : (y :: x :: rest').Perm xs := (List.Perm.swap ..).trans ((hrest'.cons x).trans hrest)
      have hcancels : Cancels (rest'.map f) := (h.perm (hperm.map f).symm).tail hy hx
      have hlt : rest'.length < n := by
        have := hperm.length_eq
        simp only [List.length_cons] at this
        omega
      obtain ⟨ys, hys, hpairs⟩ := ih _ hlt hcancels rfl
      refine ⟨y :: x :: ys, ((hys.cons x).cons y).trans hperm, ?_⟩
      rw [List.map_cons, List.map_cons, places_cons_of_some hy, places_cons_of_some hx]
      exact ⟨rfl, rfl, rfl, hpairs⟩

/-- A list in pairs that has a value with a plus sign can begin with one. -/
theorem exists_first_added {ys : List α} (h : InPairs (places (ys.map f)))
    (hadded : ∃ y ∈ ys, (f y).isNegative = false) :
    ∃ y rest, (y :: rest).Perm ys ∧ (f y).isNegative = false ∧ InPairs (places ((y :: rest).map f)) := by
  induction ys with
  | nil =>
    obtain ⟨y, hy, -⟩ := hadded
    cases hy
  | cons y ys ih =>
    cases hsign : (f y).isNegative with
    | false => exact ⟨y, ys, .refl _, hsign, h⟩
    | true =>
      -- a place would have to come behind another one
      cases hplace : (f y).place? with
      | some p =>
        obtain ⟨isNegative, i⟩ := p
        obtain rfl := (isNegative_of_place? hplace).symm.trans hsign
        rw [List.map_cons, places_cons_of_some hplace] at h
        cases hrest : places (ys.map f) with
        | nil => simp [hrest, InPairs] at h
        | cons q qs => simp [hrest, InPairs] at h
      | none =>
        rw [List.map_cons, places_cons_of_none hplace] at h
        obtain ⟨z, hz, hzsign⟩ := hadded
        have hz : z ∈ ys := (List.mem_cons.1 hz).resolve_left fun he => by
          rw [he, hsign] at hzsign
          cases hzsign
        obtain ⟨w, rest, hperm, hw, hpairs⟩ := ih h ⟨z, hz, hzsign⟩
        refine ⟨w, y :: rest, (List.Perm.swap ..).trans (hperm.cons y), hw, ?_⟩
        have hsame : places ((w :: y :: rest).map f) = places ((w :: rest).map f) := by
          simp only [List.map_cons, places, List.filterMap_cons, hplace]
        rw [hsame]
        exact hpairs

end

end SignedValue

namespace SymbolTable

open SignedValue

variable {t : SymbolTable}

/-! ### Values of terms -/

theorem ensureSection_ensureSection (t : SymbolTable) : t.ensureSection.ensureSection = t.ensureSection := by
  obtain ⟨i, hi⟩ := exists_current_ensureSection t
  exact ensureSection_of_some hi

theorem termValue_fst (t : SymbolTable) (s : List Char) :
    (t.termValue s).1 = t ∨ (t.termValue s).1 = t.ensureSection := by
  unfold termValue
  split
  · exact .inr rfl
  · split <;> exact .inl rfl

/-- That a section is started changes no value. -/
theorem termValue_ensureSection (t : SymbolTable) (s : List Char) :
    (t.ensureSection.termValue s).2 = (t.termValue s).2 := by
  unfold termValue
  split
  · rw [ensureSection_ensureSection]
  · split
    · rfl
    · rw [named?, find?, symbols_ensureSection]
      rfl

/-- The values of terms, with their signs. -/
def values (t : SymbolTable) (xs : List SignedTerm) : List SignedValue :=
  xs.map fun x => ⟨x.isNegative, (t.termValue x.text).2⟩

theorem values_cons (t : SymbolTable) (x : SignedTerm) (xs : List SignedTerm) :
    t.values (x :: xs) = ⟨x.isNegative, (t.termValue x.text).2⟩ :: t.values xs := rfl

theorem values_termValue (t : SymbolTable) (s : List Char) (xs : List SignedTerm) :
    (t.termValue s).1.values xs = t.values xs := by
  rcases termValue_fst t s with h | h
  · rw [h]
  · rw [h]
    simp only [values, termValue_ensureSection]

/-! ### Summing up -/

/-- The place that is pending as a signed value. -/
def pending : Option (Nat × Int32) → List SignedValue
  | none => []
  | some (i, offset) => [⟨false, .relocatable i offset⟩]

/-- **Summing up arrives at the net value** of the absolute part, the pending place and the terms, if the places among
them stand in pairs. -/
theorem sumTerms_eq (t : SymbolTable) (absolute : Int32) (base : Option (Nat × Int32)) (xs : List SignedTerm) :
    (t.sumTerms absolute base xs).2 = settled (⟨false, .absolute absolute⟩ :: (pending base ++ t.values xs)) := by
  induction xs generalizing t absolute base with
  | nil =>
    rcases base with _ | ⟨i, offset⟩
    · exact (settled_alone absolute).symm
    · exact (settled_base absolute i offset).symm
  | cons x xs ih =>
    rcases hterm : t.termValue x.text with ⟨u, v⟩
    have hrest : t.values xs = u.values xs := by rw [← values_termValue t x.text, hterm]
    rw [sumTerms, values_cons, hterm, hrest]
    cases v with
    | absolute n => rw [settled_absolute, ← ih]
    | undefined => rw [settled_of_undefined (by simp)]
    | relocatable i offset =>
      cases x.isNegative with
      | false =>
        rcases base with _ | ⟨j, start⟩
        · -- the place becomes the pending one
          exact ih ..
        · refine (settled_of_not ?_).symm
          simp [pending, InPairs]
      | true =>
        rcases base with _ | ⟨j, start⟩
        · refine (settled_of_not ?_).symm
          rw [pending, List.nil_append, places_absolute, places_relocatable]
          cases places (u.values xs) <;> simp [InPairs]
        · dsimp only
          by_cases hij : j = i
          · subst hij
            rw [if_pos rfl, ih]
            exact (settled_pair ..).symm
          · rw [if_neg hij]
            refine (settled_of_not ?_).symm
            simp [pending, InPairs, hij]

/-- Summing up starts the unnamed section at most. -/
theorem sumTerms_fst (t : SymbolTable) (absolute : Int32) (base : Option (Nat × Int32)) (xs : List SignedTerm) :
    (t.sumTerms absolute base xs).1 = t ∨ (t.sumTerms absolute base xs).1 = t.ensureSection := by
  induction xs generalizing t absolute base with
  | nil =>
    unfold sumTerms
    split <;> exact .inl rfl
  | cons x xs ih =>
    have hterm := termValue_fst t x.text
    unfold sumTerms
    generalize t.termValue x.text = r at hterm ⊢
    obtain ⟨u, v⟩ := r
    -- the terms behind it start nothing else
    have hrest (absolute : Int32) (base : Option (Nat × Int32)) : (u.sumTerms absolute base xs).1 = t ∨
        (u.sumTerms absolute base xs).1 = t.ensureSection := by
      rcases hterm with rfl | rfl
      · exact ih u absolute base
      · exact .inr ((ih _ absolute base).elim id fun h => h.trans (ensureSection_ensureSection t))
    dsimp only
    split
    · exact hrest ..
    · exact hrest ..
    · split
      · exact hrest ..
      · exact hterm
    · exact hterm

/-- **The order of a sum.**  However the terms are ordered, with a plus sign in front, the written sum has their net
value, in which the order does not matter, if the places stand in pairs, and it is undefined if they do not.  There is
an order in pairs unless the net value is undefined. -/
theorem sums_in_order (t : SymbolTable) {x : SignedTerm} {xs : List SignedTerm} (hx : x.isNegative = false)
    (h : ∀ y ∈ x :: xs, StandsAlone y.text) :
    (∀ y ys, (y :: ys).Perm (x :: xs) → y.isNegative = false → (t.sumValue (written (y :: ys))).2 =
      if InPairs (places (t.values (y :: ys))) then net (t.values (x :: xs)) else .undefined) ∧
    (net (t.values (x :: xs)) ≠ .undefined → ∃ y ys, (y :: ys).Perm (x :: xs) ∧ y.isNegative = false ∧
      InPairs (places (t.values (y :: ys)))) := by
  constructor
  · intro y ys hperm hy
    have hzero : net (⟨false, .absolute 0⟩ :: t.values (y :: ys)) = net (t.values (y :: ys)) :=
      net_congr rfl (Int32.zero_add _) (by simp)
    have hvalues : (t.values (y :: ys)).Perm (t.values (x :: xs)) := hperm.map _
    rw [sumValue, signedTerms_written hy fun z hz => h z (hperm.mem_iff.1 hz), sumTerms_eq, pending, List.nil_append,
      settled, hzero, places_absolute, net_perm hvalues]
  · intro hnet
    obtain ⟨zs, hperm, hpairs⟩ := exists_order_in_pairs (cancels_of_net hnet)
    obtain ⟨y, ys, hys, hy, hpairs⟩ := exists_first_added hpairs ⟨x, hperm.mem_iff.2 List.mem_cons_self, hx⟩
    exact ⟨y, ys, hys.trans hperm, hy, hpairs⟩

/-- A length added to the place of a buffer, with the places that make up the length together. -/
theorem sum_of_length_first :
    let place : Location := ⟨"S", ⟨0, 0⟩⟩
    let datum (name : String) (offset : Int32) : Symbol :=
      ⟨name, .relocatable 0 offset, .ofType .data 'F' (some 4), place, []⟩
    let t := ({} : SymbolTable).perform
      [.setSection "START" .executable place [], .define (datum "BUF" 8), .define (datum "END1" 12)]
    (t.sumValue "END1-START+BUF".toList).2 = .relocatable 0 20 := by
  intro place datum t
  have hname (s : String) (h : s.toList ≠ [] ∧ s.toList.all isNameChar) : StandsAlone s.toList :=
    (WellWritten.name h.1 (List.all_eq_true.1 h.2)).standsAlone
  let x : SignedTerm := ⟨false, "END1".toList⟩
  let xs : List SignedTerm := [⟨true, "START".toList⟩, ⟨false, "BUF".toList⟩]
  have hnames : ∀ y ∈ x :: xs, StandsAlone y.text := by
    simp only [x, xs, List.forall_mem_cons, List.not_mem_nil, false_implies, implies_true, and_true]
    exact ⟨hname "END1" (by decide), hname "START" (by decide), hname "BUF" (by decide)⟩
  refine ((sums_in_order t rfl hnames).1 x xs (.refl _) rfl).trans ?_
  decide +kernel

/-- **The same sum is undefined with the buffer in front.** -/
theorem sum_undefined_out_of_order :
    let place : Location := ⟨"S", ⟨0, 0⟩⟩
    let datum (name : String) (offset : Int32) : Symbol :=
      ⟨name, .relocatable 0 offset, .ofType .data 'F' (some 4), place, []⟩
    let t := ({} : SymbolTable).perform
      [.setSection "START" .executable place [], .define (datum "BUF" 8), .define (datum "END1" 12)]
    (signedTerms "BUF+END1-START".toList).Perm (signedTerms "END1-START+BUF".toList) ∧
      (t.sumValue "BUF+END1-START".toList).2 = .undefined ∧
      (t.sumValue "END1-START+BUF".toList).2 = .relocatable 0 20 := by
  decide +kernel

end SymbolTable

end AssemblerIndex
