import AssemblerIndex.Expression.Evaluation
import Mathlib.Data.List.Basic

/-!
# One step of reading an expression

What the functions that read an expression give, up to the spaces at the front of what they leave (`Taken.out`), in
equations without the proofs that they carry.

* `reader e k` — the function that reads what binds as tight as `k`;
* `further e k` — the function that goes on behind an operand with the operators of the level `k`;
* `reader_eq_further`, `further_congr`, `reader_congr` — a reader is the next tighter one and what goes on behind it,
  and spaces at the front of its text make no difference.
-/

namespace AssemblerIndex.Expression

/-! ### Up to spaces -/

/-- The text behind the spaces at its front. -/
def skip (s : List Char) : List Char := (takeSpaces s).rest

@[simp] theorem skip_nil : skip [] = [] := rfl

@[simp] theorem skip_space (s : List Char) : skip (' ' :: s) = skip s := rfl

theorem skip_cons {c : Char} (h : c ≠ ' ') (s : List Char) : skip (c :: s) = c :: s := by
  simp [skip, takeSpaces, h]

@[simp] theorem skip_skip (s : List Char) : skip (skip s) = skip s := by
  induction s with
  | nil => rfl
  | cons c s ih =>
    by_cases h : c = ' '
    · rw [h, skip_space, ih]
    · rw [skip_cons h, skip_cons h]

/-- What a step gives: its value and, up to spaces, what it leaves. -/
def Taken.out {α : Type} {s : List Char} (r : Taken α s) : α × List Char := (r.value, skip r.rest)

theorem out_eq {α : Type} {s : List Char} {r : Taken α s} {a : α} {t : List Char} :
    r.out = (a, t) ↔ r.value = a ∧ skip r.rest = t := Prod.mk.injEq .. ▸ Iff.rfl

section Equations

variable (e : Environment) (l : SetValue) (s : List Char)

/-! ### Operands -/

theorem out_expression :
    (expression e s).out = (moreDisjuncts e (conjunction e s).value (conjunction e s).rest).out := by
  rw [expression]
  rfl

theorem out_conjunction : (conjunction e s).out = (moreConjuncts e (negation e s).value (negation e s).rest).out := by
  rw [conjunction]
  rfl

theorem out_negation :
    (negation e s).out =
      match keyword? ['N', 'O', 'T'] (skip s) with
      | some u => (.boolean !(negation e u).value.toBool, skip (negation e u).rest)
      | none => (comparison e (skip s)).out := by
  rw [negation]
  dsimp only
  split
  · rename_i u h
    rw [show keyword? ['N', 'O', 'T'] (skip s) = some u from h]
    rfl
  · rename_i h
    rw [show keyword? ['N', 'O', 'T'] (skip s) = none from h]
    rfl

theorem out_comparison :
    (comparison e s).out =
      match relation? (skip (sum e s).rest) relationWords with
      | some (r, u) => (.boolean (r.holds (compareValues (sum e s).value (sum e u).value)), skip (sum e u).rest)
      | none => (sum e s).out := by
  rw [comparison]
  dsimp only
  split
  · rename_i r u h
    rw [show relation? (skip (sum e s).rest) relationWords = some (r, u) from h]
    rfl
  · rename_i h
    rw [show relation? (skip (sum e s).rest) relationWords = none from h]
    exact congrArg ((sum e s).value, ·) (skip_skip _)

theorem out_sum : (sum e s).out = (moreSummands e (product e s).value (product e s).rest).out := by
  rw [sum]
  rfl

theorem out_product : (product e s).out = (moreFactors e (signed e s).value (signed e s).rest).out := by
  rw [product]
  rfl

theorem out_signed :
    (signed e s).out =
      match after? '-' (skip s) with
      | some u => (.arithmetic (-(signed e u).value.toWord), skip (signed e u).rest)
      | none =>
        match after? '+' (skip s) with
        | some u => (.arithmetic (signed e u).value.toWord, skip (signed e u).rest)
        | none => (term e (skip s)).out := by
  rw [signed]
  dsimp only
  split
  · rename_i u h
    rw [show after? '-' (skip s) = some u from h]
    rfl
  · rename_i h
    rw [show after? '-' (skip s) = none from h]
    dsimp only
    split
    · rename_i u h
      rw [show after? '+' (skip s) = some u from h]
      rfl
    · rename_i h
      rw [show after? '+' (skip s) = none from h]
      rfl

/-! ### Operators -/

theorem out_moreDisjuncts :
    (moreDisjuncts e l s).out =
      match keyword? ['O', 'R'] (skip s) with
      | some u =>
        (moreDisjuncts e (.boolean (l.toBool || (conjunction e u).value.toBool)) (conjunction e u).rest).out
      | none =>
        match keyword? ['X', 'O', 'R'] (skip s) with
        | some u =>
          (moreDisjuncts e (.boolean (l.toBool != (conjunction e u).value.toBool)) (conjunction e u).rest).out
        | none => (l, skip s) := by
  rw [moreDisjuncts]
  dsimp only
  split
  · rename_i u h
    rw [show keyword? ['O', 'R'] (skip s) = some u from h]
    rfl
  · rename_i h
    rw [show keyword? ['O', 'R'] (skip s) = none from h]
    dsimp only
    split
    · rename_i u h
      rw [show keyword? ['X', 'O', 'R'] (skip s) = some u from h]
      rfl
    · rename_i h
      rw [show keyword? ['X', 'O', 'R'] (skip s) = none from h]
      exact congrArg (l, ·) (skip_skip s)

theorem out_moreConjuncts :
    (moreConjuncts e l s).out =
      match keyword? ['A', 'N', 'D'] (skip s) with
      | some u => (moreConjuncts e (.boolean (l.toBool && (negation e u).value.toBool)) (negation e u).rest).out
      | none => (l, skip s) := by
  rw [moreConjuncts]
  dsimp only
  split
  · rename_i u h
    rw [show keyword? ['A', 'N', 'D'] (skip s) = some u from h]
    rfl
  · rename_i h
    rw [show keyword? ['A', 'N', 'D'] (skip s) = none from h]
    exact congrArg (l, ·) (skip_skip s)

theorem out_moreSummands :
    (moreSummands e l s).out =
      match after? '+' (skip s) with
      | some u => (moreSummands e (.arithmetic (l.toWord + (product e u).value.toWord)) (product e u).rest).out
      | none =>
        match after? '-' (skip s) with
        | some u => (moreSummands e (.arithmetic (l.toWord - (product e u).value.toWord)) (product e u).rest).out
        | none => (l, skip s) := by
  rw [moreSummands]
  dsimp only
  split
  · rename_i u h
    rw [show after? '+' (skip s) = some u from h]
    rfl
  · rename_i h
    rw [show after? '+' (skip s) = none from h]
    dsimp only
    split
    · rename_i u h
      rw [show after? '-' (skip s) = some u from h]
      rfl
    · rename_i h
      rw [show after? '-' (skip s) = none from h]
      exact congrArg (l, ·) (skip_skip s)

theorem out_moreFactors :
    (moreFactors e l s).out =
      match after? '*' (skip s) with
      | some u => (moreFactors e (.arithmetic (l.toWord * (signed e u).value.toWord)) (signed e u).rest).out
      | none =>
        match after? '/' (skip s) with
        | some u => (moreFactors e (.arithmetic (quotient l.toWord (signed e u).value.toWord)) (signed e u).rest).out
        | none => (l, skip s) := by
  rw [moreFactors]
  dsimp only
  split
  · rename_i u h
    rw [show after? '*' (skip s) = some u from h]
    rfl
  · rename_i h
    rw [show after? '*' (skip s) = none from h]
    dsimp only
    split
    · rename_i u h
      rw [show after? '/' (skip s) = some u from h]
      rfl
    · rename_i h
      rw [show after? '/' (skip s) = none from h]
      exact congrArg (l, ·) (skip_skip s)

/-! ### Levels -/

/-- The function that reads what binds as tight as `k`. -/
def reader (k : Nat) (s : List Char) : Taken SetValue s :=
  match k with
  | 0 => expression e s
  | 1 => conjunction e s
  | 2 => negation e s
  | 3 => comparison e s
  | 4 => sum e s
  | 5 => product e s
  | _ => signed e s

/-- Goes on behind an operand with the operators of the level `k`, where they are read in a loop. -/
def further (k : Nat) (l : SetValue) (s : List Char) : Taken SetValue s :=
  match k with
  | 0 => moreDisjuncts e l s
  | 1 => moreConjuncts e l s
  | 4 => moreSummands e l s
  | 5 => moreFactors e l s
  | _ => .nothing l

end Equations

variable {e : Environment} {l : SetValue} {s s' : List Char}

theorem reader_eq_further {k : Nat} (hk : k ∈ [0, 1, 4, 5]) (s : List Char) :
    (reader e k s).out = (further e k (reader e (k + 1) s).value (reader e (k + 1) s).rest).out := by
  simp only [List.mem_cons, List.not_mem_nil, or_false] at hk
  rcases hk with rfl | rfl | rfl | rfl
  · exact out_expression e s
  · exact out_conjunction e s
  · exact out_sum e s
  · exact out_product e s

/-- Spaces in front of an operator make no difference. -/
theorem further_congr (k : Nat) (l : SetValue) (h : skip s = skip s') :
    (further e k l s).out = (further e k l s').out := by
  unfold further
  split
  · rw [out_moreDisjuncts, out_moreDisjuncts, h]
  · rw [out_moreConjuncts, out_moreConjuncts, h]
  · rw [out_moreSummands, out_moreSummands, h]
  · rw [out_moreFactors, out_moreFactors, h]
  · exact congrArg (l, ·) h

/-- What the tighter reader gives is all that a reader goes on with. -/
theorem reader_of_tighter {k : Nat} (hk : k ∈ [0, 1, 4, 5]) (h : (reader e (k + 1) s).out = (l, skip s')) :
    (reader e k s).out = (further e k l s').out := by
  obtain ⟨hvalue, hrest⟩ := out_eq.1 h
  rw [reader_eq_further hk, hvalue]
  exact further_congr k l hrest

/-- Spaces in front of an operand make no difference. -/
theorem reader_congr (k : Nat) (h : skip s = skip s') : (reader e k s).out = (reader e k s').out := by
  have hsigned : (signed e s).out = (signed e s').out := by rw [out_signed, out_signed, h]
  have htighter : ∀ k ∈ [0, 1, 4, 5], (reader e (k + 1) s).out = (reader e (k + 1) s').out →
      (reader e k s).out = (reader e k s').out := by
    intro k hk htight
    rw [reader_eq_further hk s']
    exact reader_of_tighter hk htight
  have hproduct := htighter 5 (by decide) hsigned
  have hsum := htighter 4 (by decide) hproduct
  have hcomparison : (comparison e s).out = (comparison e s').out := by
    obtain ⟨hvalue, hrest⟩ := out_eq.1 (show (sum e s).out = ((sum e s').value, skip (sum e s').rest) from hsum)
    rw [out_comparison, out_comparison, hvalue, hrest, show (sum e s).out = (sum e s').out from hsum]
  have hnegation : (negation e s).out = (negation e s').out := by rw [out_negation, out_negation, h]
  have hconjunction := htighter 1 (by decide) hnegation
  match k with
  | 0 => exact htighter 0 (by decide) hconjunction
  | 1 => exact hconjunction
  | 2 => exact hnegation
  | 3 => exact hcomparison
  | 4 => exact hsum
  | 5 => exact hproduct
  | _ + 6 => exact hsigned

end AssemblerIndex.Expression
