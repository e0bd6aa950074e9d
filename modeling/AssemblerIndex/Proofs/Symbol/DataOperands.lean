import AssemblerIndex.DataOperand
import Mathlib.Algebra.Group.Nat.Defs

/-!
# The room that data takes

An operand that defines data is read into words of 32 bits, and so the number of bytes that it takes is a product of
words.  Here the same numbers are read without a bound.

* `DataMeasure` — the numbers of an operand, exactly; `DataMeasure.room` is the number of bytes that it takes;
* `measure?_of_parse` — an operand that is read holds the numbers of its measure, cut to words;
* `DataOperand.toInt_size_eq_iff` — **the size of an operand is the room that it takes exactly if that is less than
  2³¹ bytes**.
-/

namespace AssemblerIndex

/-- The number that digits stand for, unless it needs more than 31 bits. -/
def SelfDefiningTerm.number? (s : List Char) : Option Nat := (digits? 10 s).filter (· < 0x80000000)

/-- The numbers of an operand that defines data. -/
structure DataMeasure where
  repetitions : Nat
  length : Nat
  count : Nat
  alignment : Nat
  isBoundary : alignment ∈ [1, 2, 4, 8]
  deriving DecidableEq, Repr

/-- The number of bytes that the operand takes. -/
def DataMeasure.room (m : DataMeasure) : Nat := m.repetitions * m.count * m.length

/-- A word that is not negative holds a number exactly if it has less than 32 bits. -/
theorem toInt_ofNat_eq_iff {n : Nat} : (Int32.ofNat n).toInt = n ↔ n < 2 ^ 31 := by
  constructor
  · intro h
    have := Int32.toInt_lt (Int32.ofNat n)
    omega
  · exact Int32.toInt_ofNat_of_lt

namespace DataOperand

open SelfDefiningTerm (number?)

theorem implicitLength_isBoundary (type : Char) (doubled : Bool) (nominal : Option (List Char)) :
    (implicitLength type doubled nominal).2 ∈ [1, 2, 4, 8] := by
  unfold implicitLength
  dsimp only
  split
  · simp
  · split
    · simp
    · split
      · simp
      · split <;> simp

/-- The numbers of an operand by its parts. -/
def measured (repetitions explicit : Option Nat) (type : Char) (doubled : Bool) (nominal : Option (List Char)) :
    DataMeasure where
  repetitions := repetitions.getD 1
  length := explicit.getD (implicitLength type doubled nominal).1
  count := valueCount type nominal
  alignment := if explicit.isSome then 1 else (implicitLength type doubled nominal).2
  isBoundary := by
    split
    · exact List.mem_cons_self
    · exact implicitLength_isBoundary type doubled nominal

/-- An explicit length at the front of a text, exactly. -/
def exactLength (s : List Char) : Option Nat × List Char :=
  match s with
  | c :: rest =>
    if c.toUpper = 'L' then (number? (rest.takeWhile Char.isDigit), rest.dropWhile Char.isDigit) else (none, s)
  | [] => (none, s)

/-- The numbers of the operand that a text stands for. -/
def measure? (s : List Char) : Option DataMeasure :=
  match s.dropWhile Char.isDigit with
  | [] => none
  | t :: rest =>
    let type := t.toUpper
    if !type.isAlpha then none
    else
      let doubled := (rest.head?.map Char.toUpper) == some 'D' && type ∈ ['A', 'F', 'V']
      let (explicit, rest) := exactLength (if doubled then rest.tail else rest)
      match nominal? (rest.dropWhile fun c => c != '\'' && c != '(') with
      | .error _ => none
      | .ok nominal => some (measured (number? (s.takeWhile Char.isDigit)) explicit type doubled nominal)

/-- The digits at the front of a text are read exactly, and cut afterwards. -/
theorem value?_takeWhile_isDigit (s : List Char) :
    SelfDefiningTerm.value? (s.takeWhile Char.isDigit) = (number? (s.takeWhile Char.isDigit)).map Int32.ofNat := by
  have hdigits : (s.takeWhile Char.isDigit).all Char.isDigit := List.all_takeWhile
  generalize s.takeWhile Char.isDigit = ds at hdigits ⊢
  cases ds with
  | nil => rfl
  | cons d ds =>
    rw [SelfDefiningTerm.value?, if_pos ⟨nofun, hdigits⟩, number?]
    cases SelfDefiningTerm.digits? 10 (d :: ds) with
    | none => rfl
    | some n => by_cases hn : n < 0x80000000 <;> simp [hn, Option.filter]

theorem explicitLength_eq (s : List Char) :
    explicitLength s = ((exactLength s).1.map Int32.ofNat, (exactLength s).2) := by
  unfold explicitLength exactLength
  cases s with
  | nil => rfl
  | cons c rest =>
    dsimp only
    split
    · rw [value?_takeWhile_isDigit]
    · rfl

/-- The operand holds the numbers of the measure. -/
structure Holds (d : DataOperand) (m : DataMeasure) : Prop where
  repetitions : d.repetitions = Int32.ofNat m.repetitions
  length : d.length = Int32.ofNat m.length
  count : d.count = Int32.ofNat m.count
  alignment : d.alignment = Int32.ofNat m.alignment

/-- An operand is read if and only if it has a measure, and what is read off are the numbers of that. -/
theorem parse_cases (s : List Char) :
    (∃ e, parse s = .error e ∧ measure? s = none) ∨ ∃ d m, parse s = .ok d ∧ measure? s = some m ∧ d.Holds m := by
  unfold parse measure?
  cases s.dropWhile Char.isDigit with
  | nil => exact .inl ⟨.untyped, rfl, rfl⟩
  | cons t rest =>
    dsimp only
    by_cases halpha : (!t.toUpper.isAlpha) = true
    · exact .inl ⟨.untyped, if_pos halpha, if_pos halpha⟩
    · rw [if_neg halpha, if_neg halpha, explicitLength_eq, value?_takeWhile_isDigit]
      generalize (rest.head?.map Char.toUpper == some 'D' && decide (t.toUpper ∈ ['A', 'F', 'V'])) = doubled
      generalize exactLength (if doubled then rest.tail else rest) = l
      obtain ⟨explicit, rest⟩ := l
      dsimp only
      cases nominal? (rest.dropWhile fun c => c != '\'' && c != '(') with
      | error e => exact .inl ⟨e, rfl, rfl⟩
      | ok nominal =>
        refine .inr ⟨_, _, rfl, rfl, ?_⟩
        constructor
        · cases number? (s.takeWhile Char.isDigit) <;> rfl
        · cases explicit <;> rfl
        · rfl
        · cases explicit <;> rfl

/-- **What is read off an operand are its numbers**, cut to words. -/
theorem measure?_of_parse {s : List Char} {d : DataOperand} (h : parse s = .ok d) :
    ∃ m, measure? s = some m ∧ d.Holds m := by
  rcases parse_cases s with ⟨e, he, -⟩ | ⟨d', m, hd, hm, hholds⟩
  · cases h.symm.trans he
  · obtain rfl := Except.ok.inj (h.symm.trans hd)
    exact ⟨m, hm, hholds⟩

theorem measure?_of_parse_error {s : List Char} {e : DataFault} (h : parse s = .error e) : measure? s = none := by
  rcases parse_cases s with ⟨_, -, hnone⟩ | ⟨d, m, hd, -, -⟩
  · exact hnone
  · cases h.symm.trans hd

theorem Holds.size_eq {d : DataOperand} {m : DataMeasure} (h : d.Holds m) : d.size = Int32.ofNat m.room := by
  rw [size, h.repetitions, h.count, h.length, DataMeasure.room, Int32.ofNat_mul, Int32.ofNat_mul]

/-- **The size of an operand is the room that it takes**, exactly if that is less than 2³¹ bytes. -/
theorem toInt_size_eq_iff {d : DataOperand} {m : DataMeasure} (h : d.Holds m) :
    d.size.toInt = m.room ↔ m.room < 2 ^ 31 := by
  rw [h.size_eq, toInt_ofNat_eq_iff]

end DataOperand

end AssemblerIndex
