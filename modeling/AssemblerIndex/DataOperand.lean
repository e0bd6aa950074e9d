import AssemblerIndex.SelfDefiningTerm
import AssemblerIndex.Statement.Operands

/-!
# Operands that define data

An operand of `DC` or `DS`: a duplication factor, a type, possibly an explicit length, and nominal
values in apostrophes or parentheses, as in `2CL8'AB'` or `A(X,Y)`.  What is read off is the room that
the operand takes.
-/

namespace AssemblerIndex

/-- An operand that defines data. -/
structure DataOperand where
  /-- the duplication factor -/
  repetitions : Int32
  /-- the type, a capital letter -/
  type : Char
  /-- the length of one value -/
  length : Int32
  alignment : Int32
  /-- the number of values -/
  count : Int32
  deriving DecidableEq, Repr, Inhabited

/-- Why a text is no operand that defines data. -/
inductive DataFault where
  /-- there is no type -/
  | untyped
  /-- the parenthesis that opens the nominal values is the last character -/
  | nothingOpened
  deriving DecidableEq, Repr

namespace DataOperand

/-- The text in front of the closing apostrophe; a doubled apostrophe stands for one. -/
def quotedValue : List Char → List Char
  | '\'' :: '\'' :: rest => '\'' :: quotedValue rest
  | '\'' :: _ => []
  | c :: rest => c :: quotedValue rest
  | [] => []

/-- The nominal value at the front of a text, if it starts with an apostrophe or a parenthesis. -/
def nominal? : List Char → Except DataFault (Option (List Char))
  | '\'' :: rest => .ok (some (quotedValue rest))
  | '(' :: rest => if rest.isEmpty then .error .nothingOpened else .ok (some rest.dropLast)
  | _ => .ok none

/-- The number of bytes of a text in UTF-8. -/
def byteCount (s : List Char) : Nat := s.foldl (fun n c => n + c.utf8Size) 0

theorem foldl_utf8Size (s : List Char) (n : Nat) : s.foldl (fun n c => n + c.utf8Size) n = n + byteCount s := by
  induction s generalizing n with
  | nil => rfl
  | cons c s ih => rw [byteCount, List.foldl_cons, List.foldl_cons, ih, ih, Nat.zero_add, Nat.add_assoc]

@[simp] theorem byteCount_nil : byteCount [] = 0 := rfl

theorem byteCount_cons (c : Char) (s : List Char) : byteCount (c :: s) = c.utf8Size + byteCount s := by
  rw [byteCount, List.foldl_cons, foldl_utf8Size, Nat.zero_add]

theorem byteCount_append (s t : List Char) : byteCount (s ++ t) = byteCount s + byteCount t := by
  rw [byteCount, List.foldl_append, foldl_utf8Size t]
  rfl

/-- Removes the signs at the front of a number. -/
def withoutSigns (s : List Char) : List Char := s.dropWhile fun c => c = '+' || c = '-'

/-- The length of a value without an explicit length, and the alignment that goes with it. -/
def implicitLength (type : Char) (doubled : Bool) (nominal : Option (List Char)) : Nat × Nat :=
  let ofNominal (f : List Char → Nat) : Nat × Nat := ((nominal.map (max 1 ∘ f)).getD 1, 1)
  if doubled ∨ type = 'D' then (8, 8)
  else if type ∈ ['F', 'A', 'V', 'E', 'Q', 'J', 'R'] then (4, 4)
  else if type ∈ ['H', 'Y', 'S'] then (2, 2)
  else match type with
    | 'L' => (16, 8)
    | 'C' => ofNominal List.length
    | 'X' => ofNominal fun n => (byteCount n + 1) / 2
    | 'B' => ofNominal fun n => (byteCount n + 7) / 8
    | 'P' => ofNominal fun n => byteCount (withoutSigns n) / 2 + 1
    | 'Z' => ofNominal fun n => byteCount (withoutSigns n)
    | _ => (1, 1)

/-- The number of values; the nominal values of some types are a single one. -/
def valueCount (type : Char) (nominal : Option (List Char)) : Nat :=
  match nominal with
  | some n => if type ∈ ['C', 'X', 'B'] then 1 else max 1 (splitOperands n).length
  | none => 1

/-- An explicit length at the front of a text, and what follows it. -/
def explicitLength (s : List Char) : Option Int32 × List Char :=
  match s with
  | c :: rest =>
    if c.toUpper = 'L' then
      (SelfDefiningTerm.value? (rest.takeWhile Char.isDigit), rest.dropWhile Char.isDigit)
    else (none, s)
  | [] => (none, s)

/-- The operand that a text stands for. -/
def parse (s : List Char) : Except DataFault DataOperand :=
  match s.dropWhile Char.isDigit with
  | [] => .error .untyped
  | t :: rest =>
    let type := t.toUpper
    if !type.isAlpha then .error .untyped
    else do
      let doubled := (rest.head?.map Char.toUpper) == some 'D' && type ∈ ['A', 'F', 'V']
      let (explicit, rest) := explicitLength (if doubled then rest.tail else rest)
      let nominal ← nominal? (rest.dropWhile fun c => c != '\'' && c != '(')
      let (length, alignment) := implicitLength type doubled nominal
      return {
        repetitions := (SelfDefiningTerm.value? (s.takeWhile Char.isDigit)).getD 1
        type
        length := explicit.getD (Int32.ofNat length)
        alignment := if explicit.isSome then 1 else Int32.ofNat alignment
        count := Int32.ofNat (valueCount type nominal) }

/-- The number of bytes that the operand takes. -/
def size (d : DataOperand) : Int32 := d.repetitions * d.count * d.length

end DataOperand

end AssemblerIndex
