import AssemblerIndex.Ebcdic

/-!
# Self-defining terms

Terms that name their own value: decimal numbers, `X'..'`, `B'..'` and `C'..'`.  Values are words of
32 bits; the characters of a character term count in EBCDIC.
-/

namespace AssemblerIndex.SelfDefiningTerm

/-- Doubled occurrences of a character written once. -/
def undouble (q : Char) : List Char → List Char
  | a :: b :: rest => if a = q ∧ b = q then q :: undouble q rest else a :: undouble q (b :: rest)
  | s => s

/-- The value of a digit in bases up to sixteen. -/
def digit? (base : Nat) (c : Char) : Option Nat :=
  let value? :=
    if '0' ≤ c ∧ c ≤ '9' then some (c.toNat - '0'.toNat)
    else if 'A' ≤ c ∧ c ≤ 'F' then some (c.toNat - 'A'.toNat + 10)
    else if 'a' ≤ c ∧ c ≤ 'f' then some (c.toNat - 'a'.toNat + 10)
    else none
  value?.filter (· < base)

/-- The number written by at least one digit. -/
def digits? (base : Nat) (s : List Char) : Option Nat :=
  if s.isEmpty then none
  else s.foldlM (fun n c => (digit? base c).map (n * base + ·)) 0

/-- The number written by digits behind an optional plus sign. -/
def unsigned? (base : Nat) : List Char → Option Nat
  | '+' :: s => digits? base s
  | s => digits? base s

/-- The text in apostrophes behind the letter of a term. -/
def quoted? : List Char → Option (Char × List Char)
  | letter :: '\'' :: rest =>
    if rest.getLast? = some '\'' then some (letter, rest.dropLast) else none
  | _ => none

/-- The codes of characters as the bytes of one number. -/
def characterValue (s : List Char) : Nat :=
  s.foldl (fun n c => n * 256 + (Ebcdic.encode c).toNat) 0

/-- The value of a text that is a self-defining term. -/
def value? (s : List Char) : Option Int32 :=
  if s ≠ [] ∧ s.all Char.isDigit then
    match digits? 10 s with
    | some n => if n < 0x80000000 then some (Int32.ofNat n) else none
    | none => none
  else match quoted? s with
    | none => none
    | some (letter, body) => match letter.toUpper with
      | 'X' => if body.length ≤ 8 then (unsigned? 16 body).map Int32.ofNat else none
      | 'B' => if body.length ≤ 32 then (unsigned? 2 body).map Int32.ofNat else none
      | 'C' =>
        let text := undouble '&' (undouble '\'' body)
        if 1 ≤ text.length ∧ text.length ≤ 4 then some (Int32.ofNat (characterValue text)) else none
      | _ => none

/-- The text is a self-defining term. -/
def isTerm (s : List Char) : Bool := (value? s).isSome

end AssemblerIndex.SelfDefiningTerm
