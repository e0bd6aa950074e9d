/-!
# Digits

Numbers as they are written with digits, in bases up to sixteen.
-/

namespace AssemblerIndex.Text

/-- The value of a digit; the letters go on behind nine. -/
def digitValue? (c : Char) : Option Nat :=
  if '0' ≤ c ∧ c ≤ '9' then some (c.toNat - '0'.toNat)
  else if 'a' ≤ c ∧ c ≤ 'f' then some (c.toNat - 'a'.toNat + 10)
  else if 'A' ≤ c ∧ c ≤ 'F' then some (c.toNat - 'A'.toNat + 10)
  else none

/-- The number that follows when a further digit of a base is written behind one. -/
def appendDigit? (base n : Nat) (c : Char) : Option Nat :=
  (digitValue? c).bind fun d => if d < base then some (n * base + d) else none

/-- The number written with digits of a base; `none` if another character stands among them. -/
def ofDigits? (base : Nat) (s : List Char) : Option Nat := s.foldlM (appendDigit? base) 0

/-- The number written by decimal digits. -/
def decimal (digits : List Char) : Nat := digits.foldl (fun n d => n * 10 + (d.toNat - '0'.toNat)) 0

end AssemblerIndex.Text
