import AssemblerIndex.Text.Digits

/-!
# Escapes

Bytes that may not stand in an address are escaped by a percent sign and two hexadecimal digits.
-/

namespace AssemblerIndex.Uri

open AssemblerIndex.Text

/-- A digit of an escaped byte. -/
def escapeDigit (n : Nat) : Char := if n < 10 then Char.ofNat (48 + n) else Char.ofNat (55 + n)

/-- A byte as it is escaped. -/
def escapedByte (b : UInt8) : List Char :=
  ['%', escapeDigit (b.toNat / 16), escapeDigit (b.toNat % 16)]

/-- The bytes of a character in UTF-8, each escaped. -/
def escapedChar (c : Char) : List Char := c.toString.toUTF8.toList.flatMap escapedByte

/-- Control characters and all that is not ASCII. -/
def isForeign (c : Char) : Bool := c.toNat < 0x20 || 0x7F ≤ c.toNat

/-- Escapes the foreign characters and those of a class. -/
def escape (reserved : List Char) (s : List Char) : List Char :=
  s.flatMap fun c => if isForeign c || c ∈ reserved then escapedChar c else [c]

/-- What is escaped in a fragment. -/
def fragmentReserved : List Char := [' ', '"', '<', '>', '\x60']

/-- What is escaped in a query; in a special scheme the apostrophe, too. -/
def queryReserved (isSpecial : Bool) : List Char :=
  [' ', '"', '#', '<', '>'] ++ if isSpecial then ['\''] else []

/-- What is escaped in a path. -/
def pathReserved : List Char := fragmentReserved ++ ['#', '?', '{', '}']

/-- What is escaped in the name of a file. -/
def nameReserved : List Char := pathReserved ++ ['/', '%', '\\']

/-- What is escaped in the name and password of a user. -/
def userReserved : List Char :=
  pathReserved ++ ['/', ':', ';', '=', '@', '[', '\\', ']', '^', '|']

/-- The bytes that a text in bytes stands for; a percent sign without two digits behind it stands for
itself. -/
def unescaped : List UInt8 → List UInt8
  | 0x25 :: a :: b :: rest =>
    match digitValue? (Char.ofUInt8 a), digitValue? (Char.ofUInt8 b) with
    | some m, some n => UInt8.ofNat (m * 16 + n) :: unescaped rest
    | _, _ => 0x25 :: unescaped (a :: b :: rest)
  | b :: rest => b :: unescaped rest
  | [] => []

/-- The text that an escaped text stands for, if its bytes are UTF-8. -/
def unescape? (s : List Char) : Option (List Char) :=
  let bytes := unescaped (String.ofList s).toUTF8.toList
  (String.fromUTF8? ⟨bytes.toArray⟩).map String.toList

end AssemblerIndex.Uri
