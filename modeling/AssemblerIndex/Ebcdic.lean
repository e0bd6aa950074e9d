/-!
# EBCDIC

Code page 037 for the printable characters that occur in attribute values and character terms.
Type attributes are kept in EBCDIC.
-/

namespace AssemblerIndex.Ebcdic

/-- Codes and their characters. -/
def pairs : List (UInt8 × Char) := [
  (0x40, ' '), (0x4B, '.'), (0x4C, '<'), (0x4D, '('), (0x4E, '+'), (0x4F, '|'), (0x50, '&'),
  (0x5A, '!'), (0x5B, '$'), (0x5C, '*'), (0x5D, ')'), (0x5E, ';'), (0x60, '-'), (0x61, '/'),
  (0x6B, ','), (0x6C, '%'), (0x6D, '_'), (0x6E, '>'), (0x6F, '?'), (0x7A, ':'), (0x7B, '#'),
  (0x7C, '@'), (0x7D, '\''), (0x7E, '='), (0x7F, '"'),
  (0xC1, 'A'), (0xC2, 'B'), (0xC3, 'C'), (0xC4, 'D'), (0xC5, 'E'), (0xC6, 'F'), (0xC7, 'G'),
  (0xC8, 'H'), (0xC9, 'I'), (0xD1, 'J'), (0xD2, 'K'), (0xD3, 'L'), (0xD4, 'M'), (0xD5, 'N'),
  (0xD6, 'O'), (0xD7, 'P'), (0xD8, 'Q'), (0xD9, 'R'), (0xE2, 'S'), (0xE3, 'T'), (0xE4, 'U'),
  (0xE5, 'V'), (0xE6, 'W'), (0xE7, 'X'), (0xE8, 'Y'), (0xE9, 'Z'),
  (0xF0, '0'), (0xF1, '1'), (0xF2, '2'), (0xF3, '3'), (0xF4, '4'), (0xF5, '5'), (0xF6, '6'),
  (0xF7, '7'), (0xF8, '8'), (0xF9, '9'),
  (0x81, 'a'), (0x82, 'b'), (0x83, 'c'), (0x84, 'd'), (0x85, 'e'), (0x86, 'f'), (0x87, 'g'),
  (0x88, 'h'), (0x89, 'i')]

/-- The character of a code, a question mark if there is none. -/
def decode (code : UInt8) : Char := (pairs.lookup code).getD '?'

/-- The code of a character, that of the question mark if there is none. -/
def encode (c : Char) : UInt8 :=
  match pairs.find? (·.2 == c) with
  | some p => p.1
  | none => 0x6F

/-- The text of a type attribute. -/
def typeText (code : UInt8) : String := String.ofList [decode code]

end AssemblerIndex.Ebcdic
