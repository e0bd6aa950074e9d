/-!
# Blank characters

The characters that Unicode calls white space, and removing them from the ends of a text.  A card
column is empty only if it holds a space; the wider class here is what ends a remark or makes a
line blank.
-/

namespace AssemblerIndex.Text

/-- Code points with the property White_Space, as closed intervals. -/
def blankIntervals : List (Nat × Nat) := [
  (0x09, 0x0D), (0x20, 0x20), (0x85, 0x85), (0xA0, 0xA0), (0x1680, 0x1680), (0x2000, 0x200A),
  (0x2028, 0x2029), (0x202F, 0x202F), (0x205F, 0x205F), (0x3000, 0x3000)]

/-- White space in the sense of Unicode. -/
def isBlank (c : Char) : Bool :=
  blankIntervals.any fun i => i.1 ≤ c.toNat && c.toNat ≤ i.2

/-- Removes a run of blank characters at the front. -/
def trimStart (s : List Char) : List Char := s.dropWhile isBlank

/-- Removes the characters of a class at the back. -/
def trimEndWhile (p : Char → Bool) (s : List Char) : List Char := (s.reverse.dropWhile p).reverse

/-- Removes the blank characters at both ends. -/
def trim (s : List Char) : List Char := trimEndWhile isBlank (trimStart s)

/-- A line that holds nothing but blank characters. -/
def isBlankLine (s : List Char) : Bool := s.all isBlank

end AssemblerIndex.Text
