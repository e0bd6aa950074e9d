import AssemblerIndex.Text.Coded

/-!
# Direction of names

A name that holds letters written from right to left keeps its order only if no label mixes
directions.  Here are the directions of characters and the rule for one label.
-/

namespace AssemblerIndex.Uri

open AssemblerIndex.Text

/-- How a character takes part in the direction of a text. -/
inductive Direction where
  | leftToRight | rightToLeft | arabicNumber | europeanNumber | mark | neutral | separator
  deriving DecidableEq, Repr, Inhabited

/-- The direction that a mark of the table stands for. -/
def Direction.ofMark (mark : List Char) : Direction :=
  match mark with
  | ['L'] => .leftToRight
  | ['R'] => .rightToLeft
  | ['A'] => .arabicNumber
  | ['E'] => .europeanNumber
  | ['N'] => .mark
  | ['O'] => .neutral
  | _ => .separator

/-- Code points with their directions: `L` and `R` letters of the two directions, `A` and `E` Arabic and
European numbers, `N` marks, `O` neutral characters, `X` separators. -/
def directionCode : String :=
  "9O 5X 14O 5X 15O 10E 7O 26L 6O 26L 10O 1X 36O 1L 7O 2E 1O 1L 3O 1E 1L 5O 23L 1O 31L 1O 449L 2O
   7L 14O 2L 14O 5L 9O 1L 17O 112N 4L 2O 8L 1O 5L 2O 1L 1O 110L 1O 140L 7N 256L 7O 45N 1R 1N 1R
   2N 1R 2N 1R 9N 48R 6A 2O 1R 2O 1R 1O 1R 2O 11N 48R 21N 10A 1O 2A 3R 1N 101R 7N 1A 1O 6N 2R 2N
   1O 4N 2R 10E 23R 1N 30R 29N 89R 11N 58R 9N 2R 4O 3R 1N 24R 4N 1R 9N 1R 3N 1R 7N 41R 5N 50R 7A
   9N 42R 24N 1A 32N 55L 1N 1L 1N 4L 8N 4L 1N 3L 7N 10L 2N 29L 1N 58L 1N 4L 6N 6L 1N 20L 4N 12L
   2O 7L 1O 2L 5N 57L 2N 3L 24N 23L 2N 3L 1N 11L 2N 57L 1N 4L 8N 4L 3N 18L 4N 11L 8O 1L 8N 58L 1N
   2L 1N 1L 6N 6L 10N 11L 4N 28L 1N 61L 1N 12L 3N 35L 13O 1N 3L 1N 55L 1N 1L 3N 5L 18N 10L 4N 18L
   7O 2L 1N 58L 1N 15L 9N 13L 4N 26L 2N 57L 2N 4L 5N 7L 1N 20L 4N 27L 1N 72L 5N 3L 6N 89L 1N 2L
   11N 1O 7L 8N 98L 1N 2L 9N 11L 8N 72L 2N 27L 1N 1L 1N 1L 1N 4O 51L 14N 1L 5N 1L 2N 5L 49N 8L 1N
   102L 4N 1L 6N 1L 2N 2L 2N 25L 2N 4L 3N 16L 4N 13L 1N 2L 2N 6L 1N 15L 1N 703L 3N 48L 16O 96L 1O
   639L 1X 26L 5O 114L 3N 29L 2N 30L 14N 18L 14N 52L 2N 1L 7N 8L 1N 2L 11N 7L 1O 1L 3N 16L 27O 3N
   1O 1N 117L 2N 34L 1N 118L 3N 4L 2N 9L 1N 6L 7N 6O 152L 34O 23L 2N 2L 3N 56L 1N 1L 9N 1L 1N 2L
   8N 6L 13N 48L 84N 48L 1N 1L 5N 1L 1N 5L 1N 40L 9N 12L 2N 32L 4N 2L 2N 1L 3N 56L 1N 1L 2N 3L 1N
   1L 3N 58L 8N 2L 5N 149L 3N 1L 13N 1L 7N 4L 1N 6L 1N 3L 2N 198L 64N 445L 1O 1L 3O 11L 3O 13L 3O
   13L 5O 11L 3O 11X 3O 1L 1R 24O 7X 48O 1X 6O 4X 6O 1E 3L 6E 5O 1L 10E 6O 16L 48O 48N 2O 1L 4O
   1L 2O 10L 1O 1L 3O 5L 6O 1L 1O 1L 1O 1L 1O 4L 1O 11L 2O 4L 5O 5L 4O 2L 16O 41L 429O 69L 26O 1L
   242O 20E 78L 450O 1L 339O 256L 768O 229L 6O 4L 3N 7L 7O 127L 1N 96L 32N 512O 1X 4O 3L 25O 9L
   4N 2L 1O 5L 2O 5L 4O 88L 2N 2O 3L 1O 90L 1O 196L 48O 45L 3O 48L 16O 28L 3O 50L 15O 12L 4O 167L
   4O 99L 2O 31L 1O 6592L 64O 22160L 64O 317L 3O 95L 4N 1O 10N 2O 30L 2N 80L 2N 14L 34O 102L 1O
   121L 1N 3L 1N 4L 1N 25L 2N 1L 4O 4N 8L 8O 52L 12O 68L 10N 18L 18N 13L 1N 38L 8N 25L 11N 46L 3N
   48L 1N 2L 4N 2L 2N 39L 1N 67L 6N 2L 2N 2L 11N 3L 1N 8L 1N 47L 1N 51L 1N 1L 3N 2L 2N 5L 2N 1L
   1N 42L 2N 8L 11N 105L 6O 117L 1N 2L 1N 4L 3N 20269L 1R 1N 10R 1O 153R 16O 363R 18O 64R 2O 54R
   40O 13R 3O 16N 16O 16N 64O 143R 17O 10E 7O 26L 6O 26L 11O 122L 32O 257L 1O 62L 77O 3L 64O 45L
   131N 96L 1N 31E 118L 10N 1152L 287R 1O 225R 15N 40R 8N 165R 6N 78R 7O 484R 12N 16A 41R 5N 1O
   241R 32A 43R 2N 35R 42O 6N 70R 11N 49R 4N 122R 1L 1N 54L 15N 11L 20O 10L 1N 2L 2N 10L 3N 49L
   4N 2L 2N 7L 11N 51L 3N 36L 5N 1L 9N 61L 1N 12L 2N 52L 9N 10L 4N 2L 1N 95L 3N 2L 1N 1L 2N 6L 1N
   2L 63N 95L 1N 3L 13N 16L 2N 57L 2N 3L 1N 37L 26N 59L 7N 12L 1N 1L 1N 1L 1N 14L 31N 56L 8N 2L
   3N 1L 1N 23L 1N 84L 6N 1L 1N 4L 2N 1L 2N 238L 6N 4L 2N 1L 2N 27L 36N 51L 8N 2L 1N 1L 2N 31L
   32O 43L 1N 1L 1N 2L 6N 1L 1N 101L 1N 1L 1N 2L 4N 1L 9N 255L 9N 1L 2N 256L 2N 1L 1N 4L 1N 144L
   8N 4L 1N 32L 6N 2L 2N 40L 6N 2L 4N 8L 9N 1L 6N 2L 3N 46L 13N 1L 2N 198L 1N 1L 3N 1L 1N 201L
   14N 84L 23N 1L 7N 1L 2N 1L 75N 49L 21N 1L 9N 64L 3N 2L 1N 1L 1N 347L 2N 11L 2N 52L 8N 2L 1N 1L
   1N 23L 86N 37L 42O 5185L 1N 6L 25N 11454L 12N 3L 3N 2496L 5N 59L 7N 1048L 1N 63L 4N 79L 1O 1L
   12N 19629L 2N 1L 4176O 10E 518O 80N 535L 3N 9L 8O 8N 2L 7N 30L 4N 59L 89O 3N 123O 64L 96O 891L
   1O 57L 1O 57L 1O 57L 1O 57L 1O 10L 50E 512L 55N 4L 50N 8L 1N 14L 1N 22L 1125N 256L 48N 95L
   113N 48L 7N 375L 18N 44L 4N 15L 465O 28L 4N 254L 2N 243L 1N 2L 1N 7L 2N 5L 9N 258L 208R 48N
   68R 7N 1445R 528O 11E 5O 31L 1O 58L 6O 61L 57O 122L 2448O 10E 1030O 786433L 255O 65280N
   131072L"

/-- The direction of each character. -/
def directions : CharacterProperty Direction := .ofCode Direction.ofMark directionCode

/-- The direction of a character. -/
def direction (c : Char) : Direction := (directions.value? c).getD .leftToRight

/-- The character is written from right to left, or is a number in such a text. -/
def Direction.isBackward : Direction → Bool
  | .rightToLeft | .arabicNumber => true
  | _ => false

/-- May stand in a label that begins with a letter written from left to right. -/
def Direction.fitsForward : Direction → Bool
  | .leftToRight | .europeanNumber | .neutral | .mark => true
  | _ => false

/-- May stand in a label that begins with a letter written from right to left. -/
def Direction.fitsBackward : Direction → Bool
  | .leftToRight | .separator => false
  | _ => true

/-- A label keeps its order in a name that holds letters written from right to left: it begins with
a letter, holds what fits that letter, ends in a letter or number apart from marks, and does not mix
the two kinds of numbers if it is written from right to left. -/
def keepsOrder (label : List Char) : Bool :=
  let ds := label.map direction
  match ds, ds.tail.reverse.dropWhile (· == .mark) with
  | [], _ => true
  | d :: _, behind =>
    match d with
    | .leftToRight =>
      behind.all Direction.fitsForward
        && behind.head?.all fun e => e == .leftToRight || e == .europeanNumber
    | .rightToLeft =>
      behind.all Direction.fitsBackward
        && (behind.head?.all fun e => e == .rightToLeft || e == .europeanNumber || e == .arabicNumber)
        && !(behind.contains .europeanNumber && behind.contains .arabicNumber)
    | _ => false

end AssemblerIndex.Uri
