import AssemblerIndex.Text.Decomposition
import AssemblerIndex.Text.Marks

/-!
# Composed texts

The same writing can be coded in several ways: a letter with a mark is one character or two, and marks
at different places of a letter have no order.  `composed` brings a text into one of these ways: every
character is taken apart, the marks are put into the order of their classes, and what has a character
of its own is put together again.
-/

namespace AssemblerIndex.Text

/-! ### Syllables of Hangul

A syllable is a leading consonant, a vowel and perhaps a trailing consonant; the syllables stand in the
order of these parts. -/

/-- The code point of the first syllable. -/
def firstSyllable : Nat := 0xAC00

/-- The number of leading consonants. -/
def leadCount : Nat := 19

/-- The number of vowels. -/
def vowelCount : Nat := 21

/-- The number of trailing consonants, counting that there may be none. -/
def trailCount : Nat := 28

/-- The place of a character among `count` characters that begin at a code point. -/
def placeIn? (first count : Nat) (c : Char) : Option Nat :=
  if first ≤ c.toNat ∧ c.toNat < first + count then some (c.toNat - first) else none

/-- The place of a syllable among all. -/
def syllable? (c : Char) : Option Nat := placeIn? firstSyllable (leadCount * vowelCount * trailCount) c

/-- The place of a consonant that leads a syllable. -/
def lead? (c : Char) : Option Nat := placeIn? 0x1100 leadCount c

/-- The place of a vowel. -/
def vowel? (c : Char) : Option Nat := placeIn? 0x1161 vowelCount c

/-- The place of a consonant that ends a syllable; the first place stands for none. -/
def trail? (c : Char) : Option Nat := (placeIn? 0x11A8 (trailCount - 1) c).map (· + 1)

/-- The parts of a syllable. -/
def syllableParts (place : Nat) : List Char :=
  [Char.ofNat (0x1100 + place / (vowelCount * trailCount)),
    Char.ofNat (0x1161 + place % (vowelCount * trailCount) / trailCount)]
  ++ if place % trailCount = 0 then [] else [Char.ofNat (0x11A7 + place % trailCount)]

/-- The syllable of two parts. -/
def joinedSyllable? (a b : Char) : Option Char :=
  match lead? a, vowel? b, syllable? a, trail? b with
  | some l, some v, _, _ => some (Char.ofNat (firstSyllable + (l * vowelCount + v) * trailCount))
  | _, _, some s, some t => if s % trailCount = 0 then some (Char.ofNat (firstSyllable + s + t)) else none
  | _, _, _, _ => none

/-! ### Taking apart -/

/-- What a character stands for. -/
def decomposition (c : Char) : List Char :=
  match syllable? c with
  | some place => syllableParts place
  | none => ((composites.lookup c).orElse fun _ => variants.lookup c).getD [c]

/-- Puts a character behind others, which are given last one first; a mark goes in front of the marks
of greater classes. -/
def putInOrder (before : List Char) (c : Char) : List Char :=
  match before with
  | [] => [c]
  | d :: before' =>
    if combiningClass c ≠ 0 ∧ combiningClass c < combiningClass d then d :: putInOrder before' c
    else c :: d :: before'

/-- A text with every character taken apart and the marks in order. -/
def decomposed (s : List Char) : List Char := ((s.flatMap decomposition).foldl putInOrder []).reverse

/-! ### Putting together -/

/-- The character that stands for two others. -/
def composite? (a b : Char) : Option Char :=
  match joinedSyllable? a b with
  | some c => some c
  | none =>
    let parts := decomposition a ++ [b]
    (composites.find? (·.2 == parts)).map (·.1)

/-- A text that is being put together: what is finished, and the last letter that others may still join
with the marks behind it.  The lists hold the last character first. -/
structure Composing where
  done : List Char
  letter : Option Char
  marks : List Char

namespace Composing

/-- No mark stands between the letter and a character of the class that would keep them apart. -/
def isOpenTo (s : Composing) (class_ : Nat) : Bool := s.marks.head?.all (combiningClass · < class_)

/-- Takes one character in. -/
def add (s : Composing) (c : Char) : Composing :=
  let joined? : Option Char := do
    let letter ← s.letter
    if s.isOpenTo (combiningClass c) then composite? letter c else none
  match joined? with
  | some letter => { s with letter := some letter }
  | none =>
    if combiningClass c = 0 then ⟨s.marks ++ s.letter.toList ++ s.done, some c, []⟩
    else { s with marks := c :: s.marks }

/-- The text so far. -/
def text (s : Composing) : List Char := (s.marks ++ s.letter.toList ++ s.done).reverse

end Composing

/-- A text in its composed form. -/
def composed (s : List Char) : List Char :=
  if s.all (·.toNat < 0x80) then s
  else ((decomposed s).foldl Composing.add ⟨[], none, []⟩).text

end AssemblerIndex.Text
