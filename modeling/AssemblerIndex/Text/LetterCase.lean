import AssemblerIndex.Text.CaseClass
import AssemblerIndex.Text.CaseRuns

/-!
# Capital and small letters

Names are compared in capital letters.  `upper` and `lower` map every letter of Unicode.
-/

namespace AssemblerIndex.Text

/-- The character `n + shift`, or the character itself if there is none. -/
def shifted (c : Char) (shift : Int) : Char :=
  let n := (c.toNat + shift).toNat
  if n.isValidChar then Char.ofNat n else c

/-- The image of a character under the first run that covers it. -/
def mapByRuns (runs : List CaseRun) (c : Char) : Char :=
  match runs.find? (·.covers c.toNat) with
  | some r => shifted c r.shift
  | none => c

/-- The capital form of a character. -/
def upperChar (c : Char) : List Char :=
  if c.toNat < 0x80 then [c.toUpper]
  else match longCapitals.lookup c.toNat with
    | some ns => ns.map Char.ofNat
    | none => [mapByRuns upperRuns c]

/-- A text in capital letters. -/
def upperChars (s : List Char) : List Char := s.flatMap upperChar

/-- A text in capital letters. -/
def upper (s : String) : String := String.ofList (upperChars s.toList)

/-- The small form of a character that does not depend on its neighbours. -/
def lowerChar (c : Char) : List Char :=
  if c.toNat < 0x80 then [c.toLower]
  else if c = 'İ' then ['i', '\u0307']
  else [mapByRuns lowerRuns c]

/-- The word goes on to a letter with case. -/
def meetsCased (s : List Char) : Bool := (s.dropWhile isCaseIgnorable).head?.any isCased

/-- A text in small letters; a sigma that ends a word takes its final form. -/
def lowerFrom (before : List Char) : List Char → List Char
  | [] => []
  | c :: rest =>
    let image :=
      if c = 'Σ' then (if meetsCased before && !meetsCased rest then ['ς'] else ['σ']) else lowerChar c
    image ++ lowerFrom (c :: before) rest

/-- A text in small letters. -/
def lower (s : String) : String := String.ofList (lowerFrom [] s.toList)

/-- Equality of two texts up to the case of ASCII letters. -/
def sameAscii (s t : String) : Bool := s.toList.map Char.toUpper == t.toList.map Char.toUpper

end AssemblerIndex.Text
