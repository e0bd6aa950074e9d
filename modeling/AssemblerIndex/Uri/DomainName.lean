import AssemblerIndex.Text.Composition
import AssemblerIndex.Text.LetterCase
import AssemblerIndex.Uri.Direction
import AssemblerIndex.Uri.Joining
import AssemblerIndex.Uri.NameTable
import AssemblerIndex.Uri.Punycode

/-!
# Names of hosts

A name consists of labels with periods between them.  It is written in ASCII: every character is brought
into its usual form, and a label that then still holds others than ASCII is written in Punycode behind
`xn--`.  A label that is given in this way has to be the one that its characters are written as.
-/

namespace AssemblerIndex.Uri

open AssemblerIndex.Text

/-! ### Characters -/

/-- The characters of ASCII that no name holds. -/
def isForbiddenInName (c : Char) : Bool :=
  c ≤ ' ' || c = '\x7f' || c ∈ ['%', '#', '/', ':', '<', '>', '?', '@', '[', '\\', ']', '^', '|']

/-- What a character of a name is replaced by; `none` if no name holds it. -/
def replaced? (c : Char) : Option (List Char) :=
  if c.toNat < 0x80 then some [c.toLower]
  else match nameStatus c with
    | .refused => none
    | .leftOut => some []
    | .allowed => some ((replacements.lookup c).getD (lowerChar c))

/-- A name with every character in its usual form. -/
def usualForm? (s : List Char) : Option (List Char) := do
  let s := composed (← s.mapM replaced?).flatten
  if s.any isForbiddenInName then none else some s

/-! ### Labels -/

/-- A label: its characters, and how they are written in ASCII. -/
structure DomainLabel where
  characters : List Char
  written : List Char
  deriving DecidableEq, Repr, Inhabited

/-- What stands in front of a label in Punycode. -/
def punycodeMark : List Char := ['x', 'n', '-', '-']

/-- The greatest number of characters that a label is written in Punycode for. -/
def labelLimit : Nat := 1000

/-- A label begins with no mark and holds joiners only where they have a meaning. -/
def isLabel (s : List Char) : Bool :=
  !s.head?.any isMark && joinersFit [] s && (s.all Punycode.isBasic || s.length ≤ labelLimit)

/-- The characters of a label that is given in Punycode; they have to be in their usual form. -/
def fromPunycode? (s : List Char) : Option (List Char) := do
  if s = [] ∨ s.getLast? = some '-' ∨ 2 * labelLimit < s.length ∨ !s.all Punycode.isBasic then none
  else
    let characters ← Punycode.decode? s
    if usualForm? characters = some characters then some characters else none

/-- The label that characters in their usual form stand for. -/
def label? (s : List Char) : Option DomainLabel := do
  let l : DomainLabel ←
    if punycodeMark.isPrefixOf s then
      (fromPunycode? (s.drop punycodeMark.length)).map (⟨·, s⟩)
    else if s.all Punycode.isBasic then some ⟨s, s⟩
    else some ⟨s, punycodeMark ++ Punycode.encode s⟩
  if isLabel l.characters then some l else none

/-! ### Names -/

/-- The labels keep their order if letters written from right to left are among them. -/
def labelsKeepOrder (ls : List DomainLabel) : Bool :=
  !(ls.any fun l => l.characters.any fun c => (direction c).isBackward)
    || ls.all fun l => keepsOrder l.characters

/-- A name in ASCII; `none` if it is no name. -/
def asciiName? (s : List Char) : Option (List Char) := do
  let ls ← (partsAt '.' (← usualForm? s)).mapM label?
  if labelsKeepOrder ls then some (joinedWith ['.'] (ls.map (·.written))) else none

end AssemblerIndex.Uri
