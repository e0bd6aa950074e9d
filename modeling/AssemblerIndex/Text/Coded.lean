import AssemblerIndex.Text.Digits
import AssemblerIndex.Text.Parts

/-!
# Coded tables of characters

Properties of characters that a standard lists are kept as texts of decimal numbers.  A set is coded
by the lengths of the intervals that lie outside and inside of it in turn.  A property with several
values is coded by the length of each interval and the mark of its value.  A mapping is coded by blocks
of neighbouring characters: the first of them, and what each is mapped to.
-/

namespace AssemblerIndex.Text

/-- The words of a coded table; they stand between blanks and line ends. -/
def codedWords (s : String) : List (List Char) :=
  (partsAt ' ' (s.toList.map fun c => if c = '\n' then ' ' else c)).filter (!·.isEmpty)

/-! ### Sets -/

/-- A set of characters: the lengths of the intervals outside and inside of it in turn. -/
structure CharacterSet where
  lengths : List Nat
  deriving Repr, Inhabited

namespace CharacterSet

/-- The number lies in an inner interval; the first one is inner or not, and then they alternate. -/
def liesInside (isInner : Bool) : List Nat → Nat → Bool
  | [], _ => false
  | l :: ls, n => if n < l then isInner else liesInside (!isInner) ls (n - l)

/-- The character is in the set. -/
def contains (s : CharacterSet) (c : Char) : Bool := liesInside false s.lengths c.toNat

/-- The set that a text codes. -/
def ofCode (s : String) : CharacterSet := ⟨(codedWords s).map decimal⟩

end CharacterSet

/-! ### Properties -/

/-- A property of characters: the lengths of intervals with one value. -/
structure CharacterProperty (α : Type) where
  intervals : List (Nat × α)
  deriving Repr, Inhabited

namespace CharacterProperty

variable {α : Type}

/-- The value in whose interval the number lies. -/
def valueFrom? : List (Nat × α) → Nat → Option α
  | [], _ => none
  | (l, a) :: is, n => if n < l then some a else valueFrom? is (n - l)

/-- The value for a character, if the table reaches it. -/
def value? (p : CharacterProperty α) (c : Char) : Option α := valueFrom? p.intervals c.toNat

/-- The property that a text codes: words of a length and the mark of a value. -/
def ofCode (value : List Char → α) (s : String) : CharacterProperty α :=
  ⟨(codedWords s).map fun w =>
    (decimal (w.takeWhile Char.isDigit), value (w.dropWhile Char.isDigit))⟩

end CharacterProperty

/-! ### Mappings -/

/-- The images of the characters from `first` on that an item codes: one image of several characters,
or the first of a run of neighbours that are mapped to neighbours. -/
def itemImages (first : Nat) (item : List Char) : List (Char × List Char) :=
  match partsAt '*' item with
  | [image, count] =>
    (List.range (decimal count)).map fun k =>
      (Char.ofNat (first + k), [Char.ofNat (decimal image + k)])
  | _ => [(Char.ofNat first, (partsAt '.' item).map fun n => Char.ofNat (decimal n))]

/-- The images of neighbouring characters, the first of which is given. -/
def blockImages (first : Nat) : List (List Char) → List (Char × List Char)
  | [] => []
  | item :: items =>
    let images := itemImages first item
    images ++ blockImages (first + images.length) items

/-- The mapping that a text codes: blocks of a character and, behind a colon, the items from it on. -/
def imagesOfCode (s : String) : List (Char × List Char) :=
  (codedWords s).flatMap fun w =>
    match partsAt ':' w with
    | [first, items] => blockImages (decimal first) (partsAt ',' items)
    | _ => []

end AssemblerIndex.Text
