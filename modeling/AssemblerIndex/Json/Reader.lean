import AssemblerIndex.Json.Basic
import AssemblerIndex.Text.Digits

/-!
# Reading JSON

A text is cut into tokens, and the tokens are read with a stack of open arrays and objects.  Reading
is strict: control characters in a text, numbers with leading zeros, unpaired surrogates, numbers
beyond the range of a double and anything behind the value are refused, and so are containers
nested deeper than `Json.maxDepth`.
-/

namespace AssemblerIndex.Json

/-- The greatest number of arrays and objects open at one time. -/
def maxDepth : Nat := 127

/-- The pieces that a JSON text consists of. -/
inductive Token where
  | openArray | closeArray | openObject | closeObject | comma | colon
  | scalar (value : Json)
  deriving Inhabited

/-! ### Texts -/

/-- The number written by four hexadecimal digits. -/
def hexUnit? (a b c d : Char) : Option Nat := Text.ofDigits? 16 [a, b, c, d]

/-- The character of a one-letter escape. -/
def shortEscape? : Char → Option Char
  | '"' => some '"'
  | '\\' => some '\\'
  | '/' => some '/'
  | 'b' => some '\x08'
  | 'f' => some '\x0c'
  | 'n' => some '\n'
  | 'r' => some '\r'
  | 't' => some '\t'
  | _ => none

/-- Reads one character of a text, written as it is or as an escape. -/
def readChar : List Char → Option (Char × List Char)
  | '\\' :: 'u' :: a :: b :: c :: d :: rest =>
    match hexUnit? a b c d with
    | none => none
    | some u =>
      if 0xD800 ≤ u ∧ u < 0xDC00 then
        match rest with
        | '\\' :: 'u' :: e :: f :: g :: h :: rest =>
          match hexUnit? e f g h with
          | none => none
          | some v =>
            if 0xDC00 ≤ v ∧ v < 0xE000 then
              some (Char.ofNat (0x10000 + (u - 0xD800) * 0x400 + (v - 0xDC00)), rest)
            else none
        | _ => none
      else if 0xDC00 ≤ u ∧ u < 0xE000 then none
      else some (Char.ofNat u, rest)
  | '\\' :: c :: rest => (shortEscape? c).map fun e => (e, rest)
  | '\\' :: [] => none
  | c :: rest => if c.toNat < 0x20 then none else some (c, rest)
  | [] => none

theorem length_of_readChar {s rest : List Char} {c : Char} (h : readChar s = some (c, rest)) :
    rest.length < s.length := by
  unfold readChar at h
  repeat' split at h
  all_goals first
    | contradiction
    | (obtain rfl := congrArg Prod.snd (Option.some.inj h); simp only [List.length_cons]; omega)
    | (obtain ⟨_, _, h⟩ := Option.map_eq_some_iff.1 h
       obtain rfl := congrArg Prod.snd h
       simp only [List.length_cons]; omega)

/-- Reads a text behind its opening quote: the characters, and what follows the closing quote. -/
def readText (s : List Char) : Option (List Char × List Char) :=
  match s with
  | '"' :: rest => some ([], rest)
  | s =>
    match h : readChar s with
    | none => none
    | some (c, rest) =>
      have := length_of_readChar h
      match readText rest with
      | none => none
      | some (t, rest) => some (c :: t, rest)
termination_by s.length

theorem length_of_readText {s t rest : List Char} (h : readText s = some (t, rest)) :
    rest.length < s.length := by
  fun_induction readText s generalizing t with
  | case1 r => cases h; simp
  | case2 => contradiction
  | case3 => contradiction
  | case4 s _ c r hc _ t' r' ht ih =>
    cases h
    exact Nat.lt_trans (ih ht) (length_of_readChar hc)

/-! ### Numbers -/

/-- The characters that a number is written with. -/
def isNumberChar (c : Char) : Bool := c.isDigit || c ∈ ['-', '+', '.', 'e', 'E']

/-- The parts of a number: whole digits, digits behind the point, and the exponent's sign and
digits. -/
structure Numeral where
  negative : Bool
  whole : List Char
  fraction : Option (List Char)
  exponent : Option (Bool × List Char)

/-- Reads the exponent of a number. -/
def readExponent : List Char → Option (Option (Bool × List Char))
  | [] => some none
  | e :: rest =>
    if e = 'e' ∨ e = 'E' then
      let (negative, digits) :=
        match rest with
        | '-' :: ds => (true, ds)
        | '+' :: ds => (false, ds)
        | ds => (false, ds)
      if digits ≠ [] ∧ digits.all Char.isDigit then some (some (negative, digits)) else none
    else none

/-- Reads a number; whole parts have no leading zero, and a point stands between digits. -/
def readNumeral (s : List Char) : Option Numeral := do
  let (negative, s) :=
    match s with
    | '-' :: rest => (true, rest)
    | s => (false, s)
  let whole := s.takeWhile Char.isDigit
  let rest := s.dropWhile Char.isDigit
  guard (whole ≠ [] ∧ (whole.length = 1 ∨ whole.head? ≠ some '0'))
  match rest with
  | '.' :: rest =>
    let fraction := rest.takeWhile Char.isDigit
    guard (fraction ≠ [])
    return ⟨negative, whole, some fraction, ← readExponent (rest.dropWhile Char.isDigit)⟩
  | rest => return ⟨negative, whole, none, ← readExponent rest⟩

/-- Digits that are read up to a bound: the number that they form, and how many of them it holds.  The
first digit that would pass the bound ends it. -/
def boundedDigits (bound n count : Nat) : List Char → Nat × Nat
  | [] => (n, count)
  | d :: ds =>
    let m := n * 10 + (d.toNat - '0'.toNat)
    if m < bound then boundedDigits bound m (count + 1) ds else (n, count)

/-- The first number that does not fit in 64 bits. -/
def wordBound : Nat := 0x10000000000000000

/-- The digits of a number that count, which fit in 64 bits, and the power of ten that they are
multiplied by.  Whole digits beyond them only raise the power; digits behind the point are read as long
as there is room. -/
def Numeral.scale (n : Numeral) : Nat × Int :=
  let (whole, count) := boundedDigits wordBound 0 0 n.whole
  let (digits, places) := boundedDigits wordBound whole 0 (n.fraction.getD [])
  let exponent : Int := match n.exponent with
    | some (true, ds) => -(Text.decimal ds : Int)
    | some (false, ds) => Text.decimal ds
    | none => 0
  (digits, exponent + (n.whole.length - count : Nat) - places)

/-- A number rounded to the 53 binary digits of a double; a half goes to the even neighbour. -/
def roundedToDouble (n : Nat) : Nat :=
  let unit := Nat.pow 2 (n.log2 + 1 - 53)
  let (q, r) := (n / unit, n % unit)
  if 2 * r < unit ∨ (2 * r = unit ∧ q % 2 = 0) then q * unit else (q + 1) * unit

/-- Half a unit above the greatest double. -/
def doubleBound : Nat := Nat.pow 2 1024 - Nat.pow 2 970

/-- The greatest power of ten that a double holds. -/
def maxPower : Int := 308

/-- The number is read as a double.  Its digits and its power of ten are rounded before they are
multiplied. -/
def Numeral.isFinite (n : Numeral) : Bool :=
  let (digits, power) := n.scale
  digits == 0 || power < 0
    || (power ≤ maxPower
      && roundedToDouble digits * roundedToDouble (Nat.pow 10 power.toNat) < doubleBound)

/-- The value of a number: an integer if it has neither point nor exponent, is not minus zero and
fits in 64 bits. -/
def numberValue (text : List Char) : Option Json := do
  let n ← readNumeral text
  guard n.isFinite
  let magnitude := Text.decimal n.whole
  let real := Json.real (String.ofList text)
  match n.fraction, n.exponent with
  | none, none =>
    if n.negative then
      return if magnitude = 0 ∨ wordBound < 2 * magnitude then real else .integer (-(magnitude : Int))
    else
      return if wordBound ≤ magnitude then real else .integer magnitude
  | _, _ => return real

/-! ### Tokens -/

/-- The space that may stand between tokens. -/
def isSpace (c : Char) : Bool := c ∈ [' ', '\t', '\n', '\r']

theorem length_dropWhile_le (p : Char → Bool) (s : List Char) :
    (s.dropWhile p).length ≤ s.length := (List.dropWhile_sublist p).length_le

/-- Cuts a text into tokens. -/
def tokens (s : List Char) : Option (List Token) :=
  match s with
  | [] => some []
  | c :: rest =>
    let single (t : Token) := (tokens rest).map (t :: ·)
    if isSpace c then tokens rest
    else match c with
      | '[' => single .openArray
      | ']' => single .closeArray
      | '{' => single .openObject
      | '}' => single .closeObject
      | ',' => single .comma
      | ':' => single .colon
      | '"' =>
        match h : readText rest with
        | none => none
        | some (t, rest') =>
          have := length_of_readText h
          (tokens rest').map (.scalar (.string (String.ofList t)) :: ·)
      | _ =>
        if isNumberChar c then
          have := length_dropWhile_le isNumberChar rest
          match numberValue (c :: rest.takeWhile isNumberChar) with
          | none => none
          | some v => (tokens (rest.dropWhile isNumberChar)).map (.scalar v :: ·)
        else
          have := length_dropWhile_le Char.isAlpha rest
          let word := String.ofList (c :: rest.takeWhile Char.isAlpha)
          let literal? : Option Json :=
            if word = "null" then some .null
            else if word = "true" then some (.bool true)
            else if word = "false" then some (.bool false)
            else none
          match literal? with
          | none => none
          | some v => (tokens (rest.dropWhile Char.isAlpha)).map (.scalar v :: ·)
termination_by s.length

/-! ### Values -/

/-- A container that is still open: what it holds so far, newest first. -/
inductive Container where
  | array (items : List Json)
  | object (members : Table Json) (name : String)

/-- What may come next. -/
inductive Expectation where
  | value | valueOrClose | nameOrClose | name | colon | commaOrClose
  | done (value : Json)

/-- The state of reading: the open containers, innermost first, and what may come next. -/
structure Reading where
  stack : List Container
  next : Expectation

/-- Puts a finished value where it belongs. -/
def settle (value : Json) : List Container → Reading
  | [] => ⟨[], .done value⟩
  | .array items :: stack => ⟨.array (value :: items) :: stack, .commaOrClose⟩
  | .object members name :: stack => ⟨.object (members.insert name value) "" :: stack, .commaOrClose⟩

/-- A token may start a value here. -/
def Expectation.startsValue : Expectation → Bool
  | .value | .valueOrClose => true
  | _ => false

/-- Takes one token in. -/
def Reading.step (r : Reading) (t : Token) : Option Reading :=
  match t, r.next, r.stack with
  | .openArray, e, stack =>
    if e.startsValue ∧ stack.length < maxDepth then some ⟨.array [] :: stack, .valueOrClose⟩ else none
  | .openObject, e, stack =>
    if e.startsValue ∧ stack.length < maxDepth then some ⟨.object {} "" :: stack, .nameOrClose⟩
    else none
  | .scalar (.string s), .nameOrClose, .object members _ :: stack
  | .scalar (.string s), .name, .object members _ :: stack =>
    some ⟨.object members s :: stack, .colon⟩
  | .scalar v, e, stack => if e.startsValue then some (settle v stack) else none
  | .colon, .colon, stack => some ⟨stack, .value⟩
  | .comma, .commaOrClose, .array items :: stack => some ⟨.array items :: stack, .value⟩
  | .comma, .commaOrClose, .object members n :: stack => some ⟨.object members n :: stack, .name⟩
  | .closeArray, .valueOrClose, .array items :: stack
  | .closeArray, .commaOrClose, .array items :: stack => some (settle (.array items.reverse) stack)
  | .closeObject, .nameOrClose, .object members _ :: stack
  | .closeObject, .commaOrClose, .object members _ :: stack =>
    some (settle (.object members.entries) stack)
  | _, _, _ => none

/-- Reads the value that a text holds. -/
def parse? (s : String) : Option Json := do
  let ts ← tokens s.toList
  match ← ts.foldlM Reading.step ⟨[], .value⟩ with
  | ⟨_, .done value⟩ => return value
  | _ => none

end AssemblerIndex.Json
