import AssemblerIndex.SelfDefiningTerm

/-!
# SET values

The values of SET symbols and of conditional assembly expressions: words of 32 bits, truth values
and texts.  Each can be taken for a value of another type.
-/

namespace AssemblerIndex

/-- The types of SET symbols. -/
inductive SetType where
  | arithmetic | boolean | character
  deriving DecidableEq, Repr, Inhabited

/-- A value of one of the types. -/
inductive SetValue where
  | arithmetic (n : Int32)
  | boolean (b : Bool)
  | character (s : List Char)
  deriving DecidableEq, Repr, Inhabited

/-- The decimal digits of a natural number. -/
def decimalDigits (n : Nat) : List Char := Nat.toDigits 10 n

/-- The word one or zero for a truth value. -/
def wordOfBool (b : Bool) : Int32 := if b then 1 else 0

namespace SetValue

/-- The initial value of a symbol. -/
def default : SetType → SetValue
  | .arithmetic => .arithmetic 0
  | .boolean => .boolean false
  | .character => .character []

/-- The text that takes the place of a value in a statement; numbers appear without their sign. -/
def toText : SetValue → List Char
  | .arithmetic n => decimalDigits n.toInt.natAbs
  | .boolean b => if b then ['1'] else ['0']
  | .character s => s

/-- The value as an arithmetic operand; a text counts if it is a self-defining term. -/
def toWord : SetValue → Int32
  | .arithmetic n => n
  | .boolean b => wordOfBool b
  | .character s => (SelfDefiningTerm.value? s).getD 0

/-- The value as a logical operand. -/
def toBool : SetValue → Bool
  | .arithmetic n => n != 0
  | .boolean b => b
  | .character s => s == ['1']

/-- The value as a value of the given type. -/
def coerce (v : SetValue) : SetType → SetValue
  | .arithmetic => .arithmetic v.toWord
  | .boolean => .boolean v.toBool
  | .character => .character v.toText

end SetValue

end AssemblerIndex
