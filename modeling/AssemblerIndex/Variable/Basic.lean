import AssemblerIndex.Variable.MacroData
import AssemblerIndex.Variable.SetValue
import Std.Data.TreeMap

/-!
# Variable symbols

A variable symbol is a SET symbol, which can be assigned, or a parameter of a macro call.
Subscripts count from one; no subscript means the whole value.
-/

namespace AssemblerIndex

/-! ### SET symbols -/

/-- A SET symbol: one value, or a value for each subscript that was assigned. -/
structure SetSymbol where
  type : SetType
  isScalar : Bool
  isGlobal : Bool
  scalar : SetValue
  elements : Std.TreeMap Nat SetValue := ∅
  deriving Inhabited

namespace SetSymbol

/-- A symbol that was declared and not yet assigned. -/
def declared (type : SetType) (isScalar isGlobal : Bool) : SetSymbol :=
  { type, isScalar, isGlobal, scalar := .default type }

/-- The element with a subscript. -/
def element (s : SetSymbol) (i : Nat) : SetValue := s.elements[i]?.getD (.default s.type)

/-- The value that subscripts lead to; a scalar passes over them, and only the first one counts. -/
def value (s : SetSymbol) (subscripts : List Nat) : SetValue :=
  match s.isScalar, subscripts with
  | false, i :: _ => s.element i
  | _, _ => s.scalar

/-- The greatest subscript that was assigned. -/
def maxSubscript (s : SetSymbol) : Nat := s.elements.maxKey?.getD 0

/-- Assigns the symbol or, if it is subscripted, one of its elements. -/
def assign (s : SetSymbol) (subscript : Option Nat) (v : SetValue) : SetSymbol :=
  match s.isScalar, subscript with
  | false, some i => { s with elements := s.elements.insert i (v.coerce s.type) }
  | _, _ => { s with scalar := v.coerce s.type }

end SetSymbol

/-! ### Variables -/

/-- A variable symbol. -/
inductive Variable where
  | set (s : SetSymbol)
  | positional (position : Nat) (data : MacroData)
  | keyword (default : MacroData) (given : Option MacroData)
  /-- a list whose first subscript counts from zero, as those of `&SYSLIST` and `&SYSMAC` do -/
  | sysList (data : MacroData)
  deriving Inhabited

namespace Variable

/-- The variable has one value. -/
def isScalar : Variable → Bool
  | .set s => s.isScalar
  | _ => true

/-- What a parameter is bound to, `none` for a SET symbol. -/
def data? : Variable → Option MacroData
  | .set _ => none
  | .positional _ d => some d
  | .keyword d given => some (given.getD d)
  | .sysList d => some d

/-- The data that subscripts of a parameter lead to. -/
def dataAt (v : Variable) (subscripts : List Nat) : Option MacroData :=
  match v, subscripts with
  | .sysList d, i :: is => some (d.subscripted ((i + 1) :: is))
  | v, is => v.data?.map (·.subscripted is)

/-- The value that subscripts lead to. -/
def value (v : Variable) (subscripts : List Nat) : SetValue :=
  match v with
  | .set s => s.value subscripts
  | v => .character (((v.dataAt subscripts).map MacroData.text).getD [])

/-- The count attribute: the number of characters of the value. -/
def count (v : Variable) (subscripts : List Nat) : Int32 :=
  match v with
  | .set s => Int32.ofNat (s.value subscripts).toText.length
  | v => Int32.ofNat (((v.dataAt subscripts).map MacroData.count).getD 0)

/-- The number attribute: the number of elements, or the greatest subscript that was assigned. -/
def number (v : Variable) (subscripts : List Nat) : Int32 :=
  match v, subscripts with
  | .set s, _ => if s.isScalar then 0 else Int32.ofNat s.maxSubscript
  | .sysList d, [] => Int32.ofNat (d.number - 1)
  | v, is => Int32.ofNat (((v.dataAt is).map MacroData.number).getD 0)

/-- Assigns a SET symbol; parameters cannot be assigned. -/
def assign? (v : Variable) (subscript : Option Nat) (x : SetValue) : Option Variable :=
  match v with
  | .set s => some (.set (s.assign subscript x))
  | _ => none

/-- A parenthesis behind the variable starts a subscript. -/
def takesSubscript : Variable → Bool
  | .set s => !s.isScalar
  | .sysList _ => true
  | v => v.data?.any MacroData.isComposite

end Variable

end AssemblerIndex
