import AssemblerIndex.Ebcdic
import AssemblerIndex.Processing

/-!
# Ordinary symbols

Sections, their location counters and the symbols defined against them.  A value is absolute or lies
at an offset in a section.  A name keeps its first definition, and every symbol keeps the processing
stack it was defined under.
-/

namespace AssemblerIndex

/-! ### Attributes -/

/-- The attributes that conditional assembly can ask for. -/
inductive Attribute where
  | type | length | scaling | integer | count | number | defined | opcode
  deriving DecidableEq, Repr, Inhabited

/-- The attribute with the given letter. -/
def Attribute.ofLetter? (c : Char) : Option Attribute :=
  match c.toUpper with
  | 'T' => some .type
  | 'L' => some .length
  | 'S' => some .scaling
  | 'I' => some .integer
  | 'K' => some .count
  | 'N' => some .number
  | 'D' => some .defined
  | 'O' => some .opcode
  | _ => none

/-- What defined a symbol. -/
inductive SymbolOrigin where
  | sectionName | machine | equate | data | unknown
  deriving DecidableEq, Repr, Inhabited

/-- The attributes of a symbol. -/
structure SymbolAttributes where
  origin : SymbolOrigin
  /-- the type attribute, in EBCDIC -/
  type : UInt8
  length : Option UInt32 := none
  scaling : Option Int16 := none
  integer : Option Int32 := none
  deriving DecidableEq, Repr, Inhabited

namespace SymbolAttributes

/-- Attributes with the type given as a character. -/
def ofType (origin : SymbolOrigin) (type : Char) (length : Option UInt32) : SymbolAttributes :=
  { origin, type := Ebcdic.encode type, length }

/-- The symbol has a value for the attribute. -/
def has (a : SymbolAttributes) : Attribute → Bool
  | .type => true
  | .length => a.length.isSome
  | .scaling => a.scaling.isSome
  | .integer => a.integer.isSome
  | _ => false

/-- The value of an attribute of a symbol that does not have it. -/
def missing : Attribute → Int32
  | .length => 1
  | .type => Int32.ofNat (Ebcdic.encode 'U').toNat
  | _ => 0

/-- The value of an attribute. -/
def value (a : SymbolAttributes) : Attribute → Int32
  | .type => Int32.ofNat a.type.toNat
  | .length => (a.length.map fun l => Int32.ofNat l.toNat).getD (missing .length)
  | .scaling => (a.scaling.map fun s => s.toInt32).getD (missing .scaling)
  | .integer => a.integer.getD (missing .integer)
  | k => missing k

end SymbolAttributes

/-! ### Symbols and sections -/

/-- The value of a symbol. -/
inductive SymbolValue where
  | absolute (n : Int32)
  | relocatable (index : Nat) (offset : Int32)
  | undefined
  deriving DecidableEq, Repr, Inhabited

/-- A symbol and its definition. -/
structure Symbol where
  name : String
  value : SymbolValue
  attributes : SymbolAttributes
  location : Location
  stack : ProcessingStack
  deriving Inhabited

/-- Kinds of sections. -/
inductive SectionKind where
  | common | dummy | executable | readonly
  deriving DecidableEq, Repr, Inhabited

/-- The value of `&SYSSTYP` in a section of the kind. -/
def SectionKind.systemType : SectionKind → String
  | .common => "COM"
  | .dummy => "DSECT"
  | .executable => "CSECT"
  | .readonly => "RSECT"

/-- A location counter. -/
structure Counter where
  name : String
  offset : Int32 := 0
  deriving DecidableEq, Repr, Inhabited

/-- A section and its location counters. -/
structure Section where
  name : String
  kind : SectionKind
  counters : Array Counter
  /-- the index of the counter in use -/
  current : Nat := 0
  deriving DecidableEq, Repr, Inhabited

namespace Section

/-- A section with a counter of its own name. -/
def start (name : String) (kind : SectionKind) : Section :=
  { name, kind, counters := #[{ name }] }

/-- The location counter in use. -/
def counter (s : Section) : Counter := s.counters[s.current]?.getD { name := s.name }

/-- Changes the offset of the counter in use. -/
def mapOffset (f : Int32 → Int32) (s : Section) : Section :=
  { s with counters := s.counters.modify s.current fun c => { c with offset := f c.offset } }

end Section

/-- The offset moved up to the next multiple of an alignment. -/
def alignOffset (alignment offset : Int32) : Int32 :=
  if 1 < alignment ∧ offset % alignment ≠ 0 then offset + (alignment - offset % alignment)
  else offset

/-! ### The table of symbols -/

/-- Sections in order of their start, and symbols in order of their definition.  A name is defined once, so the
array of symbols is both the list in order and what is searched for a name. -/
structure SymbolTable where
  sections : Array Section := #[]
  /-- the index of the section in use -/
  current : Option Nat := none
  symbols : Array Symbol := #[]
  deriving Inhabited

namespace SymbolTable

/-- The symbol with the given name. -/
def find? (t : SymbolTable) (name : String) : Option Symbol := t.symbols.find? (·.name == name)

/-- The value of the symbol with the given name. -/
def value? (t : SymbolTable) (name : String) : Option SymbolValue := (t.find? name).map (·.value)

/-- The section in use. -/
def currentSection? (t : SymbolTable) : Option Section := t.current.bind (t.sections[·]?)

/-- The index of the first section with the given name. -/
def sectionNamed? (t : SymbolTable) (name : String) : Option Nat :=
  t.sections.findIdx? (·.name == name)

/-- The name can be defined: it is not empty, and no symbol has it. -/
def isFree (t : SymbolTable) (name : String) : Bool := !name.isEmpty && (t.find? name).isNone

/-- Tries to define a symbol, and tells whether its name was free. -/
def create (t : SymbolTable) (s : Symbol) : SymbolTable × Bool :=
  if t.isFree s.name then ({ t with symbols := t.symbols.push s }, true) else (t, false)

/-- Defines a symbol, if its name is free. -/
def define (t : SymbolTable) (s : Symbol) : SymbolTable := (t.create s).1

theorem define_eq (t : SymbolTable) (s : Symbol) :
    t.define s = if t.isFree s.name then { t with symbols := t.symbols.push s } else t := by
  unfold define create
  split <;> rfl

/-- The symbol that names a section or a location counter. -/
def sectionSymbol (name : String) (index : Nat) (location : Location) (stack : ProcessingStack) :
    Symbol :=
  { name, location, stack
    value := .relocatable index 0
    attributes := .ofType .sectionName 'J' (some 1) }

/-- Starts a section and takes it in use. -/
def startSection (t : SymbolTable) (name : String) (kind : SectionKind) : SymbolTable :=
  { t with sections := t.sections.push (.start name kind), current := some t.sections.size }

/-- Goes on with the section of a name and kind, or starts it and defines its name. -/
def setSection (t : SymbolTable) (name : String) (kind : SectionKind) (location : Location)
    (stack : ProcessingStack) : SymbolTable :=
  let fresh := (t.startSection name kind).define (sectionSymbol name t.sections.size location stack)
  match t.sectionNamed? name with
  | some i =>
    match t.sections[i]? with
    | some s => if s.kind = kind then { t with current := some i } else fresh
    | none => fresh
  | none => fresh

/-- Starts the unnamed section if no section is in use. -/
def ensureSection (t : SymbolTable) : SymbolTable :=
  match t.current with
  | some _ => t
  | none => t.startSection "" .executable

/-- Changes the section in use. -/
def mapCurrent (f : Section → Section) (t : SymbolTable) : SymbolTable :=
  match t.current with
  | some i => { t with sections := t.sections.modify i f }
  | none => t

/-- Goes on with a location counter of the section in use, or starts it and defines its name. -/
def setCounter (t : SymbolTable) (name : String) (location : Location) (stack : ProcessingStack) :
    SymbolTable :=
  let t := t.ensureSection
  match t.currentSection?.bind fun s => s.counters.findIdx? (·.name == name) with
  | some i => t.mapCurrent fun s => { s with current := i }
  | none =>
    let t := t.mapCurrent fun s =>
      { s with counters := s.counters.push { name }, current := s.counters.size }
    t.define (sectionSymbol name (t.current.getD 0) location stack)

/-- The place of the location counter in use. -/
def place (t : SymbolTable) : SymbolValue :=
  match t.current, t.currentSection? with
  | some i, some s => .relocatable i s.counter.offset
  | _, _ => .relocatable 0 0

/-- Moves the location counter in use up to a multiple of an alignment. -/
def align (t : SymbolTable) (alignment : Int32) : SymbolTable :=
  t.ensureSection.mapCurrent (·.mapOffset (alignOffset alignment))

/-- Moves the location counter in use on. -/
def reserve (t : SymbolTable) (length : Int32) : SymbolTable :=
  t.ensureSection.mapCurrent (·.mapOffset (· + length))

/-- A place in a section in words, such as `SECT+8`. -/
def placeText (t : SymbolTable) (index : Nat) (offset : Int32) : String :=
  let name := ((t.sections[index]?).map (·.name)).getD ""
  if offset = 0 then name
  else if offset < 0 then name ++ toString offset.toInt
  else name ++ "+" ++ toString offset.toInt

end SymbolTable

end AssemblerIndex
