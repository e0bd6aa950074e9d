import AssemblerIndex.Context.Macros

/-!
# Attribute references

The attributes of variables, ordinary symbols and operation codes.  The count and number attributes
belong to a variable itself; the others to what its value names.
-/

namespace AssemblerIndex.Context

/-- The type attribute of the ordinary symbol with a name. -/
def symbolType (x : Context) (name : String) : List Char :=
  match x.symbols.find? name with
  | some s => [Ebcdic.decode s.attributes.type]
  | none => ['U']

/-- The type attribute of a value: omitted, a number, or that of the symbol it names. -/
def valueType (x : Context) (value : List Char) : List Char :=
  if value.isEmpty then ['O']
  else if SelfDefiningTerm.isTerm value then ['N']
  else x.symbolType (String.ofList (Text.upperChars value))

/-- The type attribute of a variable with subscripts. -/
def variableType (x : Context) (v : Option Variable) (subscripts : List Nat) : List Char :=
  match v with
  | none => ['U']
  | some (.set s) =>
    if s.type = .character then x.valueType (s.value subscripts).toText else ['N']
  | some v =>
    match v.dataAt subscripts with
    | some d => x.valueType d.leading
    | none => ['U']

/-- The attribute of an operation code: a macro, an assembler instruction, an extended mnemonic, a
machine instruction, or undefined. -/
def opcodeType (x : Context) (name : String) : List Char :=
  if x.macros.contains name then ['M']
  else match instructionKind? name with
    | some .assembler | some .conditionalAssembly => ['A']
    | some .mnemonic => ['E']
    | some .machine => ['O']
    | none => ['U']

/-- The attribute of the ordinary symbol or operation code with a name. -/
def symbolAttribute (x : Context) (a : Attribute) (name : String) : SetValue :=
  match a with
  | .defined => .arithmetic (wordOfBool (x.symbols.find? name).isSome)
  | .opcode => .character (x.opcodeType name)
  | .type => .character (x.symbolType name)
  | a => .arithmetic (match x.symbols.find? name with
      | some s => s.attributes.value a
      | none => SymbolAttributes.missing a)

/-- The attribute of a variable with subscripts. -/
def variableAttribute (x : Context) (a : Attribute) (v : Option Variable) (subscripts : List Nat) :
    SetValue :=
  match a with
  | .count => .arithmetic ((v.map (·.count subscripts)).getD 0)
  | .number => .arithmetic ((v.map (·.number subscripts)).getD 0)
  | .type => .character (x.variableType v subscripts)
  | a =>
    let value := ((v.map (·.value subscripts)).map SetValue.toText).getD []
    x.symbolAttribute a (String.ofList (Text.upperChars value))

end AssemblerIndex.Context
