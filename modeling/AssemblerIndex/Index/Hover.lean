import AssemblerIndex.Index.Basic
import AssemblerIndex.Index.Documentation

/-!
# Hovers

What is said about the symbol at a place, as markdown.
-/

namespace AssemblerIndex

/-- What is said about a variable symbol. -/
def Declaration.summary (d : Declaration) : String :=
  match d.kind with
  | .parameter => "MACRO parameter"
  | .set .arithmetic _ => "SETA variable"
  | .set .boolean _ => "SETB variable"
  | .set .character _ => "SETC variable"

/-- A line of a list of attributes. -/
def attributeLine (letter value : String) : String := letter ++ ": " ++ value ++ "  \n"

/-- The attributes that are listed, with their letters and in their order. -/
def listedAttributes : List (Attribute × String) :=
  [(.length, "L"), (.integer, "I"), (.scaling, "S"), (.type, "T")]

/-- The attributes of a symbol, a line for each. -/
def SymbolAttributes.summary (a : SymbolAttributes) : String :=
  String.join (listedAttributes.map fun e =>
    if !a.has e.1 then ""
    else if e.1 = .type then attributeLine e.2 (Ebcdic.typeText a.type)
    else attributeLine e.2 (toString (a.value e.1).toInt))

/-- What is said about an ordinary symbol; nothing if it has no value. -/
def SymbolTable.summary (t : SymbolTable) (s : Symbol) : String :=
  let described (value kind : String) : String :=
    value ++ "\n\n---\n\n" ++ kind ++ " Symbol\n\n---\n\n" ++ s.attributes.summary
  match s.value with
  | .absolute n => described (toString n.toInt) "Absolute"
  | .relocatable i offset => described (t.placeText i offset) "Relocatable"
  | .undefined => ""

/-- What is said about an instruction. -/
def Instruction.hover (i : Instruction) : String :=
  "\x60" ++ i.summary ++ "\x60  \n" ++ i.brief ++ "  \n" ++ i.description

namespace Index

/-- What is said about a macro: its documentation, as a block of code. -/
def macroHover (x : Index) (d : MacroDefinition) : String :=
  match x.files.find? d.location.file with
  | some f =>
    "\x60\x60\x60\n" ++ joinLines (f.text.documentation d.location.pos.line) ++ "\x60\x60\x60\n"
  | none => ""

/-- What is said about the symbol at a spot. -/
def hoverOf (x : Index) (s : Spot) : String :=
  let name := s.occurrence.name
  match s.occurrence.kind with
  | .ordinary => ((x.context.symbols.find? name).map x.context.symbols.summary).getD ""
  | .sequence => "Sequence symbol"
  | .variable_ => ((x.declaration? s).map Declaration.summary).getD ""
  | .instruction =>
    match s.occurrence.callee with
    | some d => x.macroHover d
    | none =>
      if x.settings.instructionHovers then ((instructionNamed? name).map Instruction.hover).getD ""
      else ""
  | .copyMember => ""

/-- What is said about the symbol at a place; the empty text if there is nothing to say. -/
def hover (x : Index) (file : String) (p : Position) : String :=
  ((x.spot? file p).map x.hoverOf).getD ""

end Index

end AssemblerIndex
