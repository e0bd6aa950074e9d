import AssemblerIndex.Instruction.Machine
import AssemblerIndex.Instruction.Mnemonic
import AssemblerIndex.Instruction.Assembler
import AssemblerIndex.Instruction.ConditionalAssembly
import AssemblerIndex.Text.LetterCase

/-!
# The catalogue of instructions

All instructions in order of their names, and looking one up.
-/

namespace AssemblerIndex

/-- Enters an instruction in a list in order of names, and `rest` behind it. -/
def mergeBehind (i : Instruction) (rest : List Instruction → List Instruction) :
    List Instruction → List Instruction
  | [] => i :: rest []
  | j :: js => if i.name ≤ j.name then i :: rest (j :: js) else j :: mergeBehind i rest js

/-- Merges two lists of instructions that are in order of their names. -/
def mergeByName : List Instruction → List Instruction → List Instruction
  | [], b => b
  | i :: a, b => mergeBehind i (mergeByName a) b

/-- All instructions in order of their names. -/
def catalogue : List Instruction :=
  mergeByName (mergeByName machineInstructions extendedMnemonics)
    (mergeByName assemblerInstructions conditionalInstructions)

/-- The instruction with the given name, which is in capital letters. -/
def instruction? (name : String) : Option Instruction := catalogue.find? (·.name == name)

/-- The instruction with the given name in any case. -/
def instructionNamed? (name : String) : Option Instruction := instruction? (Text.upper name)

/-- The kind of the instruction with the given name. -/
def instructionKind? (name : String) : Option InstructionKind := (instruction? name).map (·.kind)

end AssemblerIndex
