/-!
# Instructions

What is known of an operation code that the assembler defines itself.
-/

namespace AssemblerIndex

/-- Kinds of instructions. -/
inductive InstructionKind where
  | machine
  /-- an extended mnemonic, which stands for a machine instruction with a fixed mask -/
  | mnemonic
  | assembler
  | conditionalAssembly
  deriving DecidableEq, Repr, Inhabited

/-- The entry of an operation code. -/
structure Instruction where
  name : String
  kind : InstructionKind
  /-- the form of its operands -/
  format : String
  /-- the length in bytes, 0 if no machine code is generated -/
  length : Nat := 0
  /-- the instruction and mask that an extended mnemonic stands for -/
  base : String := ""
  /-- the name in words -/
  brief : String
  /-- what it does -/
  description : String
  deriving DecidableEq, Repr, Inhabited

/-- The name and the form of the operands. -/
def Instruction.summary (i : Instruction) : String :=
  if i.format.isEmpty then i.name else i.name ++ " " ++ i.format

end AssemblerIndex
