import AssemblerIndex.Instruction.Basic

/-!
# Extended mnemonics
-/

namespace AssemblerIndex

/-- Extended mnemonics, by name. -/
def extendedMnemonics : List Instruction := [
  { name := "B", kind := .mnemonic, format := "D2(X2,B2)", length := 4, base := "BC 15"
    brief := "Branch"
    description := "Unconditional branch. Extended mnemonic for BC 15." },
  { name := "BE", kind := .mnemonic, format := "D2(X2,B2)", length := 4, base := "BC 8"
    brief := "Branch on Equal"
    description := "Branch if the condition code is 0. Extended mnemonic for BC 8." },
  { name := "BH", kind := .mnemonic, format := "D2(X2,B2)", length := 4, base := "BC 2"
    brief := "Branch on High"
    description := "Branch if the condition code is 2. Extended mnemonic for BC 2." },
  { name := "BL", kind := .mnemonic, format := "D2(X2,B2)", length := 4, base := "BC 4"
    brief := "Branch on Low"
    description := "Branch if the condition code is 1. Extended mnemonic for BC 4." },
  { name := "BM", kind := .mnemonic, format := "D2(X2,B2)", length := 4, base := "BC 4"
    brief := "Branch on Minus"
    description := "Branch if the result was negative. Extended mnemonic for BC 4." },
  { name := "BNE", kind := .mnemonic, format := "D2(X2,B2)", length := 4, base := "BC 7"
    brief := "Branch on Not Equal"
    description := "Branch if the condition code is not 0. Extended mnemonic for BC 7." },
  { name := "BNH", kind := .mnemonic, format := "D2(X2,B2)", length := 4, base := "BC 13"
    brief := "Branch on Not High"
    description := "Branch unless the condition code is 2. Extended mnemonic for BC 13." },
  { name := "BNL", kind := .mnemonic, format := "D2(X2,B2)", length := 4, base := "BC 11"
    brief := "Branch on Not Low"
    description := "Branch unless the condition code is 1. Extended mnemonic for BC 11." },
  { name := "BNZ", kind := .mnemonic, format := "D2(X2,B2)", length := 4, base := "BC 7"
    brief := "Branch on Not Zero"
    description := "Branch if the result was not zero. Extended mnemonic for BC 7." },
  { name := "BO", kind := .mnemonic, format := "D2(X2,B2)", length := 4, base := "BC 1"
    brief := "Branch on Overflow"
    description := "Branch if the condition code is 3. Extended mnemonic for BC 1." },
  { name := "BP", kind := .mnemonic, format := "D2(X2,B2)", length := 4, base := "BC 2"
    brief := "Branch on Plus"
    description := "Branch if the result was positive. Extended mnemonic for BC 2." },
  { name := "BR", kind := .mnemonic, format := "R2", length := 2, base := "BCR 15"
    brief := "Branch Register"
    description := "Unconditional branch to the address in R2. Extended mnemonic for BCR 15." },
  { name := "BZ", kind := .mnemonic, format := "D2(X2,B2)", length := 4, base := "BC 8"
    brief := "Branch on Zero"
    description := "Branch if the result was zero. Extended mnemonic for BC 8." },
  { name := "J", kind := .mnemonic, format := "I2", length := 4, base := "BRC 15"
    brief := "Jump"
    description := "Unconditional relative branch. Extended mnemonic for BRC 15." },
  { name := "JE", kind := .mnemonic, format := "I2", length := 4, base := "BRC 8"
    brief := "Jump on Equal"
    description := "Relative branch if the condition code is 0. Extended mnemonic for BRC 8." },
  { name := "JNE", kind := .mnemonic, format := "I2", length := 4, base := "BRC 7"
    brief := "Jump on Not Equal"
    description := "Relative branch if the condition code is not 0. Extended mnemonic for BRC 7." },
  { name := "NOP", kind := .mnemonic, format := "D2(X2,B2)", length := 4, base := "BC 0"
    brief := "No Operation"
    description := "Branch that is never taken. Extended mnemonic for BC 0." },
  { name := "NOPR", kind := .mnemonic, format := "R2", length := 2, base := "BCR 0"
    brief := "No Operation Register"
    description := "Branch that is never taken. Extended mnemonic for BCR 0." }]

end AssemblerIndex
