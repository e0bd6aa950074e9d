import AssemblerIndex.Instruction.Basic

/-!
# Machine instructions
-/

namespace AssemblerIndex

/-- Machine instructions, by name. -/
def machineInstructions : List Instruction := [
  { name := "A", kind := .machine, format := "R1,D2(X2,B2)", length := 4
    brief := "Add"
    description := "Adds the fullword at the second operand location to general register R1. Format RX." },
  { name := "AH", kind := .machine, format := "R1,D2(X2,B2)", length := 4
    brief := "Add Halfword"
    description := "Adds the sign-extended halfword at the second operand location to R1. Format RX." },
  { name := "AHI", kind := .machine, format := "R1,I2", length := 4
    brief := "Add Halfword Immediate"
    description := "Adds the signed 16 bit immediate to R1. Format RI." },
  { name := "AL", kind := .machine, format := "R1,D2(X2,B2)", length := 4
    brief := "Add Logical"
    description := "Adds the fullword at the second operand location to R1 as unsigned binary. Format RX." },
  { name := "ALR", kind := .machine, format := "R1,R2", length := 2
    brief := "Add Logical Register"
    description := "Adds R2 to R1 as unsigned binary. Format RR." },
  { name := "AR", kind := .machine, format := "R1,R2", length := 2
    brief := "Add Register"
    description := "Adds R2 to R1. Format RR." },
  { name := "BAL", kind := .machine, format := "R1,D2(X2,B2)", length := 4
    brief := "Branch and Link"
    description := "Saves the link information in R1 and branches to the second operand address. Format RX." },
  { name := "BALR", kind := .machine, format := "R1,R2", length := 2
    brief := "Branch and Link Register"
    description := "Saves the link information in R1 and branches to the address in R2. Format RR." },
  { name := "BAS", kind := .machine, format := "R1,D2(X2,B2)", length := 4
    brief := "Branch and Save"
    description := "Saves the return address in R1 and branches to the second operand address. Format RX." },
  { name := "BASR", kind := .machine, format := "R1,R2", length := 2
    brief := "Branch and Save Register"
    description := "Saves the return address in R1 and branches to the address in R2. Format RR." },
  { name := "BC", kind := .machine, format := "M1,D2(X2,B2)", length := 4
    brief := "Branch on Condition"
    description := "Branches to the second operand address if the condition code matches mask M1. Format RX." },
  { name := "BCR", kind := .machine, format := "M1,R2", length := 2
    brief := "Branch on Condition Register"
    description := "Branches to the address in R2 if the condition code matches mask M1. Format RR." },
  { name := "BCT", kind := .machine, format := "R1,D2(X2,B2)", length := 4
    brief := "Branch on Count"
    description := "Decrements R1 and branches if the result is not zero. Format RX." },
  { name := "BCTR", kind := .machine, format := "R1,R2", length := 2
    brief := "Branch on Count Register"
    description := "Decrements R1 and branches to the address in R2 if the result is not zero. Format RR." },
  { name := "BRAS", kind := .machine, format := "R1,I2", length := 4
    brief := "Branch Relative and Save"
    description := "Saves the return address in R1 and branches relative to the instruction address. Format RI." },
  { name := "BRC", kind := .machine, format := "M1,I2", length := 4
    brief := "Branch Relative on Condition"
    description := "Branches relative to the instruction address if the condition code matches M1. Format RI." },
  { name := "BXH", kind := .machine, format := "R1,R3,D2(B2)", length := 4
    brief := "Branch on Index High"
    description := "Adds the increment to R1 and branches if the sum is higher than the comparand. Format RS." },
  { name := "BXLE", kind := .machine, format := "R1,R3,D2(B2)", length := 4
    brief := "Branch on Index Low or Equal"
    description := "Adds the increment to R1 and branches if the sum is low or equal to the comparand. Format RS." },
  { name := "C", kind := .machine, format := "R1,D2(X2,B2)", length := 4
    brief := "Compare"
    description := "Compares R1 with the fullword at the second operand location. Format RX." },
  { name := "CH", kind := .machine, format := "R1,D2(X2,B2)", length := 4
    brief := "Compare Halfword"
    description := "Compares R1 with the sign-extended halfword at the second operand location. Format RX." },
  { name := "CHI", kind := .machine, format := "R1,I2", length := 4
    brief := "Compare Halfword Immediate"
    description := "Compares R1 with the signed 16 bit immediate. Format RI." },
  { name := "CL", kind := .machine, format := "R1,D2(X2,B2)", length := 4
    brief := "Compare Logical"
    description := "Compares R1 with the fullword at the second operand location as unsigned binary. Format RX." },
  { name := "CLC", kind := .machine, format := "D1(L,B1),D2(B2)", length := 6
    brief := "Compare Logical Character"
    description := "Compares two storage fields byte by byte. Format SS." },
  { name := "CLI", kind := .machine, format := "D1(B1),I2", length := 4
    brief := "Compare Logical Immediate"
    description := "Compares the byte at the first operand location with the immediate byte. Format SI." },
  { name := "CLR", kind := .machine, format := "R1,R2", length := 2
    brief := "Compare Logical Register"
    description := "Compares R1 with R2 as unsigned binary. Format RR." },
  { name := "CR", kind := .machine, format := "R1,R2", length := 2
    brief := "Compare Register"
    description := "Compares R1 with R2. Format RR." },
  { name := "CVB", kind := .machine, format := "R1,D2(X2,B2)", length := 4
    brief := "Convert to Binary"
    description := "Converts the packed decimal doubleword to binary in R1. Format RX." },
  { name := "CVD", kind := .machine, format := "R1,D2(X2,B2)", length := 4
    brief := "Convert to Decimal"
    description := "Converts R1 to a packed decimal doubleword. Format RX." },
  { name := "D", kind := .machine, format := "R1,D2(X2,B2)", length := 4
    brief := "Divide"
    description := "Divides the even-odd pair R1 by the fullword at the second operand location. Format RX." },
  { name := "DR", kind := .machine, format := "R1,R2", length := 2
    brief := "Divide Register"
    description := "Divides the even-odd pair R1 by R2. Format RR." },
  { name := "ED", kind := .machine, format := "D1(L,B1),D2(B2)", length := 6
    brief := "Edit"
    description := "Edits packed decimal data under control of a pattern. Format SS." },
  { name := "EX", kind := .machine, format := "R1,D2(X2,B2)", length := 4
    brief := "Execute"
    description := "Executes the target instruction, modified by R1. Format RX." },
  { name := "IC", kind := .machine, format := "R1,D2(X2,B2)", length := 4
    brief := "Insert Character"
    description := "Inserts the byte at the second operand location into bits 24-31 of R1. Format RX." },
  { name := "L", kind := .machine, format := "R1,D2(X2,B2)", length := 4
    brief := "Load"
    description := "Loads the fullword at the second operand location into R1. Format RX." },
  { name := "LA", kind := .machine, format := "R1,D2(X2,B2)", length := 4
    brief := "Load Address"
    description := "Loads the second operand address into R1. Format RX." },
  { name := "LCR", kind := .machine, format := "R1,R2", length := 2
    brief := "Load Complement Register"
    description := "Loads the two's complement of R2 into R1. Format RR." },
  { name := "LH", kind := .machine, format := "R1,D2(X2,B2)", length := 4
    brief := "Load Halfword"
    description := "Loads the sign-extended halfword at the second operand location into R1. Format RX." },
  { name := "LHI", kind := .machine, format := "R1,I2", length := 4
    brief := "Load Halfword Immediate"
    description := "Loads the signed 16 bit immediate into R1. Format RI." },
  { name := "LM", kind := .machine, format := "R1,R3,D2(B2)", length := 4
    brief := "Load Multiple"
    description := "Loads registers R1 through R3 from consecutive fullwords. Format RS." },
  { name := "LR", kind := .machine, format := "R1,R2", length := 2
    brief := "Load Register"
    description := "Copies R2 into R1. Format RR." },
  { name := "LTR", kind := .machine, format := "R1,R2", length := 2
    brief := "Load and Test Register"
    description := "Copies R2 into R1 and sets the condition code. Format RR." },
  { name := "M", kind := .machine, format := "R1,D2(X2,B2)", length := 4
    brief := "Multiply"
    description := "Multiplies the odd register of pair R1 by the fullword at the second operand location. Format RX." },
  { name := "MH", kind := .machine, format := "R1,D2(X2,B2)", length := 4
    brief := "Multiply Halfword"
    description := "Multiplies R1 by the halfword at the second operand location. Format RX." },
  { name := "MR", kind := .machine, format := "R1,R2", length := 2
    brief := "Multiply Register"
    description := "Multiplies the odd register of pair R1 by R2. Format RR." },
  { name := "MVC", kind := .machine, format := "D1(L,B1),D2(B2)", length := 6
    brief := "Move Character"
    description := "Moves L bytes from the second operand location to the first. Format SS." },
  { name := "MVI", kind := .machine, format := "D1(B1),I2", length := 4
    brief := "Move Immediate"
    description := "Stores the immediate byte at the first operand location. Format SI." },
  { name := "N", kind := .machine, format := "R1,D2(X2,B2)", length := 4
    brief := "And"
    description := "ANDs the fullword at the second operand location into R1. Format RX." },
  { name := "NC", kind := .machine, format := "D1(L,B1),D2(B2)", length := 6
    brief := "And Character"
    description := "ANDs the second storage field into the first. Format SS." },
  { name := "NI", kind := .machine, format := "D1(B1),I2", length := 4
    brief := "And Immediate"
    description := "ANDs the immediate byte into the byte at the first operand location. Format SI." },
  { name := "NR", kind := .machine, format := "R1,R2", length := 2
    brief := "And Register"
    description := "ANDs R2 into R1. Format RR." },
  { name := "O", kind := .machine, format := "R1,D2(X2,B2)", length := 4
    brief := "Or"
    description := "ORs the fullword at the second operand location into R1. Format RX." },
  { name := "OC", kind := .machine, format := "D1(L,B1),D2(B2)", length := 6
    brief := "Or Character"
    description := "ORs the second storage field into the first. Format SS." },
  { name := "OI", kind := .machine, format := "D1(B1),I2", length := 4
    brief := "Or Immediate"
    description := "ORs the immediate byte into the byte at the first operand location. Format SI." },
  { name := "OR", kind := .machine, format := "R1,R2", length := 2
    brief := "Or Register"
    description := "ORs R2 into R1. Format RR." },
  { name := "PACK", kind := .machine, format := "D1(L1,B1),D2(L2,B2)", length := 6
    brief := "Pack"
    description := "Converts zoned decimal to packed decimal. Format SS." },
  { name := "S", kind := .machine, format := "R1,D2(X2,B2)", length := 4
    brief := "Subtract"
    description := "Subtracts the fullword at the second operand location from R1. Format RX." },
  { name := "SH", kind := .machine, format := "R1,D2(X2,B2)", length := 4
    brief := "Subtract Halfword"
    description := "Subtracts the sign-extended halfword at the second operand location from R1. Format RX." },
  { name := "SLA", kind := .machine, format := "R1,D2(B2)", length := 4
    brief := "Shift Left Single"
    description := "Shifts the numeric part of R1 left arithmetically. Format RS." },
  { name := "SLL", kind := .machine, format := "R1,D2(B2)", length := 4
    brief := "Shift Left Single Logical"
    description := "Shifts R1 left logically. Format RS." },
  { name := "SR", kind := .machine, format := "R1,R2", length := 2
    brief := "Subtract Register"
    description := "Subtracts R2 from R1. Format RR." },
  { name := "SRA", kind := .machine, format := "R1,D2(B2)", length := 4
    brief := "Shift Right Single"
    description := "Shifts the numeric part of R1 right arithmetically. Format RS." },
  { name := "SRL", kind := .machine, format := "R1,D2(B2)", length := 4
    brief := "Shift Right Single Logical"
    description := "Shifts R1 right logically. Format RS." },
  { name := "ST", kind := .machine, format := "R1,D2(X2,B2)", length := 4
    brief := "Store"
    description := "Stores R1 at the second operand location. Format RX." },
  { name := "STC", kind := .machine, format := "R1,D2(X2,B2)", length := 4
    brief := "Store Character"
    description := "Stores bits 24-31 of R1 at the second operand location. Format RX." },
  { name := "STH", kind := .machine, format := "R1,D2(X2,B2)", length := 4
    brief := "Store Halfword"
    description := "Stores bits 16-31 of R1 at the second operand location. Format RX." },
  { name := "STM", kind := .machine, format := "R1,R3,D2(B2)", length := 4
    brief := "Store Multiple"
    description := "Stores registers R1 through R3 in consecutive fullwords. Format RS." },
  { name := "SVC", kind := .machine, format := "I", length := 2
    brief := "Supervisor Call"
    description := "Requests a supervisor service. Format I." },
  { name := "TM", kind := .machine, format := "D1(B1),I2", length := 4
    brief := "Test under Mask"
    description := "Tests the bits selected by the mask in the byte at the first operand location. Format SI." },
  { name := "TR", kind := .machine, format := "D1(L,B1),D2(B2)", length := 6
    brief := "Translate"
    description := "Translates the first operand through the table at the second operand location. Format SS." },
  { name := "UNPK", kind := .machine, format := "D1(L1,B1),D2(L2,B2)", length := 6
    brief := "Unpack"
    description := "Converts packed decimal to zoned decimal. Format SS." },
  { name := "X", kind := .machine, format := "R1,D2(X2,B2)", length := 4
    brief := "Exclusive Or"
    description := "XORs the fullword at the second operand location into R1. Format RX." },
  { name := "XC", kind := .machine, format := "D1(L,B1),D2(B2)", length := 6
    brief := "Exclusive Or Character"
    description := "XORs the second storage field into the first. Format SS." },
  { name := "XI", kind := .machine, format := "D1(B1),I2", length := 4
    brief := "Exclusive Or Immediate"
    description := "XORs the immediate byte into the byte at the first operand location. Format SI." },
  { name := "XR", kind := .machine, format := "R1,R2", length := 2
    brief := "Exclusive Or Register"
    description := "XORs R2 into R1. Format RR." },
  { name := "ZAP", kind := .machine, format := "D1(L1,B1),D2(L2,B2)", length := 6
    brief := "Zero and Add"
    description := "Moves a packed decimal field, clearing the destination first. Format SS." }]

end AssemblerIndex
