import AssemblerIndex.Instruction.Basic

/-!
# Conditional assembly instructions
-/

namespace AssemblerIndex

/-- Conditional assembly instructions, by name. -/
def conditionalInstructions : List Instruction := [
  { name := "ACTR", kind := .conditionalAssembly, format := "count"
    brief := "Conditional Assembly Counter"
    description := "Sets the branch counter that bounds conditional-assembly loops." },
  { name := "AEJECT", kind := .conditionalAssembly, format := ""
    brief := "Macro Listing Eject"
    description := "Ejects the listing page within a macro." },
  { name := "AGO", kind := .conditionalAssembly, format := ".seq"
    brief := "Unconditional Branch"
    description := "Branches to a sequence symbol." },
  { name := "AIF", kind := .conditionalAssembly, format := "(cond).seq"
    brief := "Conditional Branch"
    description := "Branches to a sequence symbol when the condition is true." },
  { name := "AINSERT", kind := .conditionalAssembly, format := "'record',BACK|FRONT"
    brief := "Insert Record"
    description := "Inserts a record into the input stream." },
  { name := "ANOP", kind := .conditionalAssembly, format := ""
    brief := "Assembly No Operation"
    description := "Defines a sequence symbol without other effect." },
  { name := "AREAD", kind := .conditionalAssembly, format := ""
    brief := "Assembler Read"
    description := "Reads the next input record into a SETC symbol." },
  { name := "ASPACE", kind := .conditionalAssembly, format := "n"
    brief := "Macro Listing Space"
    description := "Inserts blank lines in the listing within a macro." },
  { name := "GBLA", kind := .conditionalAssembly, format := "&vars"
    brief := "Global Arithmetic"
    description := "Declares global SETA symbols." },
  { name := "GBLB", kind := .conditionalAssembly, format := "&vars"
    brief := "Global Boolean"
    description := "Declares global SETB symbols." },
  { name := "GBLC", kind := .conditionalAssembly, format := "&vars"
    brief := "Global Character"
    description := "Declares global SETC symbols." },
  { name := "LCLA", kind := .conditionalAssembly, format := "&vars"
    brief := "Local Arithmetic"
    description := "Declares local SETA symbols." },
  { name := "LCLB", kind := .conditionalAssembly, format := "&vars"
    brief := "Local Boolean"
    description := "Declares local SETB symbols." },
  { name := "LCLC", kind := .conditionalAssembly, format := "&vars"
    brief := "Local Character"
    description := "Declares local SETC symbols." },
  { name := "SETA", kind := .conditionalAssembly, format := "expression"
    brief := "Set Arithmetic"
    description := "Assigns an arithmetic value to a SETA symbol." },
  { name := "SETB", kind := .conditionalAssembly, format := "expression"
    brief := "Set Boolean"
    description := "Assigns a boolean value to a SETB symbol." },
  { name := "SETC", kind := .conditionalAssembly, format := "expression"
    brief := "Set Character"
    description := "Assigns a character value to a SETC symbol." }]

end AssemblerIndex
