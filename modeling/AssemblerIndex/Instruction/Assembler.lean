import AssemblerIndex.Instruction.Basic

/-!
# Assembler instructions
-/

namespace AssemblerIndex

/-- Assembler instructions, by name. -/
def assemblerInstructions : List Instruction := [
  { name := "ACONTROL", kind := .assembler, format := ""
    brief := "Assembler Control"
    description := "Changes assembler options within the source." },
  { name := "AMODE", kind := .assembler, format := ""
    brief := "Addressing Mode"
    description := "Sets the addressing mode of a control section." },
  { name := "CCW", kind := .assembler, format := ""
    brief := "Channel Command Word"
    description := "Defines a format-0 channel command word." },
  { name := "CNOP", kind := .assembler, format := "b,w"
    brief := "Conditional No Operation"
    description := "Aligns the location counter to a halfword boundary within a word or doubleword." },
  { name := "COM", kind := .assembler, format := ""
    brief := "Common Section"
    description := "Starts or continues a common control section." },
  { name := "COPY", kind := .assembler, format := "member"
    brief := "Copy"
    description := "Includes a copy member from the library." },
  { name := "CSECT", kind := .assembler, format := ""
    brief := "Control Section"
    description := "Starts or continues an executable control section." },
  { name := "DC", kind := .assembler, format := "operands"
    brief := "Define Constant"
    description := "Defines constants and reserves storage for them." },
  { name := "DROP", kind := .assembler, format := "registers"
    brief := "Drop"
    description := "Ends the availability of base registers." },
  { name := "DS", kind := .assembler, format := "operands"
    brief := "Define Storage"
    description := "Reserves storage." },
  { name := "DSECT", kind := .assembler, format := ""
    brief := "Dummy Section"
    description := "Starts or continues a dummy control section." },
  { name := "EJECT", kind := .assembler, format := ""
    brief := "Eject"
    description := "Starts a new listing page." },
  { name := "END", kind := .assembler, format := "entry"
    brief := "End"
    description := "Ends the assembly." },
  { name := "ENTRY", kind := .assembler, format := "symbols"
    brief := "Entry"
    description := "Identifies entry point symbols." },
  { name := "EQU", kind := .assembler, format := "value,length,type"
    brief := "Equate"
    description := "Assigns a value and attributes to a symbol." },
  { name := "EXTRN", kind := .assembler, format := "symbols"
    brief := "External"
    description := "Identifies external symbols." },
  { name := "LOCTR", kind := .assembler, format := ""
    brief := "Location Counter"
    description := "Starts or continues a location counter." },
  { name := "LTORG", kind := .assembler, format := ""
    brief := "Literal Origin"
    description := "Places the literal pool." },
  { name := "MACRO", kind := .assembler, format := ""
    brief := "Macro"
    description := "Starts a macro definition." },
  { name := "MEND", kind := .assembler, format := ""
    brief := "Macro End"
    description := "Ends a macro definition." },
  { name := "MEXIT", kind := .assembler, format := ""
    brief := "Macro Exit"
    description := "Ends the processing of the current macro invocation." },
  { name := "MNOTE", kind := .assembler, format := "severity,'message'"
    brief := "Macro Note"
    description := "Issues a message from a macro." },
  { name := "OPSYN", kind := .assembler, format := "opcode"
    brief := "Operation Synonym"
    description := "Defines or removes a synonym for an operation code." },
  { name := "ORG", kind := .assembler, format := "expression"
    brief := "Origin"
    description := "Sets the location counter." },
  { name := "POP", kind := .assembler, format := ""
    brief := "Pop"
    description := "Restores saved assembler status." },
  { name := "PRINT", kind := .assembler, format := "options"
    brief := "Print"
    description := "Controls the listing." },
  { name := "PUSH", kind := .assembler, format := ""
    brief := "Push"
    description := "Saves assembler status." },
  { name := "RMODE", kind := .assembler, format := ""
    brief := "Residence Mode"
    description := "Sets the residence mode of a control section." },
  { name := "RSECT", kind := .assembler, format := ""
    brief := "Read-only Section"
    description := "Starts or continues a read-only control section." },
  { name := "SPACE", kind := .assembler, format := "n"
    brief := "Space"
    description := "Inserts blank lines in the listing." },
  { name := "START", kind := .assembler, format := "value"
    brief := "Start"
    description := "Starts the first executable control section." },
  { name := "TITLE", kind := .assembler, format := "'title'"
    brief := "Title"
    description := "Sets the listing title." },
  { name := "USING", kind := .assembler, format := "base,registers"
    brief := "Using"
    description := "Declares base registers." }]

end AssemblerIndex
