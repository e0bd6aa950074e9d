import AssemblerIndex.Table
import AssemblerIndex.Variable.Basic

/-!
# Macros and copy members

A macro definition keeps its prototype and its body; copy members that were included in the body have
become part of it, and `nests` says for each statement where it came from.  A call binds the
arguments to the parameters of the prototype.
-/

namespace AssemblerIndex

/-- A sequence symbol and the statement it labels. -/
structure SequenceSymbol where
  name : String
  location : Location
  /-- the index of the statement in the list it belongs to -/
  offset : Nat
  deriving DecidableEq, Repr, Inhabited

/-- One level of the way by which a statement came into a macro body: the statement itself in the
definition, then in each copy member. -/
structure NestItem where
  location : Location
  member : Option String
  deriving DecidableEq, Repr, Inhabited

/-- A parameter of a prototype; a keyword parameter has a default. -/
structure Parameter where
  name : String
  default : Option MacroData
  deriving Repr, Inhabited

/-- The parameter is a keyword parameter. -/
def Parameter.isKeyword (p : Parameter) : Bool := p.default.isSome

/-- An argument of a call, possibly with a keyword. -/
structure Argument where
  keyword : Option String
  data : MacroData
  deriving Repr, Inhabited

/-- A macro definition. -/
structure MacroDefinition where
  /-- tells definitions apart: each registration has a number of its own -/
  serial : Nat := 0
  name : String
  labelParameter : Option String
  /-- the parameters in the order of the prototype -/
  parameters : List Parameter
  body : Array Statement
  nests : Array (List NestItem)
  labels : Table SequenceSymbol
  location : Location
  deriving Inhabited

/-- A call of a macro. -/
structure Invocation where
  definition : MacroDefinition
  parameters : Table Variable
  /-- the index of the statement being processed -/
  current : Nat := 0
  deriving Inhabited

/-- A copy member. -/
structure CopyMember where
  name : String
  body : Array Statement
  location : Location
  deriving Inhabited

/-- A position in an open copy member. -/
structure CopyCursor where
  member : CopyMember
  current : Nat := 0
  deriving Inhabited

/-- The place of the current statement, or that of the member behind its end. -/
def CopyCursor.location (c : CopyCursor) : Location :=
  match c.member.body[c.current]? with
  | some s => ⟨c.member.location.file, s.position⟩
  | none => c.member.location

namespace MacroDefinition

/-- The positional parameters. -/
def positionalParameters (d : MacroDefinition) : List Parameter :=
  d.parameters.filter (!·.isKeyword)

/-- The keyword parameters. -/
def keywordParameters (d : MacroDefinition) : List Parameter := d.parameters.filter (·.isKeyword)

/-- The name is that of a keyword parameter. -/
def hasKeyword (d : MacroDefinition) (name : String) : Bool :=
  d.keywordParameters.any (·.name == name)

/-- The data of an argument that counts as positional; a keyword that the prototype does not know
becomes part of the text. -/
def positionalData? (d : MacroDefinition) (a : Argument) : Option MacroData :=
  match a.keyword with
  | none => some a.data
  | some k => if d.hasKeyword k then none else some (.single (k.toList ++ '=' :: a.data.text))

/-- The keyword and the data of an argument that counts as a keyword argument. -/
def keywordData? (d : MacroDefinition) (a : Argument) : Option (String × MacroData) :=
  match a.keyword with
  | none => none
  | some k => if d.hasKeyword k then some (k, a.data) else none

/-- Binds positional parameters, counted from `position`, to the arguments left. -/
def bindPositional (t : Table Variable) (position : Nat) :
    List Parameter → List MacroData → Table Variable
  | [], _ => t
  | p :: ps, args =>
    bindPositional (t.insert p.name (.positional position (args.headD .absent))) (position + 1) ps
      args.tail

/-- Binds keyword parameters; an argument is used up by the first parameter of its name. -/
def bindKeywords (t : Table Variable) : List Parameter → Table MacroData → Table Variable
  | [], _ => t
  | p :: ps, given =>
    bindKeywords (t.insert p.name (.keyword (p.default.getD .absent) (given.find? p.name))) ps
      (given.erase p.name)

/-- The call of a macro with a label and arguments. -/
def call (d : MacroDefinition) (label : Option MacroData) (args : List Argument) : Invocation :=
  let positional := args.filterMap d.positionalData?
  let given := Table.ofList (args.filterMap d.keywordData?)
  let label := label.getD .absent
  let own : Table Variable := match d.labelParameter with
    | some l => ({} : Table Variable).insert l (.positional 0 label)
    | none => {}
  let own := bindPositional own 1 d.positionalParameters positional
  let own := bindKeywords own d.keywordParameters given
  { definition := d
    parameters := own.insert "SYSLIST" (.sysList (.composite (label :: positional))) }

end MacroDefinition

end AssemblerIndex
