import AssemblerIndex.Assembly.Basic

/-!
# Macro definitions

A definition reaches from `MACRO` through the `MEND` that closes it.  The statement behind `MACRO` is
the prototype, the rest is the body, in which the statements of copy members take the place of the
`COPY` statements that name them.  Sequence symbols and declarations inside of a nested definition
belong to that definition.
-/

namespace AssemblerIndex

/-- A statement and the way by which it came into the list it stands in. -/
structure NestedStatement where
  statement : Statement
  nest : List NestItem
  deriving Inhabited

namespace NestedStatement

/-- A statement of a file. -/
def direct (file : String) (s : Statement) : NestedStatement := ⟨s, [⟨⟨file, s.position⟩, none⟩]⟩

/-- The file that the statement was written in. -/
def file (n : NestedStatement) : String := ((n.nest.getLast?).map (·.location.file)).getD ""

/-- The statements of a copy member that take the place of a `COPY` statement. -/
def copied (n : NestedStatement) (m : CopyMember) : List NestedStatement :=
  m.body.toList.map fun s => ⟨s, n.nest ++ [⟨⟨m.location.file, s.position⟩, some m.name⟩]⟩

/-- The copy member that a `COPY` statement names, in capital letters. -/
def copyName? (n : NestedStatement) : Option String :=
  match n.statement.operands with
  | o :: _ => if o.text.contains '&' then none else some (String.ofList (Text.upperChars o.text))
  | [] => none

end NestedStatement

/-- The statements of a definition with their nests. -/
def MacroDefinition.nestedBody (d : MacroDefinition) : List NestedStatement :=
  d.body.toList.mapIdx fun i s => ⟨s, d.nests[i]?.getD []⟩

/-! ### The extent of a definition -/

/-- The number of definitions that are open behind a statement. -/
def openDefinitions (depth : Int) (opcode : String) : Int :=
  if opcode = "MACRO" then depth + 1
  else if opcode = "MEND" then depth - 1
  else depth

/-- The statements through the `MEND` that closes the last of `depth` open definitions; all of them if
there is none. -/
def throughMend (depth : Int) : List NestedStatement → List NestedStatement
  | [] => []
  | n :: rest =>
    let opcode := n.statement.opcode
    let depth := openDefinitions depth opcode
    if opcode = "MEND" ∧ depth = 0 then [n] else n :: throughMend depth rest

/-- The statements outside of nested definitions, with their indices. -/
def ownStatements (depth : Int) (index : Nat) : List NestedStatement → List (Nat × NestedStatement)
  | [] => []
  | n :: rest =>
    let depth := openDefinitions depth n.statement.opcode
    if 0 < depth then ownStatements depth (index + 1) rest
    else (index, n) :: ownStatements depth (index + 1) rest

/-! ### Parts of a definition -/

/-- The instruction declares SET symbols. -/
def declaresSymbols (opcode : String) : Bool :=
  opcode ∈ ["LCLA", "LCLB", "LCLC", "GBLA", "GBLB", "GBLC"]

/-- The instruction assigns a SET symbol. -/
def assignsSymbol (opcode : String) : Bool := opcode ∈ ["SETA", "SETB", "SETC"]

/-- The symbols that the instruction declares are global. -/
def declaresGlobals (opcode : String) : Bool := "GBL".toList.isPrefixOf opcode.toList

/-- The type of the SET symbols that an instruction declares or assigns. -/
def setTypeOf (opcode : String) : SetType :=
  match opcode.toList.getLast? with
  | some 'A' => .arithmetic
  | some 'B' => .boolean
  | _ => .character

/-- The declarations that a statement of a body makes. -/
def bodyDeclarations (index : Nat) (n : NestedStatement) : List Declaration :=
  let s := n.statement
  let opcode := s.opcode
  let declaration (isGlobal : Bool) (name : String) (pos : Position) : Declaration :=
    { name, kind := .set (setTypeOf opcode) isGlobal, file := n.file, pos, bodyIndex := some index }
  if declaresSymbols opcode then
    s.operands.filterMap fun o => (splitVariable o.text).map fun v =>
      declaration (declaresGlobals opcode) v.1 o.span.start
  else if assignsSymbol opcode then
    match s.label with
    | some l => ((splitVariable l.text).map fun v => declaration false v.1 l.span.start).toList
    | none => []
  else []

/-- The sequence symbol that a statement of a body defines. -/
def bodyLabel? (index : Nat) (n : NestedStatement) : Option SequenceSymbol :=
  n.statement.sequenceLabel?.map fun l => ⟨l.1, ⟨n.file, l.2⟩, index⟩

/-- The table of sequence symbols; the first one of a name counts. -/
def labelTable (labels : List SequenceSymbol) : Table SequenceSymbol :=
  labels.foldl (fun t l => if t.contains l.name then t else t.insert l.name l) {}

/-- What follows the ampersand of a text, in capital letters. -/
def variableName? : List Char → Option String
  | '&' :: name => some (String.ofList (Text.upperChars name))
  | _ => none

/-- The parameter that an operand of a prototype declares; a default makes it a keyword parameter. -/
def parameter? (text : List Char) : Option Parameter :=
  match text with
  | '&' :: rest =>
    let name := rest.takeWhile (· ≠ '=')
    let default := match rest.dropWhile (· ≠ '=') with
      | _ :: value => some (MacroData.ofText value)
      | [] => none
    some { name := String.ofList (Text.upperChars name), default }
  | _ => none

/-- The declarations that a prototype in a file makes. -/
def prototypeDeclarations (file : String) (prototype : Statement) : List Declaration :=
  let ofField (f : Field) (name : String) : Declaration :=
    { name, kind := .parameter, file, pos := f.span.start }
  let label := match prototype.label with
    | some f => ((variableName? f.text).map (ofField f)).toList
    | none => []
  label ++ prototype.operands.filterMap fun f => (parameter? f.text).map fun p => ofField f p.name

/-- The lines that copy members contribute to a body, by file. -/
def copiedLines (body : List NestedStatement) : Table LineRange :=
  body.foldl (fun t n =>
    if 1 < n.nest.length then
      let lines := LineRange.ofSpan n.statement.span
      t.insert n.file (((t.find? n.file).map (·.hull lines)).getD lines)
    else t) {}

/-- The lines that a definition in a file consists of. -/
def definitionScopes (file : String) (lines : LineRange) (body : List NestedStatement) :
    Table (List LineRange) :=
  (copiedLines body).entries.foldl (fun t e => t.insert e.1 (((t.find? e.1).getD []) ++ [e.2]))
    (({} : Table (List LineRange)).insert file [lines])

/-! ### Reading a definition -/

/-- What has been read of a definition; lists hold their last element first. -/
structure Reading where
  assembly : Assembly
  body : List NestedStatement := []
  occurrences : FileOccurrences := []

namespace Reading

/-- Adds the occurrences in a statement; a call is one of a macro that is defined by now. -/
def note (r : Reading) (n : NestedStatement) (callee : Option MacroDefinition) : Reading :=
  let found := n.statement.occurrences callee
  { r with
    assembly := r.assembly.meet (found.map (·.name))
    occurrences := (found.map (n.file, ·)).reverse ++ r.occurrences }

/-- Adds the occurrences in a statement of the body. -/
def noteBody (r : Reading) (n : NestedStatement) : Reading :=
  let opcode := n.statement.opcode
  let r := { r with assembly := r.assembly.meet [opcode] }
  let x := r.assembly.context
  r.note n (x.macros.find? (x.operation opcode))

/-- The copy member that takes the place of a `COPY` statement, unless it is open already. -/
def copied? (r : Reading) (openMembers : List String) (n : NestedStatement) :
    Reading × Option CopyMember :=
  match n.copyName? with
  | none => (r, none)
  | some name =>
    let (a, m) := r.assembly.copyMember? name
    ({ r with assembly := a }, m.filter fun m => !openMembers.contains m.name)

/-- Appends a statement to the body; `inner` appends the statements of a copy member. -/
def appendOne (inner : List String → Reading → List NestedStatement → Reading)
    (openMembers : List String) (r : Reading) (n : NestedStatement) : Reading :=
  let r := r.noteBody n
  if n.statement.opcode = "COPY" then
    match r.copied? openMembers n with
    | (r, some m) => inner (m.name :: openMembers) r (n.copied m)
    | (r, none) => r
  else { r with body := n :: r.body }

/-- Appends statements to the body.  Copy members are opened at most `depth` deep. -/
def append : Nat → List String → Reading → List NestedStatement → Reading
  | 0, _, r, _ => r
  | depth + 1, openMembers, r, items => items.foldl (appendOne (append depth) openMembers) r

end Reading

namespace Assembly

/-- A bound on the nesting of copy members: no member is opened twice, and each is named by a
statement of another one. -/
def copyDepth (a : Assembly) : Nat :=
  a.context.copyMembers.values.foldl (fun n m => n + m.body.size) 0 + a.library.extent + 2

/-- Reads a definition that consists of an opening `MACRO`, a prototype and the rest. -/
def read (a : Assembly) (opening prototype : NestedStatement) (rest : List NestedStatement) : Reading :=
  ((({ assembly := a } : Reading).note opening none).note prototype none).append a.copyDepth [] rest

end Assembly

namespace Reading

/-- The statements of the body, in order. -/
def statements (r : Reading) : List NestedStatement := r.body.reverse

/-- The sequence symbols of the definition. -/
def labels (r : Reading) : List SequenceSymbol :=
  (ownStatements 0 0 r.statements).filterMap fun e => bodyLabel? e.1 e.2

/-- The declarations in the body. -/
def declared (r : Reading) : List Declaration :=
  (ownStatements 0 0 r.statements).flatMap fun e => bodyDeclarations e.1 e.2

/-- The definition with the given prototype in a file. -/
def definition (r : Reading) (file : String) (prototype : Statement) : MacroDefinition :=
  { name := prototype.opcode
    labelParameter := variableName? prototype.labelText
    parameters := prototype.operands.filterMap fun o => parameter? o.text
    body := (r.statements.map (·.statement)).toArray
    nests := (r.statements.map (·.nest)).toArray
    labels := labelTable r.labels
    location := ⟨file, prototype.position⟩ }

/-- The record of the definition with the given prototype in the given lines of a file. -/
def record (r : Reading) (file : String) (prototype : Statement) (lines : LineRange)
    (isExternal : Bool) : MacroRecord :=
  { isExternal
    definition := r.definition file prototype
    scopes := definitionScopes file lines r.statements
    occurrences := r.occurrences.reverse
    declarations := (prototypeDeclarations file prototype ++ r.declared).foldl declareOnce [] }

end Reading

namespace Assembly

/-- Registers a definition and, if it is the first one at its place, records it. -/
def register (a : Assembly) (r : MacroRecord) : Assembly × MacroDefinition :=
  let (x, d) := a.context.addMacro r.definition
  let a := { a with context := x }
  if a.records.any (·.isAt d.location) then (a, d)
  else ({ a with records := { r with definition := d } :: a.records }, d)

/-- Reads and registers the definition in a list of statements from `MACRO` on; nothing happens
without a usable prototype. -/
def define (a : Assembly) (items : List NestedStatement) (isExternal : Bool) :
    Assembly × Option MacroDefinition :=
  match items with
  | opening :: prototype :: rest =>
    let file := opening.file
    let p := prototype.statement
    let name := p.opcode
    if name.isEmpty || name.toList.contains '&' then (a, none)
    else
      let a := a.meet (name :: (prototypeDeclarations file p).map (·.name))
      let r := a.read opening prototype rest
      let last := (rest.getLast?).getD prototype
      let lines : LineRange :=
        ⟨opening.statement.span.start.line, last.statement.span.stop.line + 1⟩
      let a := r.assembly.meet (r.labels.map (·.name) ++ r.declared.map (·.name))
      let (a, d) := a.register (r.record file p lines isExternal)
      (a, some d)
  | _ => (a, none)

/-! ### Macros of a library -/

/-- The definition of a name in the library.  A member that does not define its own name is not looked
at again. -/
def loadMacro (a : Assembly) (name : String) : Assembly × Option MacroDefinition :=
  if a.refused.contains name then (a, none)
  else match a.library.find? name with
    | none => ({ a with refused := name :: a.refused }, none)
    | some found =>
      let nested := (statementsOf found.text.toList).map (NestedStatement.direct found.uri)
      let items := throughMend 0 (nested.dropWhile (·.statement.opcode ≠ "MACRO"))
      let a := a.mapContext (·.pushSource .macroDefinition found.uri)
      let (a, d?) := a.define items true
      let a := a.attempt Context.popLevel
      match d?.filter (·.name == name) with
      | some d => (a.addFile found.uri (.definition d) found.text, some d)
      | none => ({ a with refused := name :: a.refused }, none)

/-- The macro that an operation code calls, loaded from the library if need be. -/
def macro? (a : Assembly) (opcode : String) : Assembly × Option MacroDefinition :=
  if opcode.isEmpty || opcode.toList.contains '&' then (a, none)
  else
    let a := a.meet [opcode]
    let name := a.context.operation opcode
    if name.isEmpty then (a, none)
    else match a.context.macros.find? name with
      | some d => (a, some d)
      | none => if (instructionKind? name).isSome then (a, none) else a.loadMacro name

end Assembly

end AssemblerIndex
