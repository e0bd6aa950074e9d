import AssemblerIndex.Assembly.Step

/-!
# The index of an assembly

The index is built from a finished assembly: every file with the occurrences in it, each once, and
with the lines that belong to macro definitions.  A call that was seen before its macro was defined is
resolved by the final table of macros.
-/

namespace AssemblerIndex

/-- Lines of a file that belong to a macro definition. -/
structure Slice where
  lines : LineRange
  record : MacroRecord
  deriving Inhabited

/-- A file and what is found in it. -/
structure IndexedFile where
  content : FileContent
  text : SourceText
  occurrences : List Occurrence
  slices : List Slice
  deriving Inhabited

/-- What questions about a source are answered from. -/
structure Index where
  context : Context
  settings : Settings
  files : Table IndexedFile
  /-- the records of macro definitions in order of their files and lines -/
  records : List MacroRecord
  /-- the occurrences in open code and its copy members -/
  occurrences : FileOccurrences
  /-- the declarations in open code and its copy members -/
  declarations : List Declaration
  deriving Inhabited

/-! ### Building the index -/

/-- An instruction without a macro calls the one that is defined in the end. -/
def Occurrence.resolved (x : Context) (o : Occurrence) : Occurrence :=
  if o.kind = .instruction ∧ o.callee.isNone then
    { o with callee := x.macros.find? (x.operation o.name) }
  else o

/-- Adds an occurrence in front of others, unless one like it is at the same place. -/
def addOccurrence (os : List Occurrence) (o : Occurrence) : List Occurrence :=
  if os.any fun p => p.span == o.span && p.isSimilar o then os else o :: os

/-- The occurrences in one file, each once, in the order in which they were found. -/
def occurrencesIn (file : String) (os : FileOccurrences) : List Occurrence :=
  ((os.filter (·.1 == file)).foldl (fun found e => addOccurrence found e.2) []).reverse

/-- Order of records by file and line. -/
def MacroRecord.le (a b : MacroRecord) : Bool :=
  if a.definition.location.file = b.definition.location.file then
    a.definition.location.pos.line ≤ b.definition.location.pos.line
  else a.definition.location.file < b.definition.location.file

/-- The slices of a file that records consist of. -/
def slicesIn (file : String) (records : List MacroRecord) : List Slice :=
  records.flatMap fun r => ((r.scopes.find? file).getD []).map (⟨·, r⟩)

/-- The index of an assembly. -/
def Assembly.index (a : Assembly) : Index :=
  let resolve (os : FileOccurrences) : FileOccurrences :=
    os.map fun e => (e.1, e.2.resolved a.context)
  let records := (a.records.reverse.map fun r => { r with occurrences := resolve r.occurrences })
    |>.mergeSort MacroRecord.le
  let occurrences := resolve a.occurrences.reverse
  let all := records.flatMap (·.occurrences) ++ occurrences
  { context := a.context
    settings := a.settings
    files := ⟨a.files.entries.map fun e => (e.1,
      { content := e.2.content
        text := e.2.text
        occurrences := occurrencesIn e.1 all
        slices := slicesIn e.1 records })⟩
    records
    occurrences
    declarations := a.declarations }

namespace Index

/-- The index of a source that starts in a given state. -/
def analyze (x : Context) (text : String) (library : Library) (settings : Settings) :
    Except AssemblyFault Index :=
  (Assembly.start x text library settings).finish.map (·.index)

end Index

/-! ### Places in a file -/

namespace IndexedFile

/-- The first occurrence that touches a place. -/
def occurrenceAt? (f : IndexedFile) (p : Position) : Option Occurrence :=
  f.occurrences.find? (·.span.touches p)

/-- The smaller one of two slices, the first one if they have the same size. -/
def smaller (best : Option Slice) (s : Slice) : Option Slice :=
  match best with
  | some b => if s.lines.size < b.lines.size then some s else some b
  | none => some s

/-- The innermost macro definition that a line belongs to. -/
def recordAt? (f : IndexedFile) (line : Nat) : Option MacroRecord :=
  ((f.slices.filter (·.lines.contains line)).foldl smaller none).map (·.record)

end IndexedFile

/-- An occurrence at a place and the macro definition that the place belongs to. -/
structure Spot where
  occurrence : Occurrence
  record : Option MacroRecord

namespace Index

/-- What is at a place of a file. -/
def spot? (x : Index) (file : String) (p : Position) : Option Spot :=
  (x.files.find? file).bind fun f => (f.occurrenceAt? p).map (⟨·, f.recordAt? p.line⟩)

/-- The declarations in a macro definition, or else in open code. -/
def declarationsIn (x : Index) : Option MacroRecord → List Declaration
  | some r => r.declarations
  | none => x.declarations

/-- The declaration of the variable symbol at a spot. -/
def declaration? (x : Index) (s : Spot) : Option Declaration :=
  (x.declarationsIn s.record).find? (·.name == s.occurrence.name)

end Index

end AssemblerIndex
