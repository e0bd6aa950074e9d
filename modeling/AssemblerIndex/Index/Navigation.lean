import AssemblerIndex.Index.Basic

/-!
# Definitions and references

Where the symbol at a place is defined, and where else it occurs.  Variable symbols and sequence
symbols are looked for within the macro definition that the place belongs to, or within open code; all
other symbols everywhere.
-/

namespace AssemblerIndex.Index

/-- The copy member of a name. -/
def copyMember? (x : Index) (name : String) : Option CopyMember :=
  x.files.values.findSome? fun f => match f.content with
    | .member m => if m.name = name then some m else none
    | _ => none

/-- The place where the symbol at a spot is defined. -/
def definitionOf? (x : Index) (s : Spot) : Option Location :=
  let name := s.occurrence.name
  match s.occurrence.kind with
  | .ordinary => (x.context.symbols.find? name).map (·.location)
  | .sequence =>
    let labels := match s.record with
      | some r => r.definition.labels
      | none => x.context.scope.sequenceSymbols
    (labels.find? name).map (·.location)
  | .variable_ => (x.declaration? s).map fun d => ⟨d.file, d.pos⟩
  | .instruction => s.occurrence.callee.map (·.location)
  | .copyMember => (x.copyMember? name).map (·.location)

/-- The definition of the symbol at a place, or the place itself if there is none. -/
def definition (x : Index) (file : String) (p : Position) : Location :=
  ((x.spot? file p).bind x.definitionOf?).getD ⟨file, p⟩

/-- The occurrences among which those of the symbol at a spot are. -/
def occurrencesFor (x : Index) (s : Spot) : FileOccurrences :=
  if s.occurrence.isScoped then
    match s.record with
    | some r => r.occurrences
    | none => x.occurrences
  else x.records.flatMap (·.occurrences) ++ x.occurrences

/-- The places of the symbol at a spot, in order and each once. -/
def referencesOf (x : Index) (s : Spot) : List FileSpan :=
  let similar := (x.occurrencesFor s).filter (·.2.isSimilar s.occurrence)
  ((similar.map fun e => (⟨e.1, e.2.span⟩ : FileSpan)).mergeSort FileSpan.le).eraseReps

/-- The places of the symbol at a place. -/
def references (x : Index) (file : String) (p : Position) : List FileSpan :=
  ((x.spot? file p).map x.referencesOf).getD []

end AssemblerIndex.Index
