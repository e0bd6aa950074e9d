import AssemblerIndex.Index.Basic

/-!
# Outlines

The outline of open code shows the ordinary symbols and the declared variable symbols.  What a macro
call or a copy member defined lies beneath a node for each level of nesting, and relocatable symbols
lie beneath their section, if the section was started along the same way or an enclosing one.  The
outline of a macro file shows variable symbols and sequence symbols of its definitions, that of a copy
member the scoped symbols that occur in it.
-/

namespace AssemblerIndex

/-- What an item of an outline stands for. -/
inductive OutlineKind where
  | data | equate | machine | unknown | variable_ | sequence
  | section_ (kind : SectionKind)
  | macroCall | copyMember
  deriving DecidableEq, Repr, Inhabited

/-- An item of an outline. -/
structure OutlineItem where
  name : String
  kind : OutlineKind
  span : Span
  children : List OutlineItem := []
  deriving Inhabited

/-- The kind of an item for a symbol that names no section. -/
def OutlineKind.ofOrigin : SymbolOrigin → OutlineKind
  | .data => .data
  | .equate => .equate
  | .machine => .machine
  | .sectionName | .unknown => .unknown

/-! ### Nesting -/

/-- The kind of the item for a level of nesting. -/
def Frame.outlineKind (f : Frame) : OutlineKind :=
  if f.kind = .macroBody then .macroCall else .copyMember

/-- The name of the item for a level of nesting. -/
def Frame.outlineName (f : Frame) : String :=
  match f.member with
  | some m => m
  | none => if f.kind = .macroBody then "" else f.location.file

/-- Adds an item beneath the items for levels of nesting; those that are missing are created at the
place `at_`. -/
def addBeneath (at_ : Position) (leaf : OutlineItem) : List Frame → List OutlineItem → List OutlineItem
  | [], items => items ++ [leaf]
  | f :: fs, items =>
    match items.findIdx? fun i => i.kind == f.outlineKind && i.name == f.outlineName with
    | some k => items.modify k fun i => { i with children := addBeneath at_ leaf fs i.children }
    | none => items ++
      [{ name := f.outlineName
         kind := f.outlineKind
         span := .point at_
         children := addBeneath at_ leaf fs [] }]

namespace Symbol

/-- The place in open code that produced the symbol. -/
def callSite (s : Symbol) : Position := ((s.stack.head?).map (·.location.pos)).getD s.location.pos

/-- The place that stands for the symbol: its label, if it names a section or an equate of open code,
or else the place that produced it. -/
def outlineSpan (s : Symbol) : Span :=
  let o := s.attributes.origin
  if (o = .sectionName ∨ o = .equate) ∧ s.stack.length < 2 then .point s.location.pos
  else .point s.callSite

/-- The way to the symbol begins with the way to a section. -/
def nestsUnder (s sectionSymbol : Symbol) : Bool :=
  sectionSymbol.stack.length ≤ s.stack.length
    && (sectionSymbol.stack.zip s.stack).all fun e => e.1.sameMember e.2

end Symbol

/-! ### Open code -/

/-- A section and the symbol that names it. -/
structure NamedSection where
  index : Nat
  symbol : Symbol

/-- An outline that is being built: items at the top, and those beneath each section. -/
structure OutlineDraft where
  top : List OutlineItem := []
  beneath : List (Nat × List OutlineItem) := []

namespace OutlineDraft

/-- The items beneath a section. -/
def itemsOf (d : OutlineDraft) (index : Nat) : List OutlineItem := (d.beneath.lookup index).getD []

/-- Adds an item at the top. -/
def addTop (d : OutlineDraft) (at_ : Position) (frames : List Frame) (leaf : OutlineItem) :
    OutlineDraft :=
  { d with top := addBeneath at_ leaf frames d.top }

/-- Adds an item beneath a section. -/
def addTo (d : OutlineDraft) (index : Nat) (at_ : Position) (frames : List Frame)
    (leaf : OutlineItem) : OutlineDraft :=
  { d with beneath := (index, addBeneath at_ leaf frames (d.itemsOf index)) :: d.beneath }

/-- Adds a symbol that names no section. -/
def addSymbol (sections : List NamedSection) (d : OutlineDraft) (s : Symbol) : OutlineDraft :=
  let leaf : OutlineItem :=
    { name := s.name, kind := .ofOrigin s.attributes.origin, span := s.outlineSpan }
  match s.value with
  | .undefined => d
  | .absolute _ => d.addTop s.callSite s.stack.tail leaf
  | .relocatable i _ =>
    match (sections.find? (·.index == i)).filter (s.nestsUnder ·.symbol) with
    | some parent => d.addTo i s.callSite (s.stack.drop parent.symbol.stack.length) leaf
    | none => d.addTop s.callSite s.stack.tail leaf

/-- Adds a section with the items beneath it. -/
def addSection (t : SymbolTable) (d : OutlineDraft) (n : NamedSection) : OutlineDraft :=
  let kind := ((t.sections[n.index]?).map fun s => OutlineKind.section_ s.kind).getD .unknown
  d.addTop n.symbol.callSite n.symbol.stack.tail
    { name := n.symbol.name, kind, span := n.symbol.outlineSpan, children := d.itemsOf n.index }

/-- Adds a variable symbol that is declared in open code. -/
def addDeclaration (d : OutlineDraft) (v : Declaration) : OutlineDraft :=
  match v.stack with
  | f :: fs =>
    d.addTop f.location.pos fs { name := v.name, kind := .variable_, span := .point f.location.pos }
  | [] => d

end OutlineDraft

/-- The way begins in the file. -/
def beginsIn (file : String) (stack : ProcessingStack) : Bool :=
  stack.head?.any (·.location.file == file)

/-- The section that a symbol names. -/
def SymbolTable.namedSection? (t : SymbolTable) (s : Symbol) : Option NamedSection :=
  match s.attributes.origin, s.value with
  | .sectionName, .relocatable i offset =>
    if t.sectionNamed? s.name = some i ∧ offset = 0 then some ⟨i, s⟩ else none
  | _, _ => none

namespace Index

/-- The outline of open code in a file. -/
def openCodeOutline (x : Index) (file : String) : List OutlineItem :=
  let t := x.context.symbols
  let symbols := t.symbols.toList
  let sections := symbols.filterMap t.namedSection?
  let others := symbols.filter fun s =>
    beginsIn file s.stack && !sections.any (·.symbol.name == s.name)
  let d : OutlineDraft := others.foldl (OutlineDraft.addSymbol sections) {}
  let d := (sections.filter (beginsIn file ·.symbol.stack)).foldl (OutlineDraft.addSection t) d
  let d := (x.declarations.filter (beginsIn file ·.stack)).foldl OutlineDraft.addDeclaration d
  d.top

/-! ### Macros and copy members -/

/-- Adds an entry of a definition to the outline of a file.  An entry that came from a copy member
lies beneath an item for that member, at the `COPY` statement. -/
def addMacroEntry (file : String) (nests : Array (List NestItem)) (items : List OutlineItem)
    (entryFile : String) (bodyIndex : Option Nat) (leaf : OutlineItem) : List OutlineItem :=
  match bodyIndex.bind (nests[·]?) with
  | some (first :: second :: rest) =>
    let last := (rest.getLast?).getD second
    match last.member with
    | none => items
    | some name =>
      if first.location.file ≠ file then items
      else
        let span := Span.point first.location.pos
        let leaf := { leaf with span }
        match items.findIdx? fun i => i.kind == .copyMember && i.name == name && i.span == span with
        | some k => items.modify k fun i => { i with children := i.children ++ [leaf] }
        | none => items ++ [{ name, kind := .copyMember, span, children := [leaf] }]
  | _ => if entryFile = file then items ++ [leaf] else items

/-- Adds the variable symbols and sequence symbols of a definition to the outline of a file. -/
def addMacro (file : String) (items : List OutlineItem) (r : MacroRecord) : List OutlineItem :=
  let nests := r.definition.nests
  let items := r.declarations.foldl (fun items d =>
    addMacroEntry file nests items d.file d.bodyIndex
      { name := d.name, kind := .variable_, span := .point d.pos }) items
  let labels := r.definition.labels.values.mergeSort fun a b => a.offset ≤ b.offset
  labels.foldl (fun items l =>
    addMacroEntry file nests items l.location.file (some l.offset)
      { name := l.name, kind := .sequence, span := .point l.location.pos }) items

/-- The outline of the definitions in a file. -/
def macroOutline (x : Index) (file : String) : List OutlineItem :=
  (x.records.filter (·.definition.location.file == file)).foldl (addMacro file) []

/-- The item for a scoped symbol in a copy member. -/
def scopedItem? (o : Occurrence) : Option OutlineItem :=
  match o.kind with
  | .variable_ => some { name := o.name, kind := .variable_, span := o.span }
  | .sequence => some { name := o.name, kind := .sequence, span := o.span }
  | _ => none

/-- The outline of a copy member: each scoped symbol at its first occurrence. -/
def copyOutline (f : IndexedFile) : List OutlineItem :=
  (f.occurrences.filterMap scopedItem?).foldl (fun items i =>
    if items.any fun j => j.name == i.name && j.kind == i.kind then items else items ++ [i]) []

/-- The outline of a file. -/
def outline (x : Index) (file : String) : List OutlineItem :=
  match x.files.find? file with
  | none => []
  | some f => match f.content with
    | .openCode => x.openCodeOutline file
    | .definition _ => x.macroOutline file
    | .member _ => copyOutline f

end Index

end AssemblerIndex
