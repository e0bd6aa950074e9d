import AssemblerIndex.Proofs.Index.NamedSections
import Mathlib.Data.List.Forall2

/-!
# The outline of open code

The outline of open code shows every symbol that has a value and every declared variable symbol once, and nothing else
beside macro calls and copy members (`openCode_outline_shows_symbols`).

Symbols are put into a draft first, where those beneath a section are apart from those at the top; `entries` reads a
draft as the outline that it becomes.  Adding a symbol, a section or a declaration adds its entry.
-/

namespace AssemblerIndex

open scoped List

/-- The entry for a variable symbol that is declared in open code. -/
def Declaration.entry (v : Declaration) : OutlineEntry := ⟨v.name, .variable_, v.stack.tail.map Frame.passage, []⟩

namespace OutlineDraft

variable {t : SymbolTable} {d : OutlineDraft} {sections : List NamedSection} {at_ : Position} {frames : List Frame}
  {leaf : OutlineItem}

/-- The symbols in items that lie beneath a section. -/
def entriesBeneath (t : SymbolTable) (n : NamedSection) (items : List OutlineItem) : List OutlineEntry :=
  entriesIn (n.symbol.stack.tail.map Frame.passage) [(n.symbol.name, t.outlineKind n.symbol)] items

/-- The symbols in a draft, those beneath a section with its symbol above them. -/
def entries (t : SymbolTable) (d : OutlineDraft) : List OutlineEntry :=
  entriesIn [] [] d.top ++ t.namedSections.flatMap fun n => entriesBeneath t n (d.itemsOf n.index)

theorem entries_empty (t : SymbolTable) : entries t {} = [] := by
  simp [entries, entriesBeneath, itemsOf]

/-! ### Adding an item -/

/-- No two items beside each other stand for the same macro or copy member. -/
structure IsMerged (d : OutlineDraft) : Prop where
  top : Merged d.top
  beneath : ∀ i, Merged (d.itemsOf i)

theorem isMerged_empty : IsMerged {} := ⟨merged_nil, fun _ => merged_nil⟩

theorem itemsOf_addTo (d : OutlineDraft) (i k : Nat) (at_ : Position) (frames : List Frame) (leaf : OutlineItem) :
    (d.addTo i at_ frames leaf).itemsOf k =
      if k = i then addBeneath at_ leaf frames (d.itemsOf i) else d.itemsOf k := by
  unfold addTo itemsOf
  dsimp only
  rw [List.lookup_cons]
  by_cases hk : k = i
  · simp [hk]
  · rw [if_neg hk, beq_false_of_ne hk]

theorem IsMerged.addTop (h : d.IsMerged) (at_ : Position) (hleaf : leaf.passage? = none)
    (hchildren : Merged leaf.children) (named : ∀ f ∈ frames, f.IsNamed) :
    (d.addTop at_ frames leaf).IsMerged :=
  ⟨h.top.addBeneath at_ hleaf hchildren named, h.beneath⟩

theorem IsMerged.addTo (h : d.IsMerged) (i : Nat) (at_ : Position) (hleaf : leaf.passage? = none)
    (hchildren : Merged leaf.children) (named : ∀ f ∈ frames, f.IsNamed) :
    (d.addTo i at_ frames leaf).IsMerged := by
  refine ⟨h.top, fun k => ?_⟩
  rw [itemsOf_addTo]
  split
  · exact (h.beneath i).addBeneath at_ hleaf hchildren named
  · exact h.beneath k

/-- An item at the top adds its entries. -/
theorem entries_addTop (d : OutlineDraft) (at_ : Position) (leaf : OutlineItem)
    (named : ∀ f ∈ frames, f.IsNamed) :
    ((d.addTop at_ frames leaf).entries t).Perm (d.entries t ++ leaf.entries (frames.map Frame.passage) []) := by
  have h := entriesIn_addBeneath at_ leaf [] [] d.top named
  exact (h.append_right _).trans (perm_append_right_comm ..)

/-- An item beneath a section adds its entries, with the symbol of the section above them. -/
theorem entries_addTo (names : (t.symbols.toList.map (·.name)).Nodup) {n : NamedSection} (hn : n ∈ t.namedSections)
    (d : OutlineDraft) (at_ : Position) (leaf : OutlineItem)
    (named : ∀ f ∈ frames, f.IsNamed) :
    ((d.addTo n.index at_ frames leaf).entries t).Perm (d.entries t ++ leaf.entries
      (n.symbol.stack.tail.map Frame.passage ++ frames.map Frame.passage)
      [(n.symbol.name, t.outlineKind n.symbol)]) := by
  have hindex := SymbolTable.nodup_index_namedSections names
  unfold entries
  rw [List.append_assoc]
  refine .append_left _ ?_
  obtain ⟨l, r, hsplit⟩ := List.append_of_mem hn
  rw [hsplit, List.map_append, List.map_cons, List.nodup_middle, List.nodup_cons] at hindex
  -- the other sections keep their items, since they have other indices
  have kept {m : NamedSection} (hm : m ∈ l ++ r) :
      (d.addTo n.index at_ frames leaf).itemsOf m.index = d.itemsOf m.index := by
    rw [itemsOf_addTo, if_neg]
    intro heq
    refine hindex.1 ?_
    rw [← List.map_append]
    exact List.mem_map.2 ⟨m, hm, heq⟩
  have hl : (l.flatMap fun m => entriesBeneath t m ((d.addTo n.index at_ frames leaf).itemsOf m.index)) =
      l.flatMap fun m => entriesBeneath t m (d.itemsOf m.index) :=
    List.flatMap_congr fun m hm => by rw [kept (List.mem_append_left _ hm)]
  have hr : (r.flatMap fun m => entriesBeneath t m ((d.addTo n.index at_ frames leaf).itemsOf m.index)) =
      r.flatMap fun m => entriesBeneath t m (d.itemsOf m.index) :=
    List.flatMap_congr fun m hm => by rw [kept (List.mem_append_right _ hm)]
  rw [hsplit, List.flatMap_append, List.flatMap_append, List.flatMap_cons, List.flatMap_cons, hl, hr, itemsOf_addTo,
    if_pos rfl, List.append_assoc]
  refine .append_left _ ?_
  exact ((entriesIn_addBeneath at_ leaf _ _ (d.itemsOf n.index) named).append_right _).trans
    (perm_append_right_comm ..)

/-! ### Adding symbols -/

section Symbols

variable {file : String} {s : Symbol} {l : List Symbol}

theorem passage?_ofOrigin (o : SymbolOrigin) (name : String) : (OutlineKind.ofOrigin o).passage? name = none := by
  cases o <;> rfl

/-- The item of a symbol that names no section, wherever it lies. -/
theorem entries_leaf {way : List Passage} {above : List (String × OutlineKind)} (hs : t.namedSection? s = none)
    (span : Span) :
    OutlineItem.entries way above { name := s.name, kind := .ofOrigin s.attributes.origin, span } =
      [⟨s.name, t.outlineKind s, way, above⟩] := by
  have hleaf : (OutlineItem.mk s.name (.ofOrigin s.attributes.origin) span []).passage? = none := passage?_ofOrigin ..
  rw [OutlineItem.entries_of_none hleaf, entriesIn_nil]
  unfold SymbolTable.outlineKind
  rw [hs]

/-- A symbol that names no section adds its entry, unless it has no value. -/
theorem entries_addSymbol (names : (t.symbols.toList.map (·.name)).Nodup)
    (hstacks : ∀ r ∈ t.symbols, LeadsFrom file r.stack) (hmem : s ∈ t.symbols) (hs : t.namedSection? s = none)
    (d : OutlineDraft) :
    ((addSymbol t.namedSections d s).entries t).Perm
      (d.entries t ++ ([s].filter (·.value ≠ .undefined)).map t.entry) := by
  have hleads := hstacks s hmem
  have shown (h : s.value ≠ .undefined) : ([s].filter (·.value ≠ .undefined)).map t.entry = [t.entry s] := by
    rw [List.filter_cons_of_pos (by simpa using h), List.filter_nil, List.map_singleton]
  have top (h : s.value ≠ .undefined) (hshelter : t.shelter? s = none) :
      ((d.addTop s.callSite s.stack.tail { name := s.name, kind := .ofOrigin s.attributes.origin
                                           span := s.outlineSpan }).entries t).Perm
        (d.entries t ++ ([s].filter (·.value ≠ .undefined)).map t.entry) := by
    refine (entries_addTop d _ _ hleads.named_tail).trans ?_
    rw [shown h, entries_leaf hs]
    unfold SymbolTable.entry
    rw [hs, hshelter]
    exact .refl _
  unfold addSymbol
  dsimp only
  split
  · rename_i hvalue
    rw [List.filter_cons_of_neg (by simp [hvalue]), List.filter_nil, List.map_nil, List.append_nil]
  · rename_i n hvalue
    exact top (by simp [hvalue]) (by unfold SymbolTable.shelter?; rw [hvalue])
  · rename_i i offset hvalue
    have hshelter : t.shelter? s = (t.namedSections.find? (·.index == i)).filter (s.nestsUnder ·.symbol) := by
      unfold SymbolTable.shelter?
      rw [hvalue]
    rw [← hshelter]
    cases hparent : t.shelter? s with
    | none => exact top (by simp [hvalue]) hparent
    | some n =>
      obtain ⟨⟨_, hsame⟩, hn, hnests⟩ := (SymbolTable.shelter?_eq_some_iff names).1 hparent
      rw [hvalue, SymbolValue.relocatable.injEq] at hsame
      have hlength := (hstacks _ (SymbolTable.mem_namedSections.1 hn).1).pos_length
      dsimp only
      rw [hsame.1]
      refine (entries_addTo names hn d _ _ (hleads.named_drop hlength)).trans ?_
      rw [shown (by simp [hvalue]), entries_leaf hs, ← Symbol.way_of_nestsUnder hlength hnests]
      unfold SymbolTable.entry
      rw [hs, hparent]
      exact .refl _

theorem isMerged_addSymbol (hstacks : ∀ r ∈ t.symbols, LeadsFrom file r.stack) (hmem : s ∈ t.symbols)
    (h : d.IsMerged) : (addSymbol t.namedSections d s).IsMerged := by
  have hleads := hstacks s hmem
  unfold addSymbol
  dsimp only
  split
  · exact h
  · exact h.addTop _ (passage?_ofOrigin ..) merged_nil hleads.named_tail
  · split
    · rename_i n hn
      have hmem := List.mem_of_find?_eq_some (Option.filter_eq_some_iff.1 hn).1
      have hlength := (hstacks _ (SymbolTable.mem_namedSections.1 hmem).1).pos_length
      exact h.addTo _ _ (passage?_ofOrigin ..) merged_nil (hleads.named_drop hlength)
    · exact h.addTop _ (passage?_ofOrigin ..) merged_nil hleads.named_tail

/-- Symbols that name no section add their entries. -/
theorem addSymbols (names : (t.symbols.toList.map (·.name)).Nodup)
    (hstacks : ∀ r ∈ t.symbols, LeadsFrom file r.stack) (hl : ∀ s ∈ l, s ∈ t.symbols ∧ t.namedSection? s = none)
    (h : d.IsMerged) :
    (l.foldl (addSymbol t.namedSections) d).IsMerged ∧
      ((l.foldl (addSymbol t.namedSections) d).entries t).Perm
        (d.entries t ++ (l.filter (·.value ≠ .undefined)).map t.entry) := by
  induction l generalizing d with
  | nil => exact ⟨h, by simp⟩
  | cons s rest ih =>
    obtain ⟨⟨hmem, hs⟩, hrest⟩ := List.forall_mem_cons.1 hl
    obtain ⟨hmerged, hperm⟩ := ih hrest (isMerged_addSymbol hstacks hmem h)
    refine ⟨hmerged, hperm.trans (((entries_addSymbol names hstacks hmem hs d).append_right _).trans ?_)⟩
    rw [List.append_assoc, ← List.map_append, ← List.filter_append, List.singleton_append]

end Symbols

/-! ### Adding sections and declarations -/

section Top

variable {file : String}

/-- The item of a section, with what lies beneath it. -/
theorem entries_section {n : NamedSection} (hn : n ∈ t.namedSections) {kind : OutlineKind}
    (hkind : ((t.sections[n.index]?).map fun r => OutlineKind.section_ r.kind).getD .unknown = kind) (span : Span)
    (children : List OutlineItem) :
    (OutlineItem.mk n.symbol.name kind span children).passage? = none ∧
      OutlineItem.entries (n.symbol.stack.tail.map Frame.passage) [] ⟨n.symbol.name, kind, span, children⟩ =
        t.entry n.symbol :: entriesBeneath t n children := by
  have hnamed : t.namedSection? n.symbol = some n :=
    SymbolTable.namedSection?_eq_some_iff.2 ⟨rfl, (SymbolTable.mem_namedSections.1 hn).2⟩
  have hsame : t.outlineKind n.symbol = kind := by
    unfold SymbolTable.outlineKind
    rw [hnamed]
    exact hkind
  have hleaf : (OutlineItem.mk n.symbol.name kind span children).passage? = none := by
    rw [← hsame]
    exact t.passage?_outlineKind ..
  refine ⟨hleaf, ?_⟩
  rw [OutlineItem.entries_of_none hleaf]
  unfold entriesBeneath SymbolTable.entry
  rw [hnamed, hsame]
  rfl

/-- Sections add the entries of their symbols, and those beneath them. -/
theorem addSections (hstacks : ∀ r ∈ t.symbols, LeadsFrom file r.stack) {l : List NamedSection}
    (hl : ∀ n ∈ l, n ∈ t.namedSections) (h : d.IsMerged) :
    (l.foldl (addSection t) d).IsMerged ∧
      (entriesIn [] [] (l.foldl (addSection t) d).top).Perm (entriesIn [] [] d.top ++
        l.flatMap fun n => t.entry n.symbol :: entriesBeneath t n (d.itemsOf n.index)) := by
  induction l generalizing d with
  | nil => exact ⟨h, by simp⟩
  | cons n rest ih =>
    obtain ⟨hn, hrest⟩ := List.forall_mem_cons.1 hl
    have hleads := (hstacks _ (SymbolTable.mem_namedSections.1 hn).1).named_tail
    obtain ⟨hleaf, hentries⟩ := entries_section hn rfl n.symbol.outlineSpan (d.itemsOf n.index)
    obtain ⟨hmerged, hperm⟩ := ih hrest (h.addTop n.symbol.callSite hleaf (h.beneath n.index) hleads)
    refine ⟨hmerged, hperm.trans ?_⟩
    refine ((entriesIn_addBeneath n.symbol.callSite _ [] [] d.top hleads).append_right _).trans ?_
    rw [List.nil_append, hentries, List.append_assoc, List.flatMap_cons]
    exact .refl _

/-- Declarations add their entries. -/
theorem addDeclarations {l : List Declaration} (hl : ∀ v ∈ l, LeadsFrom file v.stack) (h : d.IsMerged) :
    (l.foldl addDeclaration d).IsMerged ∧
      (entriesIn [] [] (l.foldl addDeclaration d).top).Perm (entriesIn [] [] d.top ++ l.map Declaration.entry) := by
  induction l generalizing d with
  | nil => exact ⟨h, by simp⟩
  | cons v rest ih =>
    obtain ⟨hv, hrest⟩ := List.forall_mem_cons.1 hl
    have hnamed := hv.named_tail
    obtain ⟨name, kind, f, pos, bodyIndex, stack⟩ := v
    cases stack with
    | nil => nomatch hv
    | cons g fs =>
      have hleaf : (OutlineItem.mk name .variable_ (.point g.location.pos) []).passage? = none := rfl
      obtain ⟨hmerged, hperm⟩ := ih hrest (h.addTop g.location.pos hleaf merged_nil hnamed)
      refine ⟨hmerged, hperm.trans ?_⟩
      refine ((entriesIn_addBeneath g.location.pos _ [] [] d.top hnamed).append_right _).trans ?_
      rw [OutlineItem.entries_of_none hleaf, entriesIn_nil, List.append_assoc, List.singleton_append, List.map_cons]
      exact .refl _

end Top

end OutlineDraft

/-! ### The outline -/

/-- The symbols that have a value. -/
def SymbolTable.valued (t : SymbolTable) : List Symbol := t.symbols.toList.filter (·.value ≠ .undefined)

/-- Of the symbols that have a value some name sections, and the others do not. -/
theorem SymbolTable.valued_perm (t : SymbolTable) :
    (((t.symbols.toList.filter fun s => !(t.namedSection? s).isSome).filter (·.value ≠ .undefined)) ++
      t.namedSections.map (·.symbol)).Perm t.valued := by
  have hvalued : t.valued.filter (fun s => (t.namedSection? s).isSome) = t.namedSections.map (·.symbol) := by
    rw [map_symbol_namedSections, valued, List.filter_filter]
    refine List.filter_congr fun s _ => ?_
    cases hs : t.namedSection? s with
    | none => rfl
    | some n =>
      obtain ⟨-, hnames⟩ := namedSection?_eq_some_iff.1 hs
      simp [hnames.value]
  rw [← hvalued, List.filter_comm]
  exact List.perm_append_comm.trans (List.filter_append_perm (fun s => (t.namedSection? s).isSome) t.valued)

/-- The outline of open code is built from the sections that have a symbol, and from all other symbols. -/
theorem openCodeOutline_eq {x : Index} {file : String} {t : SymbolTable} (ht : x.context.symbols = t)
    (names : (t.symbols.toList.map (·.name)).Nodup) (hstacks : ∀ s ∈ t.symbols, LeadsFrom file s.stack)
    (hdeclarations : ∀ v ∈ x.declarations, LeadsFrom file v.stack) :
    x.openCodeOutline file = (x.declarations.foldl OutlineDraft.addDeclaration
      (t.namedSections.foldl (OutlineDraft.addSection t)
        ((t.symbols.toList.filter fun s => !(t.namedSection? s).isSome).foldl
          (OutlineDraft.addSymbol t.namedSections) {}))).top := by
  have hothers : (t.symbols.toList.filter fun s => beginsIn file s.stack && !t.namedSections.any
      (·.symbol.name == s.name)) = t.symbols.toList.filter fun s => !(t.namedSection? s).isSome := by
    refine List.filter_congr fun s hs => ?_
    have hs := Array.mem_toList_iff.1 hs
    rw [(hstacks s hs).beginsIn, t.any_namedSections names hs, Bool.true_and]
  have hsections : t.namedSections.filter (beginsIn file ·.symbol.stack) = t.namedSections :=
    List.filter_eq_self.2 fun n hn => (hstacks _ (SymbolTable.mem_namedSections.1 hn).1).beginsIn
  have hdeclared : x.declarations.filter (beginsIn file ·.stack) = x.declarations :=
    List.filter_eq_self.2 fun v hv => (hdeclarations v hv).beginsIn
  unfold Index.openCodeOutline
  rw [ht]
  change ((x.declarations.filter (beginsIn file ·.stack)).foldl OutlineDraft.addDeclaration
    ((t.namedSections.filter (beginsIn file ·.symbol.stack)).foldl (OutlineDraft.addSection t)
      ((t.symbols.toList.filter fun s => beginsIn file s.stack && !t.namedSections.any
        (·.symbol.name == s.name)).foldl (OutlineDraft.addSymbol t.namedSections) {}))).top = _
  rw [hothers, hsections, hdeclared]

/-- If the ways lead from the file, its outline holds the entries of symbols and declarations, and no others. -/
theorem entriesIn_openCodeOutline {x : Index} {file : String} {t : SymbolTable} (ht : x.context.symbols = t)
    (names : (t.symbols.toList.map (·.name)).Nodup) (hstacks : ∀ s ∈ t.symbols, LeadsFrom file s.stack)
    (hdeclarations : ∀ v ∈ x.declarations, LeadsFrom file v.stack) :
    Merged (x.openCodeOutline file) ∧ (entriesIn [] [] (x.openCodeOutline file)).Perm
      (t.valued.map t.entry ++ x.declarations.map Declaration.entry) := by
  rw [openCodeOutline_eq ht names hstacks hdeclarations]
  obtain ⟨hmerged, hsymbols⟩ := OutlineDraft.addSymbols names hstacks
    (l := t.symbols.toList.filter fun s => !(t.namedSection? s).isSome)
    (fun s hs => ⟨Array.mem_toList_iff.1 (List.mem_filter.1 hs).1, by simpa using (List.mem_filter.1 hs).2⟩)
    OutlineDraft.isMerged_empty
  generalize (t.symbols.toList.filter fun s => !(t.namedSection? s).isSome).foldl
    (OutlineDraft.addSymbol t.namedSections) {} = d at hmerged hsymbols ⊢
  obtain ⟨hmerged, hsections⟩ := OutlineDraft.addSections hstacks (fun n hn => hn) hmerged
  obtain ⟨hmerged, hall⟩ := OutlineDraft.addDeclarations hdeclarations hmerged
  refine ⟨hmerged.top, hall.trans (.append_right _ (hsections.trans ?_))⟩
  have hnamed := List.map_append_flatMap_perm t.namedSections (fun n => t.entry n.symbol)
    fun n => OutlineDraft.entriesBeneath t n (d.itemsOf n.index)
  calc entriesIn [] [] d.top ++ t.namedSections.flatMap _
    _ ~ entriesIn [] [] d.top ++ (t.namedSections.map (fun n => t.entry n.symbol) ++ t.namedSections.flatMap fun n =>
          OutlineDraft.entriesBeneath t n (d.itemsOf n.index)) := hnamed.symm.append_left _
    _ ~ d.entries t ++ t.namedSections.map (fun n => t.entry n.symbol) := by
        rw [← List.append_assoc]
        exact perm_append_right_comm ..
    _ ~ ((t.symbols.toList.filter fun s => !(t.namedSection? s).isSome).filter (·.value ≠ .undefined)).map t.entry ++
          t.namedSections.map (fun n => t.entry n.symbol) := by
        rw [OutlineDraft.entries_empty, List.nil_append] at hsymbols
        exact hsymbols.append_right _
    _ ~ t.valued.map t.entry := by
        have h := t.valued_perm.map t.entry
        rwa [List.map_append, List.map_map] at h

/-! ### Analyzed sources -/

theorem Table.lookup_map {α β : Type} (f : String × α → β) (name : String) (l : List (String × α)) :
    lookup name (l.map fun e => (e.1, f e)) = (lookup name l).map fun a => f (name, a) := by
  induction l with
  | nil => rfl
  | cons e rest ih =>
    rw [List.map_cons, lookup, lookup, ih]
    by_cases he : e.1 = name
    · subst he
      rw [if_pos rfl, if_pos rfl]
      rfl
    · rw [if_neg he, if_neg he]

/-- The file of open code has the outline of open code. -/
theorem Assembly.Placed.outline_index {file : String} {a : Assembly} (h : Placed file a) :
    a.index.outline file = a.index.openCodeOutline file := by
  obtain ⟨text, htext⟩ := h.openCode
  unfold Index.outline
  have hfind : ∃ f : IndexedFile, a.index.files.find? file = some f ∧ f.content = .openCode := by
    unfold Assembly.index Table.find?
    dsimp only
    rw [Table.lookup_map, show Table.lookup file a.files.entries = _ from htext]
    exact ⟨_, rfl, rfl⟩
  obtain ⟨f, hf, hcontent⟩ := hfind
  rw [hf]
  dsimp only
  rw [hcontent]

theorem Assembly.exists_of_analyze {file text : String} {library : Library} {settings : Settings} {now : Moment}
    {x : Index} (h : Index.analyze (.start file settings now) text library settings = .ok x) :
    ∃ a, (fresh file text library settings now).Reaches a ∧ x = a.index := by
  unfold Index.analyze at h
  cases hfinish : (Assembly.start (.start file settings now) text library settings).finish with
  | error e => simp [hfinish, Except.map] at h
  | ok a =>
    rw [hfinish] at h
    exact ⟨a, ⟨stepLimit, hfinish⟩, (Except.ok.inj h).symm⟩

/-- An analysis comes to the index of an assembly that is finished within a number of steps. -/
theorem Assembly.exists_analyze {file text : String} {library : Library} {settings : Settings} {now : Moment}
    {p : Assembly → Bool} {n : Nat} (hn : n ≤ stepLimit)
    (h : ((fresh file text library settings now).run n).toOption.any fun a => a.isFinished && p a) :
    ∃ a, Index.analyze (.start file settings now) text library settings = .ok a.index ∧ p a := by
  obtain ⟨a, ha, hp⟩ := exists_of_any h
  rw [Bool.and_eq_true] at hp
  have hfinish : (fresh file text library settings now).run stepLimit = .ok a := by
    rw [← Nat.add_sub_of_le hn, run_add, ha]
    exact run_of_isFinished hp.1 _
  exact ⟨a, congrArg (Except.map index) hfinish, hp.2⟩

/-- **The outline of open code shows every symbol once, under its own way.**  Whatever is analyzed from a fresh state,
the items that stand for no macro call and no copy member are one for each symbol that has a value and one for each
variable symbol that is declared in open code.  Above it stand the macros and copy members of its processing stack
behind open code, in their order, and the symbol of its section if that one has a symbol whose way its own way begins
with, unless it is that symbol itself.  No two items beside each other stand for the same macro or copy member. -/
theorem openCode_outline_shows_symbols {file text : String} {library : Library} {settings : Settings} {now : Moment}
    {x : Index} (analyzed : Index.analyze (.start file settings now) text library settings = .ok x) :
    Merged (x.outline file) ∧ ∃ shown, List.Forall₂ (Symbol.Shown x.context.symbols) x.context.symbols.valued shown ∧
      entriesIn [] [] (x.outline file) ~ shown ++ x.declarations.map Declaration.entry := by
  obtain ⟨a, ha, rfl⟩ := Assembly.exists_of_analyze analyzed
  have hplaced := ha.placed
  obtain ⟨hmerged, hperm⟩ := entriesIn_openCodeOutline (x := a.index) rfl hplaced.names hplaced.symbols
    hplaced.declarations
  rw [hplaced.outline_index]
  refine ⟨hmerged, _, ?_, hperm⟩
  rw [List.forall₂_map_right_iff]
  exact List.forall₂_same.2 fun s _ => SymbolTable.shown_entry hplaced.names s

/-- A macro opens a section.  What open code defines in that section behind the call does not lie beneath it. -/
def openingText : String :=
  " MACRO\n OPENS\nINNER CSECT\nF DC F'1'\n MEND\n OPENS\nA DS F\nS CSECT\nB DS F\n&V SETA 1\n"

theorem openCode_outline_of_opening_macro :
    ∃ x, Index.analyze (.start "S" {} default) openingText .empty {} = .ok x ∧
      entriesIn [] [] (x.outline "S") =
        [⟨"A", .data, [], []⟩,
          ⟨"INNER", .section_ .executable, [(.macroBody, some "OPENS")], []⟩,
          ⟨"F", .data, [(.macroBody, some "OPENS")], [("INNER", .section_ .executable)]⟩,
          ⟨"S", .section_ .executable, [], []⟩,
          ⟨"B", .data, [], [("S", .section_ .executable)]⟩,
          ⟨"V", .variable_, [], []⟩] ∧
      Merged (x.outline "S") ∧ ∃ shown,
        List.Forall₂ (Symbol.Shown x.context.symbols) x.context.symbols.valued shown ∧
        entriesIn [] [] (x.outline "S") ~ shown ++ x.declarations.map Declaration.entry := by
  have hrun : ((Assembly.fresh "S" openingText .empty {} default).run 12).toOption.any fun a =>
      a.isFinished && decide (entriesIn [] [] (a.index.outline "S") =
        [⟨"A", .data, [], []⟩,
          ⟨"INNER", .section_ .executable, [(.macroBody, some "OPENS")], []⟩,
          ⟨"F", .data, [(.macroBody, some "OPENS")], [("INNER", .section_ .executable)]⟩,
          ⟨"S", .section_ .executable, [], []⟩,
          ⟨"B", .data, [], [("S", .section_ .executable)]⟩,
          ⟨"V", .variable_, [], []⟩]) := by
    decide +kernel
  obtain ⟨a, analyzed, hentries⟩ := Assembly.exists_analyze (by decide) hrun
  exact ⟨a.index, analyzed, of_decide_eq_true hentries, openCode_outline_shows_symbols analyzed⟩

end AssemblerIndex
