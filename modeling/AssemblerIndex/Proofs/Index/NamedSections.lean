import AssemblerIndex.Proofs.Index.OutlineEntries
import Mathlib.Data.List.Nodup

/-!
# Sections in the outline of open code

A section may have a symbol of its own, and symbols that lie in it are shown beneath that one if the section was started
along the way to them.

* `SymbolTable.Names`, `SymbolTable.Shelters` — a symbol names a section; it does so for the section of another symbol,
  and the way to that one begins with its own;
* `Symbol.Shown` — an entry of the outline shows a symbol;
* `SymbolTable.entry` — the entry for a symbol, read off the sections as the outline is built from them.  It shows the
  symbol if all symbols have different names (`SymbolTable.shown_entry`).
-/

namespace AssemblerIndex

/-! ### What an outline shows -/

namespace SymbolTable

/-- The symbol names the section with the given index: it was defined at the start of the section, and its name leads to
that section. -/
structure Names (t : SymbolTable) (o : Symbol) (i : Nat) : Prop where
  origin : o.attributes.origin = .sectionName
  value : o.value = .relocatable i 0
  first : t.sectionNamed? o.name = some i

/-- The symbol `o` names the section that `s` lies in, `s` does not, and the way to `s` begins with that to `o`. -/
structure Shelters (t : SymbolTable) (o s : Symbol) : Prop where
  defined : o ∈ t.symbols
  lies : ∃ i offset, t.Names o i ∧ s.value = .relocatable i offset ∧ ¬ t.Names s i
  leads : ∀ (k : Nat) (f : Frame), o.stack[k]? = some f → ∃ g, s.stack[k]? = some g ∧ f.sameMember g

/-- The kind of the item for a symbol. -/
def outlineKind (t : SymbolTable) (s : Symbol) : OutlineKind :=
  match t.namedSection? s with
  | some n => ((t.sections[n.index]?).map fun r => .section_ r.kind).getD .unknown
  | none => .ofOrigin s.attributes.origin

end SymbolTable

/-- The entry shows the symbol: on the way to it are the macros and copy members of its processing stack behind open
code, and above it is the symbol of its section, if there is one that it lies beneath. -/
structure Symbol.Shown (t : SymbolTable) (s : Symbol) (e : OutlineEntry) : Prop where
  name : e.name = s.name
  kind : e.kind = t.outlineKind s
  way : e.way = s.stack.tail.map Frame.passage
  beneath : ∀ o, t.Shelters o s → e.above = [(o.name, t.outlineKind o)]
  apart : (∀ o, ¬ t.Shelters o s) → e.above = []

/-! ### Ways -/

section Ways

variable {file : String} {stack : ProcessingStack} {o s : Symbol}

theorem LeadsFrom.pos_length (h : LeadsFrom file stack) : 0 < stack.length := by
  cases h
  exact Nat.succ_pos _

theorem LeadsFrom.beginsIn (h : LeadsFrom file stack) : beginsIn file stack := by
  cases h
  simp [AssemblerIndex.beginsIn]

theorem LeadsFrom.named_tail (h : LeadsFrom file stack) : ∀ f ∈ stack.tail, f.IsNamed := by
  cases h with
  | intro pos named => exact named

theorem LeadsFrom.named_drop (h : LeadsFrom file stack) {k : Nat} (hk : 0 < k) :
    ∀ f ∈ stack.drop k, f.IsNamed := by
  intro f hf
  obtain ⟨k, rfl⟩ := Nat.exists_eq_succ_of_ne_zero hk.ne'
  rw [Nat.succ_eq_add_one, ← List.drop_tail] at hf
  exact h.named_tail f (List.mem_of_mem_drop hf)

/-- Frames that stand in the same member are the same passage. -/
theorem Frame.passage_eq_of_sameMember {f g : Frame} (h : f.sameMember g) : f.passage = g.passage := by
  obtain ⟨kind, member, l⟩ := f
  obtain ⟨kind', member', l'⟩ := g
  unfold sameMember at h
  obtain ⟨hkind, hmember⟩ := Bool.and_eq_true_iff.1 h
  obtain rfl : kind = kind' := by simpa using hkind
  dsimp only at hmember
  split at hmember
  · rename_i m m'
    obtain rfl : m = m' := by simpa using hmember
    rfl
  · rfl
  · cases hmember

theorem Symbol.nestsUnder_iff :
    s.nestsUnder o ↔ ∀ (k : Nat) (f : Frame), o.stack[k]? = some f → ∃ g, s.stack[k]? = some g ∧ f.sameMember g := by
  unfold nestsUnder
  rw [Bool.and_eq_true, decide_eq_true_iff, List.all_eq_true]
  constructor
  · rintro ⟨hle, hall⟩ k f hf
    obtain ⟨hk, rfl⟩ := List.getElem?_eq_some_iff.1 hf
    have hk' : k < s.stack.length := by omega
    refine ⟨s.stack[k], List.getElem?_eq_getElem hk', hall (_, _) ?_⟩
    exact List.mem_of_getElem? (List.getElem?_zip_eq_some.2 ⟨hf, List.getElem?_eq_getElem hk'⟩)
  · intro h
    constructor
    · by_contra hlt
      obtain ⟨g, hg, -⟩ := h s.stack.length _ (List.getElem?_eq_getElem (by omega))
      simp at hg
    · rintro ⟨f, g⟩ he
      obtain ⟨k, hk⟩ := List.mem_iff_getElem?.1 he
      obtain ⟨hf, hg⟩ := List.getElem?_zip_eq_some.1 hk
      obtain ⟨g', hg', hsame⟩ := h k f hf
      obtain rfl := Option.some.inj (hg.symm.trans hg')
      exact hsame

/-- The way of a symbol that lies beneath a section is that of the section and the rest. -/
theorem Symbol.way_of_nestsUnder (ho : 0 < o.stack.length) (h : s.nestsUnder o) :
    s.stack.tail.map Frame.passage =
      o.stack.tail.map Frame.passage ++ (s.stack.drop o.stack.length).map Frame.passage := by
  have hbegin : o.stack.map Frame.passage = (s.stack.take o.stack.length).map Frame.passage := by
    refine List.ext_getElem? fun k => ?_
    rw [List.getElem?_map, List.getElem?_map, List.getElem?_take]
    cases hf : o.stack[k]? with
    | none =>
      rw [if_neg (by simpa using hf)]
    | some f =>
      obtain ⟨hk, -⟩ := List.getElem?_eq_some_iff.1 hf
      obtain ⟨g, hg, hsame⟩ := nestsUnder_iff.1 h k f hf
      rw [if_pos hk, hg, Option.map_some, Option.map_some, Frame.passage_eq_of_sameMember hsame]
  have hne : o.stack.map Frame.passage ≠ [] := by
    intro hnil
    rw [List.map_eq_nil_iff.1 hnil] at ho
    exact absurd ho (Nat.lt_irrefl 0)
  rw [List.map_tail, List.map_tail, ← List.tail_append_of_ne_nil hne, hbegin, ← List.map_append,
    List.take_append_drop]

end Ways

/-! ### Sections that have a symbol -/

namespace SymbolTable

variable {t : SymbolTable} {o s : Symbol} {n : NamedSection}

/-- The sections that have a symbol. -/
def namedSections (t : SymbolTable) : List NamedSection := t.symbols.toList.filterMap t.namedSection?

theorem namedSection?_eq_some_iff : t.namedSection? s = some n ↔ n.symbol = s ∧ t.Names s n.index := by
  unfold namedSection?
  constructor
  · intro h
    split at h
    · rename_i i offset horigin hvalue
      split at h
      · rename_i hfirst
        obtain rfl := Option.some.inj h
        exact ⟨rfl, horigin, by rw [hvalue, hfirst.2], hfirst.1⟩
      · cases h
    · cases h
  · rintro ⟨rfl, horigin, hvalue, hfirst⟩
    rw [horigin, hvalue]
    exact if_pos ⟨hfirst, rfl⟩

theorem names_iff {i : Nat} : t.Names s i ↔ t.namedSection? s = some ⟨i, s⟩ := by
  rw [namedSection?_eq_some_iff]
  exact (and_iff_right rfl).symm

theorem mem_namedSections : n ∈ t.namedSections ↔ n.symbol ∈ t.symbols ∧ t.Names n.symbol n.index := by
  unfold namedSections
  rw [List.mem_filterMap]
  constructor
  · rintro ⟨s, hs, hn⟩
    obtain ⟨rfl, hnames⟩ := namedSection?_eq_some_iff.1 hn
    exact ⟨Array.mem_toList_iff.1 hs, hnames⟩
  · rintro ⟨hs, hnames⟩
    exact ⟨n.symbol, Array.mem_toList_iff.2 hs, names_iff.1 hnames⟩

theorem map_symbol_namedSections :
    t.namedSections.map (·.symbol) = t.symbols.toList.filter fun s => (t.namedSection? s).isSome := by
  unfold namedSections
  induction t.symbols.toList with
  | nil => rfl
  | cons s rest ih =>
    cases hs : t.namedSection? s with
    | none => rw [List.filterMap_cons_none hs, List.filter_cons_of_neg (by simp [hs]), ih]
    | some n =>
      rw [List.filterMap_cons_some hs, List.filter_cons_of_pos (by simp [hs]), List.map_cons, ih,
        (namedSection?_eq_some_iff.1 hs).1]

/-- Symbols that name the same section have the same name. -/
theorem Names.name_eq {i : Nat} (h : t.Names o i) (h' : t.Names s i) : o.name = s.name := by
  have hname {r : Symbol} (hr : t.Names r i) : (t.sections[i]?).map (·.name) = some r.name := by
    obtain ⟨hlt, hget, -⟩ := Array.findIdx?_eq_some_iff_getElem.1 hr.first
    rw [Array.getElem?_eq_getElem hlt, Option.map_some]
    simpa using hget
  exact Option.some.inj ((hname h).symm.trans (hname h'))

variable (names : (t.symbols.toList.map (·.name)).Nodup)
include names

theorem nodup_name_namedSections : (t.namedSections.map (·.symbol.name)).Nodup := by
  have hsub : (t.namedSections.map (·.symbol.name)).Sublist (t.symbols.toList.map (·.name)) := by
    rw [show t.namedSections.map (·.symbol.name) = (t.namedSections.map (·.symbol)).map (·.name) by simp,
      map_symbol_namedSections]
    exact List.filter_sublist.map _
  exact hsub.nodup names

/-- A section has one symbol at most. -/
theorem eq_of_index_eq {m : NamedSection} (hn : n ∈ t.namedSections) (hm : m ∈ t.namedSections)
    (h : n.index = m.index) : n = m := by
  refine List.inj_on_of_nodup_map (nodup_name_namedSections names) hn hm ?_
  exact (mem_namedSections.1 hn).2.name_eq (h ▸ (mem_namedSections.1 hm).2)

theorem nodup_index_namedSections : (t.namedSections.map (·.index)).Nodup :=
  (List.Nodup.of_map _ (nodup_name_namedSections names)).map_on fun _ hn _ hm => eq_of_index_eq names hn hm

theorem find?_namedSections {i : Nat} :
    t.namedSections.find? (·.index == i) = some n ↔ n ∈ t.namedSections ∧ n.index = i := by
  constructor
  · intro h
    exact ⟨List.mem_of_find?_eq_some h, by simpa using List.find?_some h⟩
  · rintro ⟨hn, rfl⟩
    cases hfind : t.namedSections.find? (·.index == n.index) with
    | none => simpa using List.find?_eq_none.1 hfind n hn
    | some m =>
      have hm : m.index = n.index := by simpa using List.find?_some hfind
      rw [eq_of_index_eq names (List.mem_of_find?_eq_some hfind) hn hm]

/-- The name of a section is that of its symbol. -/
theorem any_namedSections (hs : s ∈ t.symbols) :
    t.namedSections.any (·.symbol.name == s.name) = (t.namedSection? s).isSome := by
  rw [Bool.eq_iff_iff, List.any_eq_true, Option.isSome_iff_exists]
  constructor
  · rintro ⟨n, hn, hname⟩
    obtain ⟨hmem, hnames⟩ := mem_namedSections.1 hn
    have hsame : n.symbol = s := List.inj_on_of_nodup_map names (Array.mem_toList_iff.2 hmem)
      (Array.mem_toList_iff.2 hs) (by simpa using hname)
    exact ⟨n, namedSection?_eq_some_iff.2 ⟨hsame, hsame ▸ hnames⟩⟩
  · rintro ⟨n, hn⟩
    obtain ⟨rfl, hnames⟩ := namedSection?_eq_some_iff.1 hn
    exact ⟨n, mem_namedSections.2 ⟨hs, hnames⟩, by simp⟩

omit names

/-- The section that a symbol lies beneath in the outline. -/
def shelter? (t : SymbolTable) (s : Symbol) : Option NamedSection :=
  match s.value with
  | .relocatable i _ => (t.namedSections.find? (·.index == i)).filter (s.nestsUnder ·.symbol)
  | _ => none

include names

theorem shelter?_eq_some_iff : t.shelter? s = some n ↔
    (∃ offset, s.value = .relocatable n.index offset) ∧ n ∈ t.namedSections ∧ s.nestsUnder n.symbol := by
  unfold shelter?
  constructor
  · intro h
    split at h
    · rename_i i offset hvalue
      obtain ⟨hfind, hnests⟩ := Option.filter_eq_some_iff.1 h
      obtain ⟨hn, rfl⟩ := (find?_namedSections names).1 hfind
      exact ⟨⟨offset, hvalue⟩, hn, hnests⟩
    · cases h
  · rintro ⟨⟨offset, hvalue⟩, hn, hnests⟩
    rw [hvalue]
    exact Option.filter_eq_some_iff.2 ⟨(find?_namedSections names).2 ⟨hn, rfl⟩, hnests⟩

/-- A symbol that names no section lies beneath its section if that has a symbol along the way. -/
theorem exists_shelter?_iff (hs : t.namedSection? s = none) :
    (∃ n, t.shelter? s = some n ∧ n.symbol = o) ↔ t.Shelters o s := by
  constructor
  · rintro ⟨n, hn, rfl⟩
    obtain ⟨⟨offset, hvalue⟩, hmem, hnests⟩ := (shelter?_eq_some_iff names).1 hn
    obtain ⟨hdefined, hnames⟩ := mem_namedSections.1 hmem
    refine ⟨hdefined, ⟨n.index, offset, hnames, hvalue, fun h => ?_⟩, Symbol.nestsUnder_iff.1 hnests⟩
    rw [names_iff.1 h] at hs
    cases hs
  · rintro ⟨hdefined, ⟨i, offset, hnames, hvalue, -⟩, hleads⟩
    have hmem : ⟨i, o⟩ ∈ t.namedSections := mem_namedSections.2 ⟨hdefined, hnames⟩
    exact ⟨⟨i, o⟩, (shelter?_eq_some_iff names).2 ⟨⟨offset, hvalue⟩, hmem, Symbol.nestsUnder_iff.2 hleads⟩, rfl⟩

omit names

/-! ### The entries of symbols -/

/-- The entry for a symbol. -/
def entry (t : SymbolTable) (s : Symbol) : OutlineEntry :=
  { name := s.name
    kind := t.outlineKind s
    way := s.stack.tail.map Frame.passage
    above := if (t.namedSection? s).isSome then []
      else (t.shelter? s).toList.map fun n => (n.symbol.name, t.outlineKind n.symbol) }

theorem shown_entry (names : (t.symbols.toList.map (·.name)).Nodup) (s : Symbol) : s.Shown t (t.entry s) := by
  cases hs : t.namedSection? s with
  | some n =>
    have hnone : (t.entry s).above = [] := by simp [entry, hs]
    have hapart (o : Symbol) : ¬ t.Shelters o s := by
      rintro ⟨-, ⟨i, offset, -, hvalue, hother⟩, -⟩
      obtain ⟨-, hnames⟩ := namedSection?_eq_some_iff.1 hs
      have hi := hnames.value.symm.trans hvalue
      rw [SymbolValue.relocatable.injEq] at hi
      exact hother (hi.1 ▸ hnames)
    exact ⟨rfl, rfl, rfl, fun o ho => absurd ho (hapart o), fun _ => hnone⟩
  | none =>
    have habove : (t.entry s).above = (t.shelter? s).toList.map fun n => (n.symbol.name, t.outlineKind n.symbol) := by
      simp [entry, hs]
    refine ⟨rfl, rfl, rfl, fun o ho => ?_, fun hnone => ?_⟩
    · obtain ⟨n, hn, rfl⟩ := (exists_shelter?_iff names hs).2 ho
      rw [habove, hn]
      rfl
    · cases hn : t.shelter? s with
      | none => rw [habove, hn]; rfl
      | some n => exact absurd ((exists_shelter?_iff names hs).1 ⟨n, hn, rfl⟩) (hnone _)

theorem passage?_outlineKind (t : SymbolTable) (s : Symbol) (name : String) :
    (t.outlineKind s).passage? name = none := by
  unfold outlineKind
  split
  · rename_i n _
    cases t.sections[n.index]? <;> rfl
  · cases s.attributes.origin <;> rfl

end SymbolTable

end AssemblerIndex
