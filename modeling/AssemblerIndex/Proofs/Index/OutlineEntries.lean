import AssemblerIndex.Index.Outline
import AssemblerIndex.Proofs.Assembly.Ways
import Mathlib.Data.List.Perm.Basic

/-!
# The entries of an outline

An outline shows symbols beneath items for macro calls and copy members.  `entriesIn` reads it: each item that stands
for a symbol is an entry, with the macro calls and copy members on the way to it and the symbols above it.

* `entriesIn_addBeneath` — adding an item beneath levels of nesting adds its entries, with these levels on their way,
  and changes no others;
* `Merged.addBeneath` — nor does it put two items for one macro or one copy member beside each other.
-/

namespace AssemblerIndex

/-! ### Reading an outline -/

/-- A macro or a copy member that was entered, and its name. -/
abbrev Passage := FrameKind × Option String

/-- What the frame stands in. -/
def Frame.passage (f : Frame) : Passage := (f.kind, f.member)

/-- The macro or copy member that an item stands for. -/
def OutlineKind.passage? (kind : OutlineKind) (name : String) : Option Passage :=
  match kind with
  | .macroCall => some (.macroBody, some name)
  | .copyMember => some (.copy, some name)
  | _ => none

/-- The macro or copy member that the item stands for. -/
def OutlineItem.passage? (i : OutlineItem) : Option Passage := i.kind.passage? i.name

/-- A symbol in an outline. -/
structure OutlineEntry where
  name : String
  kind : OutlineKind
  /-- the macros and copy members above it, outermost first -/
  way : List Passage
  /-- the symbols above it, outermost first -/
  above : List (String × OutlineKind)
  deriving DecidableEq, Repr

mutual

/-- The symbols in an item that lies beneath macros and copy members and beneath symbols. -/
def OutlineItem.entries (way : List Passage) (above : List (String × OutlineKind)) : OutlineItem → List OutlineEntry
  | ⟨name, kind, _, children⟩ =>
    match kind.passage? name with
    | some p => entriesIn (way ++ [p]) above children
    | none => ⟨name, kind, way, above⟩ :: entriesIn way (above ++ [(name, kind)]) children

/-- The symbols in items that lie beneath macros and copy members and beneath symbols. -/
def entriesIn (way : List Passage) (above : List (String × OutlineKind)) : List OutlineItem → List OutlineEntry
  | [] => []
  | i :: rest => i.entries way above ++ entriesIn way above rest

end

section Entries

variable {way : List Passage} {above : List (String × OutlineKind)} {i leaf : OutlineItem} {items : List OutlineItem}

theorem OutlineItem.entries_of_passage {p : Passage} (h : i.passage? = some p) :
    i.entries way above = entriesIn (way ++ [p]) above i.children := by
  obtain ⟨name, kind, span, children⟩ := i
  have h : kind.passage? name = some p := h
  unfold OutlineItem.entries
  rw [h]

theorem OutlineItem.entries_of_none (h : i.passage? = none) :
    i.entries way above =
      ⟨i.name, i.kind, way, above⟩ :: entriesIn way (above ++ [(i.name, i.kind)]) i.children := by
  obtain ⟨name, kind, span, children⟩ := i
  have h : kind.passage? name = none := h
  unfold OutlineItem.entries
  rw [h]

@[simp] theorem entriesIn_nil : entriesIn way above [] = [] := by
  unfold entriesIn
  rfl

@[simp] theorem entriesIn_cons :
    entriesIn way above (i :: items) = i.entries way above ++ entriesIn way above items := by
  rw [entriesIn]

@[simp] theorem entriesIn_append (items' : List OutlineItem) :
    entriesIn way above (items ++ items') = entriesIn way above items ++ entriesIn way above items' := by
  induction items with
  | nil => simp
  | cons i rest ih => simp [ih]

end Entries

theorem perm_append_right_comm {α : Type} (a b c : List α) : (a ++ b ++ c).Perm (a ++ c ++ b) := by
  rw [List.append_assoc, List.append_assoc]
  exact .append_left a List.perm_append_comm

/-! ### Levels of nesting -/

/-- No two items beside each other, at any depth, stand for the same macro or copy member. -/
inductive Merged : List OutlineItem → Prop
  | intro {items : List OutlineItem} (distinct : (items.filterMap OutlineItem.passage?).Nodup)
    (children : ∀ i ∈ items, Merged i.children) : Merged items

theorem merged_nil : Merged [] := ⟨.nil, nofun⟩

section Nesting

variable {at_ : Position} {leaf i : OutlineItem} {frames : List Frame} {items : List OutlineItem}

/-- The item for a level of nesting that has a name stands for it. -/
theorem passage?_outlineKind {f : Frame} (hf : f.IsNamed) :
    f.outlineKind.passage? f.outlineName = some f.passage := by
  obtain ⟨kind, member, l⟩ := f
  obtain ⟨m, rfl⟩ := Option.isSome_iff_exists.1 hf.2
  cases kind with
  | openCode => exact absurd rfl hf.1
  | copy => rfl
  | macroBody => rfl

theorem OutlineKind.passage?_inj {k k' : OutlineKind} {n n' : String} {p : Passage} (h : k.passage? n = some p)
    (h' : k'.passage? n' = some p) : k = k' ∧ n = n' := by
  unfold passage? at h h'
  grind

/-- Of the items beside each other, that for a level of nesting is found by kind and name. -/
theorem outlineItem_beq_iff {f : Frame} (hf : f.IsNamed) :
    (i.kind == f.outlineKind && i.name == f.outlineName) ↔ i.passage? = some f.passage := by
  rw [Bool.and_eq_true, beq_iff_eq, beq_iff_eq]
  constructor
  · rintro ⟨hk, hn⟩
    unfold OutlineItem.passage?
    rw [hk, hn]
    exact passage?_outlineKind hf
  · intro h
    exact OutlineKind.passage?_inj h (passage?_outlineKind hf)

/-- An item beneath a level of nesting goes beneath the item that stands for it, or beneath a new one. -/
theorem addBeneath_cons {f : Frame} (hf : f.IsNamed) (at_ : Position) (leaf : OutlineItem)
    (fs : List Frame) (items : List OutlineItem) :
    (∃ l i r, items = l ++ i :: r ∧ i.passage? = some f.passage ∧
      addBeneath at_ leaf (f :: fs) items = l ++ { i with children := addBeneath at_ leaf fs i.children } :: r) ∨
    (∀ i ∈ items, i.passage? ≠ some f.passage) ∧ ∃ i : OutlineItem, i.passage? = some f.passage ∧
      i.children = addBeneath at_ leaf fs [] ∧ addBeneath at_ leaf (f :: fs) items = items ++ [i] := by
  cases hk : items.findIdx? fun i => i.kind == f.outlineKind && i.name == f.outlineName with
  | some k =>
    obtain ⟨hlt, hget, -⟩ := List.findIdx?_eq_some_iff_getElem.1 hk
    refine .inl ⟨items.take k, items[k], items.drop (k + 1), ?_, (outlineItem_beq_iff hf).1 hget, ?_⟩
    · rw [List.getElem_cons_drop, List.take_append_drop]
    · rw [addBeneath, hk]
      exact List.modify_eq_take_cons_drop hlt
  | none =>
    refine .inr ⟨fun i hi hp => ?_,
      { name := f.outlineName, kind := f.outlineKind, span := .point at_, children := addBeneath at_ leaf fs [] },
      passage?_outlineKind hf, rfl, by rw [addBeneath, hk]⟩
    have hfalse := List.findIdx?_eq_none_iff.1 hk i hi
    rw [(outlineItem_beq_iff hf).2 hp] at hfalse
    cases hfalse

/-- **Adding an item adds its entries**, with the levels it was put beneath on their way. -/
theorem entriesIn_addBeneath (at_ : Position) (leaf : OutlineItem) (way : List Passage)
    (above : List (String × OutlineKind)) (items : List OutlineItem)
    (named : ∀ f ∈ frames, f.IsNamed) :
    (entriesIn way above (addBeneath at_ leaf frames items)).Perm
      (entriesIn way above items ++ leaf.entries (way ++ frames.map Frame.passage) above) := by
  induction frames generalizing way items with
  | nil =>
    unfold addBeneath
    simp
  | cons f fs ih =>
    obtain ⟨hf, hfs⟩ := List.forall_mem_cons.1 named
    have hway : way ++ (f :: fs).map Frame.passage = way ++ [f.passage] ++ fs.map Frame.passage := by simp
    rw [hway]
    rcases addBeneath_cons hf at_ leaf fs items with ⟨l, i, r, rfl, hi, hadd⟩ | ⟨-, i, hi, hchildren, hadd⟩
    · have hi' : OutlineItem.passage? { i with children := addBeneath at_ leaf fs i.children } = some f.passage := hi
      rw [hadd, entriesIn_append, entriesIn_append, entriesIn_cons, entriesIn_cons, i.entries_of_passage hi,
        OutlineItem.entries_of_passage hi', List.append_assoc]
      exact .append_left _ (((ih _ _ hfs).append_right _).trans (perm_append_right_comm ..))
    · rw [hadd, entriesIn_append, entriesIn_cons, entriesIn_nil, List.append_nil, i.entries_of_passage hi, hchildren]
      refine .append_left _ ((ih _ _ hfs).trans ?_)
      rw [entriesIn_nil, List.nil_append]

/-- **Adding an item keeps the outline merged.** -/
theorem Merged.addBeneath (h : Merged items) (at_ : Position) (hleaf : leaf.passage? = none)
    (hchildren : Merged leaf.children) (named : ∀ f ∈ frames, f.IsNamed) :
    Merged (addBeneath at_ leaf frames items) := by
  induction frames generalizing items with
  | nil =>
    obtain ⟨distinct, children⟩ := h
    unfold AssemblerIndex.addBeneath
    refine ⟨?_, fun i hi => ?_⟩
    · rw [List.filterMap_append, List.filterMap_cons_none hleaf, List.filterMap_nil, List.append_nil]
      exact distinct
    · rcases List.mem_append.1 hi with hi | hi
      · exact children i hi
      · exact List.mem_singleton.1 hi ▸ hchildren
  | cons f fs ih =>
    obtain ⟨hf, hfs⟩ := List.forall_mem_cons.1 named
    obtain ⟨distinct, children⟩ := h
    rcases addBeneath_cons hf at_ leaf fs items with ⟨l, i, r, rfl, hi, hadd⟩ | ⟨hnew, i, hi, hc, hadd⟩
    · rw [hadd]
      refine ⟨?_, fun k hk => ?_⟩
      · have hsame : (l ++ { i with children := AssemblerIndex.addBeneath at_ leaf fs i.children } :: r).filterMap
            OutlineItem.passage? = (l ++ i :: r).filterMap OutlineItem.passage? := by
          rw [List.filterMap_append, List.filterMap_append, List.filterMap_cons, List.filterMap_cons]
          rfl
        rw [hsame]
        exact distinct
      · rcases List.mem_append.1 hk with hk | hk
        · exact children k (List.mem_append_left _ hk)
        · rcases List.mem_cons.1 hk with rfl | hk
          · exact ih (children i (List.mem_append_right _ List.mem_cons_self)) hfs
          · exact children k (List.mem_append_right _ (List.mem_cons_of_mem _ hk))
    · rw [hadd]
      refine ⟨?_, fun k hk => ?_⟩
      · rw [List.filterMap_append, List.filterMap_cons_some hi, List.filterMap_nil, List.nodup_append]
        refine ⟨distinct, List.pairwise_singleton .., ?_⟩
        rintro p hp q hq rfl
        obtain ⟨k, hk, hkp⟩ := List.mem_filterMap.1 hp
        exact hnew k hk (List.mem_singleton.1 hq ▸ hkp)
      · rcases List.mem_append.1 hk with hk | hk
        · exact children k hk
        · obtain rfl := List.mem_singleton.1 hk
          rw [hc]
          exact ih merged_nil hfs

end Nesting

end AssemblerIndex
