import AssemblerIndex.Proofs.Symbol.Operations
import Mathlib.Data.List.Count

/-!
# Resuming sections

A section is looked for by its name alone, and what is found is resumed if it is of the kind that is asked for.  So the
first section of a name can be resumed, and further ones, which are of other kinds, cannot.

* `headings` — names and kinds of the sections, which only ever grow at their end (`prefix_headings`);
* `Unrepeated` — the first section of a name is the only one of its kind;
* `sections_resumed` — **a section is resumed exactly if the first one of its name is of its kind**;
  `section_started_again` shows what becomes of the others.
-/

namespace AssemblerIndex.SymbolTable

variable {t : SymbolTable} {name : String} {kind : SectionKind} {i : Nat}

/-! ### Headings -/

/-- The names and kinds of the sections, in order of their start. -/
def headings (t : SymbolTable) : List (String × SectionKind) := t.sections.toList.map fun s => (s.name, s.kind)

theorem length_headings (t : SymbolTable) : t.headings.length = t.sections.size := by
  rw [headings, List.length_map, Array.length_toList]

theorem firstKind?_eq (t : SymbolTable) (name : String) :
    t.firstKind? name = (t.headings.find? (·.1 == name)).map (·.2) := by
  rw [firstKind?, headings, List.find?_map, Option.map_map, ← Array.find?_toList]
  rfl

theorem sectionNamed?_eq (t : SymbolTable) (name : String) :
    t.sectionNamed? name = t.headings.findIdx? (·.1 == name) := by
  obtain ⟨⟨l⟩, -, -⟩ := t
  simp [sectionNamed?, headings, List.findIdx?_map, Function.comp_def]

theorem headings_define (t : SymbolTable) (s : Symbol) : (t.define s).headings = t.headings := by
  rw [headings, sections_define, headings]

theorem headings_startSection (t : SymbolTable) (name : String) (kind : SectionKind) :
    (t.startSection name kind).headings = t.headings ++ [(name, kind)] := by
  rw [headings, startSection, Array.toList_push, List.map_append, headings]
  rfl

theorem headings_mapCurrent (t : SymbolTable) {f : Section → Section}
    (hf : ∀ s, (f s).name = s.name ∧ (f s).kind = s.kind) : (t.mapCurrent f).headings = t.headings := by
  cases hc : t.current with
  | none => rw [mapCurrent, hc]
  | some i =>
    rw [mapCurrent_of_some hc]
    refine List.ext_getElem? fun k => ?_
    simp only [headings, List.getElem?_map, Array.getElem?_toList, Array.getElem?_modify]
    split
    · simp [Function.comp_def, hf]
    · rfl

/-- The first section of a name stays the first one when sections are started behind it. -/
theorem find?_headings_append {h : String × SectionKind} (hh : t.headings.find? (·.1 == name) = some h)
    (rest : List (String × SectionKind)) : (t.headings ++ rest).find? (·.1 == name) = some h := by
  rw [List.find?_append, hh, Option.some_or]

/-! ### What operations do to the headings -/

theorem headings_ensureSection (h : t.Coherent) :
    t.ensureSection.headings = t.headings ∨
      t.ensureSection.headings = t.headings ++ [("", .executable)] ∧ t.firstKind? "" = none := by
  cases hc : t.current with
  | some i => exact .inl (by rw [ensureSection_of_some hc])
  | none =>
    refine .inr ⟨by rw [ensureSection_of_none hc, headings_startSection], ?_⟩
    rw [firstKind?, h.started hc]
    rfl

/-- **An operation starts one section at most**, and only if the first one of its name is not of its kind. -/
theorem headings_apply (h : t.Coherent) (op : Operation) :
    (op.apply t).headings = t.headings ∨
      ∃ name kind, (op.apply t).headings = t.headings ++ [(name, kind)] ∧ t.firstKind? name ≠ some kind := by
  have ensured {u : SymbolTable} (hu : u.headings = t.ensureSection.headings) :
      u.headings = t.headings ∨
        ∃ name kind, u.headings = t.headings ++ [(name, kind)] ∧ t.firstKind? name ≠ some kind := by
    rcases headings_ensureSection h with hsame | ⟨hnew, hnone⟩
    · exact .inl (hu.trans hsame)
    · exact .inr ⟨_, _, hu.trans hnew, by rw [hnone]; exact nofun⟩
  cases op with
  | define s => exact .inl (headings_define t s)
  | setSection name kind l stack =>
    show (t.setSection name kind l stack).headings = _ ∨ ∃ n k, (t.setSection name kind l stack).headings = _ ∧ _
    by_cases hkind : t.firstKind? name = some kind
    · exact .inl (by rw [setSection_of_kind hkind, headings, headings])
    · exact .inr ⟨name, kind, by rw [setSection_of_other hkind, headings_define, headings_startSection], hkind⟩
  | ensureSection => exact ensured rfl
  | setCounter name l stack =>
    refine ensured ?_
    show (t.setCounter name l stack).headings = _
    cases hk : t.ensureSection.currentSection?.bind fun s => s.counters.findIdx? (·.name == name) with
    | some k =>
      rw [setCounter_of_some l stack hk]
      exact headings_mapCurrent _ fun _ => ⟨rfl, rfl⟩
    | none =>
      rw [setCounter_of_none l stack hk, headings_define]
      exact headings_mapCurrent _ fun _ => ⟨rfl, rfl⟩
  | align n => exact ensured (headings_mapCurrent _ fun _ => ⟨rfl, rfl⟩)
  | reserve n => exact ensured (headings_mapCurrent _ fun _ => ⟨rfl, rfl⟩)

/-- **Sections keep their names, kinds and indices.** -/
theorem prefix_headings (h : t.Coherent) (ops : List Operation) : t.headings <+: (t.perform ops).headings := by
  refine (perform_induction (P := fun u => u.Coherent ∧ t.headings <+: u.headings) (fun u op hu => ?_)
    ⟨h, List.prefix_refl _⟩ ops).2
  refine ⟨hu.1.apply op, ?_⟩
  rcases headings_apply hu.1 op with hsame | ⟨n, k, hnew, -⟩
  · rw [hsame]
    exact hu.2
  · rw [hnew]
    exact hu.2.trans (List.prefix_append ..)

/-- The first section of a name stays what it is. -/
theorem firstKind?_perform (h : t.Coherent) (hk : t.firstKind? name = some kind) (ops : List Operation) :
    (t.perform ops).firstKind? name = some kind ∧ (t.perform ops).sectionNamed? name = t.sectionNamed? name := by
  obtain ⟨rest, hrest⟩ := prefix_headings h ops
  rw [firstKind?_eq] at hk
  obtain ⟨e, he, hkind⟩ := Option.map_eq_some_iff.1 hk
  constructor
  · rw [firstKind?_eq, ← hrest, find?_headings_append he, Option.map_some, hkind]
  · rw [sectionNamed?_eq, sectionNamed?_eq, ← hrest, List.findIdx?_append]
    cases hi : t.headings.findIdx? (·.1 == name) with
    | some i => rfl
    | none =>
      rw [List.findIdx?_eq_none_iff] at hi
      exact absurd (List.find?_some he) (by simpa using hi e (List.mem_of_find?_eq_some he))

/-! ### Sections of one name and kind -/

/-- The first section of a name is the only one of its kind. -/
def Unrepeated (t : SymbolTable) : Prop :=
  ∀ name kind, t.firstKind? name = some kind → t.headings.count (name, kind) = 1

theorem Unrepeated.apply (h : t.Unrepeated) (ht : t.Coherent) (op : Operation) : (op.apply t).Unrepeated := by
  intro name kind hkind
  rw [firstKind?_eq] at hkind
  rcases headings_apply ht op with hsame | ⟨n, k, hnew, hother⟩
  · rw [hsame] at hkind ⊢
    exact h name kind (by rw [firstKind?_eq, hkind])
  · rw [hnew] at hkind ⊢
    rw [List.count_append]
    rw [List.find?_append] at hkind
    cases hfirst : t.headings.find? (·.1 == name) with
    | some e =>
      -- the section that is started is another one
      rw [hfirst, Option.some_or] at hkind
      have hold : t.firstKind? name = some kind := by rw [firstKind?_eq, hfirst, hkind]
      have hne : (n, k) ≠ (name, kind) := by
        rintro hsame
        obtain ⟨rfl, rfl⟩ := Prod.mk.inj hsame
        exact hother hold
      rw [h name kind hold, List.count_singleton, if_neg (by simpa using hne)]
    | none =>
      -- it is the first one of the name
      have hzero : t.headings.count (name, kind) = 0 := by
        refine List.count_eq_zero.2 fun hmem => ?_
        simpa using List.find?_eq_none.1 hfirst _ hmem
      rw [hfirst, Option.none_or, List.find?_singleton] at hkind
      split at hkind
      · rename_i hname
        rw [Option.map_some] at hkind
        obtain rfl : n = name := by simpa using hname
        obtain rfl := Option.some.inj hkind
        rw [hzero, List.count_singleton_self]
      · cases hkind

/-- **The first section of a name is the only one of its kind**, behind any operations. -/
theorem unrepeated_perform (ops : List Operation) : (({} : SymbolTable).perform ops).Unrepeated :=
  (perform_induction (P := fun u => u.Coherent ∧ u.Unrepeated) (fun _ op hu => ⟨hu.1.apply op, hu.2.apply hu.1 op⟩)
    ⟨coherent_empty, nofun⟩ ops).2

/-! ### Resuming a section -/

/-- Behind the start of a section there is one of its name. -/
theorem exists_firstKind?_setSection (t : SymbolTable) (name : String) (kind : SectionKind) (l : Location)
    (stack : ProcessingStack) : ∃ k, (t.setSection name kind l stack).firstKind? name = some k := by
  by_cases hkind : t.firstKind? name = some kind
  · exact ⟨kind, by rw [setSection_of_kind hkind]; exact hkind⟩
  · rw [setSection_of_other hkind, firstKind?_eq, headings_define, headings_startSection, List.find?_append]
    cases t.headings.find? (·.1 == name) with
    | some e => exact ⟨e.2, rfl⟩
    | none => exact ⟨kind, by simp⟩

/-- A section that is the first one of its name is in use behind its start. -/
theorem current_setSection {l : Location} {stack : ProcessingStack}
    (h : (t.setSection name kind l stack).firstKind? name = some kind) :
    (t.setSection name kind l stack).current = (t.setSection name kind l stack).sectionNamed? name := by
  by_cases hkind : t.firstKind? name = some kind
  · rw [setSection_of_kind hkind]
    rfl
  · rw [setSection_of_other hkind, firstKind?_eq, headings_define, headings_startSection] at h
    rw [setSection_of_other hkind, sectionNamed?_eq, headings_define, headings_startSection, current_define,
      List.findIdx?_append]
    cases hfirst : t.headings.find? (·.1 == name) with
    | some e =>
      rw [find?_headings_append hfirst] at h
      exact absurd (by rw [firstKind?_eq, hfirst, h]) hkind
    | none =>
      have hnone : t.headings.findIdx? (·.1 == name) = none :=
        List.findIdx?_eq_none_iff.2 fun e he => by simpa using List.find?_eq_none.1 hfirst e he
      rw [hnone, Option.none_or, length_headings]
      simp [SymbolTable.startSection]

/-- **Sections can be resumed.**  Whatever was done before, when a section of some name and kind is set, and set again
after any further operations, all sections keep their location counters.  If the first section of the name is of the
kind, then the second time takes up what the first time did, and there is no other section of that name and kind; and
otherwise the second time starts another section. -/
theorem sections_resumed (before further : List Operation) (name : String) (kind : SectionKind) (l l' : Location)
    (stack stack' : ProcessingStack) :
    let t₁ := (({} : SymbolTable).perform before).setSection name kind l stack
    let t₂ := t₁.perform further
    let t₃ := t₂.setSection name kind l' stack'
    (∀ (i : Nat) (s : Section), t₂.sections[i]? = some s → t₃.sections[i]? = some s) ∧
      (t₁.firstKind? name = some kind → t₃ = { t₂ with current := t₁.current } ∧ t₃.headings.count (name, kind) = 1) ∧
      (t₁.firstKind? name ≠ some kind → t₃.sections = t₂.sections.push (.start name kind) ∧
        t₃.current = some t₂.sections.size ∧ t₃.current ≠ t₁.current) := by
  intro t₁ t₂ t₃
  have ht₁ : t₁.Coherent := (coherent_empty.perform before).setSection name kind l stack
  by_cases hkind : t₁.firstKind? name = some kind
  · obtain ⟨hkind₂, hindex⟩ := firstKind?_perform ht₁ hkind further
    have ht₃ : t₃ = { t₂ with current := t₁.current } := by
      show t₂.setSection name kind l' stack' = _
      rw [setSection_of_kind hkind₂, hindex, current_setSection hkind]
    have honce : t₂.headings.count (name, kind) = 1 := by
      have hops : t₂ = ({} : SymbolTable).perform (before ++ .setSection name kind l stack :: further) := by
        rw [perform_append]
        rfl
      exact hops ▸ unrepeated_perform _ name kind (hops ▸ hkind₂)
    refine ⟨fun i s hs => by rw [ht₃]; exact hs, fun _ => ⟨ht₃, ?_⟩, fun hother => absurd hkind hother⟩
    rw [ht₃]
    exact honce
  · obtain ⟨k, hk⟩ := exists_firstKind?_setSection (({} : SymbolTable).perform before) name kind l stack
    have hother : t₂.firstKind? name ≠ some kind := by
      rw [(firstKind?_perform ht₁ hk further).1, ← hk]
      exact hkind
    have ht₃ : t₃ = (t₂.startSection name kind).define (sectionSymbol name t₂.sections.size l' stack') :=
      setSection_of_other hother l' stack'
    have hsections : t₃.sections = t₂.sections.push (.start name kind) := by
      rw [ht₃, sections_define]
      rfl
    have hcurrent : t₃.current = some t₂.sections.size := by
      rw [ht₃, current_define]
      rfl
    refine ⟨fun i s hs => ?_, fun h => absurd h hkind, fun _ => ⟨hsections, hcurrent, fun hsame => ?_⟩⟩
    · obtain ⟨hlt, rfl⟩ := Array.getElem?_eq_some_iff.1 hs
      rw [hsections, Array.getElem?_push_lt hlt]
    · have hlt := ht₁.current_lt (hsame.symm.trans hcurrent)
      have hle := (prefix_headings ht₁ further).length_le
      rw [length_headings, length_headings] at hle
      exact absurd hlt (Nat.not_lt.2 hle)

/-- A section is resumed behind another one and a location counter of its own. -/
theorem sections_resumed_of_counter :
    let place : Location := ⟨"S", ⟨0, 0⟩⟩
    let further : List Operation :=
      [.reserve 2, .setCounter "L" place [], .setSection "D" .dummy place [], .reserve 4]
    let t₁ := (({} : SymbolTable).perform []).setSection "A" .executable place []
    let t₂ := t₁.perform further
    t₁.firstKind? "A" = some .executable ∧ t₁.current = some 0 ∧ t₂.current = some 1 ∧
      t₂.setSection "A" .executable place [] = { t₂ with current := t₁.current } := by
  intro place further t₁ t₂
  have hfirst : t₁.firstKind? "A" = some .executable := by decide +kernel
  obtain ⟨-, hresumed, -⟩ := sections_resumed [] further "A" .executable place place [] []
  exact ⟨hfirst, by decide +kernel, by decide +kernel, (hresumed hfirst).1⟩

/-- **A section is not resumed behind one of its name and of another kind**: setting it again starts a section anew,
and there are two of its name and kind. -/
theorem section_started_again :
    let place : Location := ⟨"S", ⟨0, 0⟩⟩
    let t₁ := (({} : SymbolTable).perform [.setSection "A" .executable place []]).setSection "A" .dummy place []
    let t₃ := (t₁.perform [.reserve 4]).setSection "A" .dummy place []
    t₁.current = some 1 ∧ t₃.current = some 2 ∧ t₃.place = .relocatable 2 0 ∧ t₃.headings.count ("A", .dummy) = 2 := by
  decide +kernel

end AssemblerIndex.SymbolTable
