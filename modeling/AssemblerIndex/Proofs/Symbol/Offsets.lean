import AssemblerIndex.Proofs.Symbol.Operations
import Mathlib.Logic.Function.Basic

/-!
# Offsets of location counters

Only what moves the location counter in use changes an offset, and it changes the offset of that counter alone.

* `CounterRef` — a location counter by its section and its index there; a counter that has not been started yet has the
  offset zero, with which it will start;
* `Preserves` — counters are started at most;
* `offset_move` — **moving the counter in use leaves the others alone**.
-/

namespace AssemblerIndex

/-- A location counter by the index of its section and its index there. -/
structure CounterRef where
  sectionIndex : Nat
  index : Nat
  deriving DecidableEq, Repr

namespace SymbolTable

/-- The location counter that is referred to. -/
def counter? (t : SymbolTable) (k : CounterRef) : Option Counter :=
  (t.sections[k.sectionIndex]?).bind (·.counters[k.index]?)

/-- The offset of a location counter. -/
def offset (t : SymbolTable) (k : CounterRef) : Int32 := ((t.counter? k).map (·.offset)).getD 0

/-- The location counter in use; if no section is in use, the one that would be started. -/
def counterInUse (t : SymbolTable) : CounterRef :=
  ⟨t.current.getD t.sections.size, (t.currentSection?.map (·.current)).getD 0⟩

/-- Moves the location counter in use. -/
def move (f : Int32 → Int32) (t : SymbolTable) : SymbolTable := t.ensureSection.mapCurrent (·.mapOffset f)

theorem align_eq_move (t : SymbolTable) (n : Int32) : t.align n = t.move (alignOffset n) := rfl

theorem reserve_eq_move (t : SymbolTable) (n : Int32) : t.reserve n = t.move (· + n) := rfl

variable {t u v : SymbolTable} {k : CounterRef}

/-! ### What only starts counters -/

/-- From `t` to `u` location counters were started at most. -/
structure Preserves (t u : SymbolTable) : Prop where
  started : ∀ {k c}, t.counter? k = some c → u.counter? k = some c
  zero : ∀ {k c}, t.counter? k = none → u.counter? k = some c → c.offset = 0

theorem Preserves.refl (t : SymbolTable) : t.Preserves t := ⟨id, fun hn hc => by cases hn.symm.trans hc⟩

theorem Preserves.trans (h : t.Preserves u) (h' : u.Preserves v) : t.Preserves v where
  started hc := h'.started (h.started hc)
  zero {k c} hn hc := by
    cases hu : u.counter? k with
    | none => exact h'.zero hu hc
    | some d =>
      obtain rfl := Option.some.inj ((h'.started hu).symm.trans hc)
      exact h.zero hn hu

theorem Preserves.of_sections (h : u.sections = t.sections) : t.Preserves u := by
  have hcounter (k : CounterRef) : u.counter? k = t.counter? k := by rw [counter?, h, counter?]
  exact ⟨fun hc => by rw [hcounter, hc], fun hn hc => by cases hn.symm.trans ((hcounter _).symm.trans hc)⟩

/-- **Starting counters changes no offset.** -/
theorem Preserves.offset (h : t.Preserves u) : u.offset = t.offset := by
  funext k
  unfold SymbolTable.offset
  cases ht : t.counter? k with
  | some c => rw [h.started ht]
  | none =>
    cases hu : u.counter? k with
    | none => rfl
    | some c => exact h.zero ht hu

theorem preserves_define (t : SymbolTable) (s : Symbol) : t.Preserves (t.define s) := .of_sections (sections_define ..)

theorem preserves_startSection (t : SymbolTable) (name : String) (kind : SectionKind) :
    t.Preserves (t.startSection name kind) := by
  have hcounter (k : CounterRef) : (t.startSection name kind).counter? k =
      if k.sectionIndex = t.sections.size then #[{ name }][k.index]? else t.counter? k := by
    unfold counter? startSection
    rw [Array.getElem?_push]
    split <;> rfl
  constructor
  · intro k c hc
    obtain ⟨s, hs, -⟩ := Option.bind_eq_some_iff.1 hc
    rw [hcounter, if_neg, hc]
    exact Nat.ne_of_lt (Array.getElem?_eq_some_iff.1 hs).1
  · intro k c hn hc
    rw [hcounter] at hc
    split at hc
    · have hmem := Array.mem_of_getElem? hc
      simp only [List.mem_toArray, List.mem_cons, List.not_mem_nil, or_false] at hmem
      rw [hmem]
    · cases hn.symm.trans hc

theorem preserves_setSection (t : SymbolTable) (name : String) (kind : SectionKind) (l : Location)
    (stack : ProcessingStack) : t.Preserves (t.setSection name kind l stack) := by
  by_cases hkind : t.firstKind? name = some kind
  · rw [setSection_of_kind hkind]
    exact .of_sections rfl
  · rw [setSection_of_other hkind]
    exact (preserves_startSection ..).trans (preserves_define ..)

theorem preserves_ensureSection (t : SymbolTable) : t.Preserves t.ensureSection := by
  unfold ensureSection
  split
  · exact .refl t
  · exact preserves_startSection ..

/-- The counters behind a change of the section in use. -/
theorem counter?_mapCurrent (t : SymbolTable) (f : Section → Section) (k : CounterRef) :
    (t.mapCurrent f).counter? k =
      if t.current = some k.sectionIndex then (t.sections[k.sectionIndex]?).bind fun s => (f s).counters[k.index]?
      else t.counter? k := by
  cases hc : t.current with
  | none => rw [mapCurrent, hc, if_neg (Option.some_ne_none k.sectionIndex).symm]
  | some i =>
    rw [mapCurrent_of_some hc, counter?, Array.getElem?_modify]
    by_cases hi : i = k.sectionIndex
    · rw [if_pos hi, if_pos (by rw [hi]), Option.bind_map]
      rfl
    · rw [if_neg hi, if_neg (by simpa using hi), counter?]

theorem preserves_mapCurrent (t : SymbolTable) {f : Section → Section}
    (started : ∀ (s : Section) (j : Nat) (c : Counter), s.counters[j]? = some c → (f s).counters[j]? = some c)
    (zero : ∀ (s : Section) (j : Nat) (c : Counter), s.counters[j]? = none → (f s).counters[j]? = some c →
      c.offset = 0) :
    t.Preserves (t.mapCurrent f) := by
  constructor
  · intro k c hc
    rw [counter?_mapCurrent]
    split
    · obtain ⟨s, hs, hget⟩ := Option.bind_eq_some_iff.1 hc
      rw [hs]
      exact started s _ _ hget
    · exact hc
  · intro k c hn hc
    rw [counter?_mapCurrent] at hc
    split at hc
    · obtain ⟨s, hs, hget⟩ := Option.bind_eq_some_iff.1 hc
      rw [counter?, hs] at hn
      exact zero s _ _ hn hget
    · cases hn.symm.trans hc

theorem preserves_setCounter (t : SymbolTable) (name : String) (l : Location) (stack : ProcessingStack) :
    t.Preserves (t.setCounter name l stack) := by
  refine (preserves_ensureSection t).trans ?_
  cases hk : t.ensureSection.currentSection?.bind fun s => s.counters.findIdx? (·.name == name) with
  | some i =>
    rw [setCounter_of_some l stack hk]
    exact preserves_mapCurrent _ (fun _ _ _ => id) fun _ _ _ hn hc => by cases hn.symm.trans hc
  | none =>
    rw [setCounter_of_none l stack hk]
    refine (preserves_mapCurrent _ (fun s j c hc => ?_) fun s j c hn hc => ?_).trans (preserves_define ..)
    · obtain ⟨hlt, rfl⟩ := Array.getElem?_eq_some_iff.1 hc
      exact Array.getElem?_push_lt hlt
    · rw [Array.getElem?_push] at hc
      split at hc
      · obtain rfl := Option.some.inj hc
        rfl
      · cases hn.symm.trans hc

/-! ### Moving the counter in use -/

@[simp] theorem counterInUse_ensureSection (t : SymbolTable) : t.ensureSection.counterInUse = t.counterInUse := by
  cases hc : t.current with
  | some i => rw [ensureSection_of_some hc]
  | none =>
    rw [ensureSection_of_none hc]
    simp [counterInUse, currentSection?, hc, startSection, Section.start]

/-- Where a section is in use, the counter in use exists. -/
theorem Coherent.exists_section (h : t.Coherent) {i : Nat} (hi : t.current = some i) :
    ∃ s, t.sections[i]? = some s ∧ t.counterInUse = ⟨i, s.current⟩ ∧ s.current < s.counters.size := by
  obtain ⟨s, hs⟩ : ∃ s, t.sections[i]? = some s := ⟨_, Array.getElem?_eq_getElem (h.current_lt hi)⟩
  refine ⟨s, hs, ?_, h.counter_lt hs⟩
  simp [counterInUse, currentSection?, hi, hs]

theorem counterInUse_mapOffset (t : SymbolTable) (f : Int32 → Int32) :
    (t.mapCurrent (·.mapOffset f)).counterInUse = t.counterInUse := by
  cases hc : t.current with
  | none => rw [mapCurrent, hc]
  | some i =>
    rw [mapCurrent_of_some hc]
    simp only [counterInUse, currentSection?, hc, Option.bind_some, Array.getElem?_modify, Array.size_modify, if_true,
      Option.map_map, Function.comp_def, Section.mapOffset]

@[simp] theorem counterInUse_move (t : SymbolTable) (f : Int32 → Int32) : (t.move f).counterInUse = t.counterInUse := by
  rw [move, counterInUse_mapOffset, counterInUse_ensureSection]

theorem Coherent.move (h : t.Coherent) (f : Int32 → Int32) : (t.move f).Coherent := h.mapOffset f

/-- The counters of a table that has a section in use, behind a move of the counter in use. -/
theorem counter?_mapOffset {i : Nat} {s : Section} (hi : t.current = some i) (hs : t.sections[i]? = some s)
    (f : Int32 → Int32) (k : CounterRef) :
    (t.mapCurrent (·.mapOffset f)).counter? k =
      if k = ⟨i, s.current⟩ then (t.counter? k).map fun c => { c with offset := f c.offset } else t.counter? k := by
  obtain ⟨j, n⟩ := k
  rw [counter?_mapCurrent, hi]
  by_cases hj : i = j
  · subst hj
    simp only [counter?, hs, if_true, Option.bind_some, Section.mapOffset, Array.getElem?_modify, CounterRef.mk.injEq,
      true_and, eq_comm (a := n)]
  · rw [if_neg (by simpa using hj), if_neg (by simp [Ne.symm hj])]

/-- **Moving the counter in use leaves the others alone.** -/
theorem offset_move (h : t.Coherent) (f : Int32 → Int32) :
    (t.move f).offset = Function.update t.offset t.counterInUse (f (t.offset t.counterInUse)) := by
  obtain ⟨i, hi⟩ := exists_current_ensureSection t
  obtain ⟨s, hs, huse, hlt⟩ := h.ensureSection.exists_section hi
  rw [← (preserves_ensureSection t).offset, ← counterInUse_ensureSection t, move, huse]
  generalize t.ensureSection = u at hi hs
  have hcounter : u.counter? ⟨i, s.current⟩ = some s.counters[s.current] := by
    rw [counter?, hs, Option.bind_some, Array.getElem?_eq_getElem hlt]
  funext k
  unfold offset
  rw [counter?_mapOffset hi hs]
  by_cases hk : k = ⟨i, s.current⟩
  · subst hk
    rw [if_pos rfl, Function.update_self, hcounter]
    rfl
  · rw [if_neg hk, Function.update_of_ne hk]

/-- Counters do not disappear when the counter in use is moved. -/
theorem isSome_counter?_move (t : SymbolTable) (f : Int32 → Int32) (hk : (t.counter? k).isSome) :
    ((t.move f).counter? k).isSome := by
  obtain ⟨c, hc⟩ := Option.isSome_iff_exists.1 hk
  rw [move, counter?_mapCurrent]
  split
  · obtain ⟨s, hs, hget⟩ := Option.bind_eq_some_iff.1 ((preserves_ensureSection t).started hc)
    rw [hs, Option.bind_some, Section.mapOffset, Array.getElem?_modify, hget]
    split <;> rfl
  · rw [(preserves_ensureSection t).started hc]
    rfl

/-- The place of the counter in use. -/
theorem place_eq (h : t.Coherent) {i : Nat} (hi : t.current = some i) :
    t.place = .relocatable t.counterInUse.sectionIndex (t.offset t.counterInUse) := by
  obtain ⟨s, hs, huse, hlt⟩ := h.exists_section hi
  have hplace : t.place = .relocatable i s.counter.offset := by
    rw [place, currentSection?, hi, Option.bind_some, hs]
  have hcounter : s.counter = s.counters[s.current] := by
    unfold Section.counter
    rw [Array.getElem?_eq_getElem hlt, Option.getD_some]
  rw [hplace, huse, offset, counter?, hs, Option.bind_some, hcounter, Array.getElem?_eq_getElem hlt]
  rfl

theorem exists_current_move (t : SymbolTable) (f : Int32 → Int32) : ∃ i, (t.move f).current = some i := by
  rw [move, current_mapCurrent]
  exact exists_current_ensureSection t

end SymbolTable

end AssemblerIndex
