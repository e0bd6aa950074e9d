import AssemblerIndex.Symbol

/-!
# Operations on the table of symbols

Whatever happens to the table of symbols is an operation on it: a symbol is defined, a section or a location counter is
started or resumed, or the counter in use is moved.

* `Operation`, `perform` — the operations, and the table behind a list of them;
* `setSection_of_kind`, `setSection_of_other` — going on with a section, or starting one;
* `Coherent` — the section and the counter in use exist, and some section is in use once there is one.
-/

namespace AssemblerIndex.SymbolTable

/-- An operation on the table of symbols. -/
inductive Operation where
  | define (s : Symbol)
  | setSection (name : String) (kind : SectionKind) (location : Location) (stack : ProcessingStack)
  | ensureSection
  | setCounter (name : String) (location : Location) (stack : ProcessingStack)
  | align (alignment : Int32)
  | reserve (length : Int32)

/-- The table behind an operation. -/
def Operation.apply (t : SymbolTable) : Operation → SymbolTable
  | define s => t.define s
  | setSection name kind location stack => t.setSection name kind location stack
  | ensureSection => t.ensureSection
  | setCounter name location stack => t.setCounter name location stack
  | align alignment => t.align alignment
  | reserve length => t.reserve length

/-- The table behind operations, the first of which comes first. -/
def perform (t : SymbolTable) (ops : List Operation) : SymbolTable := ops.foldl Operation.apply t

theorem perform_append (t : SymbolTable) (ops ops' : List Operation) :
    t.perform (ops ++ ops') = (t.perform ops).perform ops' :=
  List.foldl_append

/-- What every operation preserves holds behind all of them. -/
theorem perform_induction {P : SymbolTable → Prop} (step : ∀ t (op : Operation), P t → P (op.apply t))
    {t : SymbolTable} (ht : P t) (ops : List Operation) : P (t.perform ops) := by
  induction ops generalizing t with
  | nil => exact ht
  | cons op rest ih => exact ih (step t op ht)

variable {t : SymbolTable} {name : String} {kind : SectionKind} {i : Nat}

/-! ### Symbols and sections in use -/

@[simp] theorem symbols_ensureSection (t : SymbolTable) : t.ensureSection.symbols = t.symbols := by
  unfold ensureSection
  split <;> rfl

@[simp] theorem symbols_mapCurrent (t : SymbolTable) (f : Section → Section) :
    (t.mapCurrent f).symbols = t.symbols := by
  unfold mapCurrent
  split <;> rfl

theorem symbols_align (t : SymbolTable) (n : Int32) : (t.align n).symbols = t.symbols := by
  simp [align]

theorem symbols_reserve (t : SymbolTable) (n : Int32) : (t.reserve n).symbols = t.symbols := by
  simp [reserve]

@[simp] theorem sections_define (t : SymbolTable) (s : Symbol) : (t.define s).sections = t.sections := by
  rw [define_eq]
  split <;> rfl

@[simp] theorem current_define (t : SymbolTable) (s : Symbol) : (t.define s).current = t.current := by
  rw [define_eq]
  split <;> rfl

@[simp] theorem current_mapCurrent (t : SymbolTable) (f : Section → Section) :
    (t.mapCurrent f).current = t.current := by
  unfold mapCurrent
  split <;> rfl

theorem mapCurrent_of_some (h : t.current = some i) (f : Section → Section) :
    t.mapCurrent f = { t with sections := t.sections.modify i f } := by
  unfold mapCurrent
  rw [h]

theorem ensureSection_of_some (h : t.current = some i) : t.ensureSection = t := by
  unfold ensureSection
  rw [h]

theorem ensureSection_of_none (h : t.current = none) : t.ensureSection = t.startSection "" .executable := by
  unfold ensureSection
  rw [h]

theorem exists_current_ensureSection (t : SymbolTable) : ∃ i, t.ensureSection.current = some i := by
  cases h : t.current with
  | some i => exact ⟨i, by rw [ensureSection_of_some h, h]⟩
  | none => exact ⟨_, by rw [ensureSection_of_none h]; rfl⟩

/-! ### Starting sections and counters -/

/-- The kind of the first section with the given name. -/
def firstKind? (t : SymbolTable) (name : String) : Option SectionKind :=
  (t.sections.find? (·.name == name)).map (·.kind)

/-- The first section of a name is the one that its index leads to. -/
theorem find?_sections (t : SymbolTable) (name : String) :
    t.sections.find? (·.name == name) = (t.sectionNamed? name).bind (t.sections[·]?) := by
  obtain ⟨⟨l⟩, -, -⟩ := t
  simp [sectionNamed?, List.find?_eq_bind_findIdx?_getElem?]

/-- The first section of its name is of the kind, and processing goes on with it. -/
theorem setSection_of_kind (h : t.firstKind? name = some kind) (l : Location) (stack : ProcessingStack) :
    t.setSection name kind l stack = { t with current := t.sectionNamed? name } := by
  obtain ⟨s, hs, hkind⟩ := Option.map_eq_some_iff.1 h
  rw [find?_sections] at hs
  obtain ⟨i, hi, hget⟩ := Option.bind_eq_some_iff.1 hs
  unfold setSection
  simp only [hi, hget, if_pos hkind]

/-- There is no section of the name, or the first one is of another kind, and a section is started. -/
theorem setSection_of_other (h : t.firstKind? name ≠ some kind) (l : Location) (stack : ProcessingStack) :
    t.setSection name kind l stack =
      (t.startSection name kind).define (sectionSymbol name t.sections.size l stack) := by
  unfold setSection
  dsimp only
  split
  · rename_i i hi
    split
    · rename_i s hget
      refine if_neg fun hkind => h ?_
      rw [firstKind?, find?_sections, hi, Option.bind_some, hget, Option.map_some, hkind]
    · rfl
  · rfl

/-- Going on with a counter of the section in use. -/
theorem setCounter_of_some {k : Nat} (l : Location) (stack : ProcessingStack)
    (h : (t.ensureSection.currentSection?.bind fun s => s.counters.findIdx? (·.name == name)) = some k) :
    t.setCounter name l stack = t.ensureSection.mapCurrent fun s => { s with current := k } := by
  unfold setCounter
  dsimp only
  rw [h]

/-- Starting a counter in the section in use. -/
theorem setCounter_of_none (l : Location) (stack : ProcessingStack)
    (h : (t.ensureSection.currentSection?.bind fun s => s.counters.findIdx? (·.name == name)) = none) :
    t.setCounter name l stack = (t.ensureSection.mapCurrent fun s =>
      { s with counters := s.counters.push { name }, current := s.counters.size }).define
        (sectionSymbol name ((t.ensureSection.mapCurrent fun s =>
          { s with counters := s.counters.push { name }, current := s.counters.size }).current.getD 0) l stack) := by
  unfold setCounter
  dsimp only
  rw [h]

/-! ### Coherence -/

/-- The section in use exists, and so does the counter in use of every section; where no section is in use, there is
none. -/
structure Coherent (t : SymbolTable) : Prop where
  current_lt : ∀ {i}, t.current = some i → i < t.sections.size
  started : t.current = none → t.sections = #[]
  counter_lt : ∀ {i : Nat} {s : Section}, t.sections[i]? = some s → s.current < s.counters.size

theorem coherent_empty : Coherent {} := ⟨nofun, fun _ => rfl, nofun⟩

/-- What leaves the sections alone. -/
theorem Coherent.of_sections {u : SymbolTable} (h : t.Coherent) (hs : u.sections = t.sections)
    (hc : u.current = t.current) : u.Coherent :=
  ⟨fun hi => hs ▸ h.current_lt (hc ▸ hi), fun hn => hs ▸ h.started (hc ▸ hn), fun hi => h.counter_lt (hs ▸ hi)⟩

theorem Coherent.startSection (h : t.Coherent) (name : String) (kind : SectionKind) :
    (t.startSection name kind).Coherent where
  current_lt hi := by
    obtain rfl := Option.some.inj hi
    simp [SymbolTable.startSection]
  started hn := nomatch hn
  counter_lt {i s} hi := by
    simp only [SymbolTable.startSection, Array.getElem?_push] at hi
    split at hi
    · obtain rfl := Option.some.inj hi
      exact Nat.one_pos
    · exact h.counter_lt hi

theorem Coherent.ensureSection (h : t.Coherent) : t.ensureSection.Coherent := by
  cases hc : t.current with
  | some i => rwa [ensureSection_of_some hc]
  | none =>
    rw [ensureSection_of_none hc]
    exact h.startSection ..

theorem Coherent.mapCurrent (h : t.Coherent) {f : Section → Section}
    (hf : ∀ s, t.currentSection? = some s → s.current < s.counters.size → (f s).current < (f s).counters.size) :
    (t.mapCurrent f).Coherent := by
  cases hc : t.current with
  | none => rwa [SymbolTable.mapCurrent, hc]
  | some i =>
    rw [mapCurrent_of_some hc]
    refine ⟨fun hj => ?_, fun hn => ?_, fun {j s} hj => ?_⟩
    · rw [Array.size_modify]
      exact h.current_lt hj
    · rw [hc] at hn
      cases hn
    · rw [Array.getElem?_modify] at hj
      split at hj
      · rename_i hij
        obtain ⟨r, hr, rfl⟩ := Option.map_eq_some_iff.1 hj
        refine hf r ?_ (h.counter_lt hr)
        rw [currentSection?, hc, Option.bind_some, hij, hr]
      · exact h.counter_lt hj

theorem Coherent.setSection (h : t.Coherent) (name : String) (kind : SectionKind) (l : Location)
    (stack : ProcessingStack) : (t.setSection name kind l stack).Coherent := by
  by_cases hkind : t.firstKind? name = some kind
  · rw [setSection_of_kind hkind]
    obtain ⟨s, hs, -⟩ := Option.map_eq_some_iff.1 hkind
    rw [find?_sections] at hs
    obtain ⟨i, hi, hget⟩ := Option.bind_eq_some_iff.1 hs
    have hlt := (Array.getElem?_eq_some_iff.1 hget).1
    refine ⟨fun hj => ?_, fun hn => ?_, h.counter_lt⟩
    · obtain rfl := Option.some.inj (hi.symm.trans hj)
      exact hlt
    · rw [hi] at hn
      cases hn
  · rw [setSection_of_other hkind]
    exact (h.startSection name kind).of_sections (sections_define ..) (current_define ..)

theorem Coherent.setCounter (h : t.Coherent) (name : String) (l : Location) (stack : ProcessingStack) :
    (t.setCounter name l stack).Coherent := by
  cases hk : t.ensureSection.currentSection?.bind fun s => s.counters.findIdx? (·.name == name) with
  | some k =>
    rw [setCounter_of_some l stack hk]
    refine h.ensureSection.mapCurrent fun s hs _ => ?_
    rw [hs, Option.bind_some] at hk
    exact (Array.findIdx?_eq_some_iff_getElem.1 hk).1
  | none =>
    rw [setCounter_of_none l stack hk]
    refine (h.ensureSection.mapCurrent fun s _ _ => ?_).of_sections (sections_define ..) (current_define ..)
    simp

theorem Coherent.mapOffset (h : t.Coherent) (f : Int32 → Int32) :
    (t.ensureSection.mapCurrent (·.mapOffset f)).Coherent :=
  h.ensureSection.mapCurrent fun s _ hs => by
    unfold Section.mapOffset
    rwa [Array.size_modify]

/-- **An operation keeps the table coherent.** -/
theorem Coherent.apply (h : t.Coherent) (op : Operation) : (op.apply t).Coherent := by
  cases op with
  | define s => exact h.of_sections (sections_define ..) (current_define ..)
  | setSection name kind l stack => exact h.setSection ..
  | ensureSection => exact h.ensureSection
  | setCounter name l stack => exact h.setCounter ..
  | align n => exact h.mapOffset _
  | reserve n => exact h.mapOffset _

theorem Coherent.perform (h : t.Coherent) (ops : List Operation) : (t.perform ops).Coherent :=
  perform_induction (P := Coherent) (fun _ op ht => ht.apply op) h ops

end AssemblerIndex.SymbolTable
