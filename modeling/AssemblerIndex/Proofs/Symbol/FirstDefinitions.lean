import AssemblerIndex.Proofs.Symbol.Operations

/-!
# First definitions of symbols

A symbol is tried to be defined by its label, by the start of a section and by the start of a location counter.  The
first attempt under a name other than the empty one succeeds, and it is final.

* `Operation.attempt?`, `attempts` — the symbol that an operation tries to define, and those that operations try to;
* `names_perform`, `find?_perform` — **the table behind operations lists the names that they try, each one once, and
  finds under a name what was tried first**;
* `prefix_symbols`, `find?_perform_of_some` — symbols stay as they are, and those that follow come behind them;
* `names_define` — the name of a symbol is appended to the others exactly if it is free;
* `first_definition_is_final` — these results, for the tables that come about by operations.
-/

namespace AssemblerIndex.SymbolTable

variable {t u : SymbolTable} {name : String} {r s : Symbol}

/-- The names of the symbols, in order of their definition. -/
def names (t : SymbolTable) : List String := t.symbols.toList.map (·.name)

theorem find?_eq (t : SymbolTable) (name : String) : t.find? name = t.symbols.toList.find? (·.name == name) :=
  (Array.find?_toList ..).symm

theorem find?_of_symbols (h : u.symbols = t.symbols) (name : String) : u.find? name = t.find? name := by
  rw [find?, h, find?]

theorem names_of_symbols (h : u.symbols = t.symbols) : u.names = t.names := by
  rw [names, h, names]

theorem name_of_find? (h : t.find? name = some s) : s.name = name := by
  simpa using Array.find?_some h

/-- The table finds symbols under their names alone. -/
theorem isSome_find?_iff : (t.find? name).isSome ↔ name ∈ t.names := by
  rw [find?_eq, List.find?_isSome, names, List.mem_map]
  simp only [beq_iff_eq]

theorem find?_eq_none_iff : t.find? name = none ↔ name ∉ t.names := by
  rw [← isSome_find?_iff, Option.not_isSome_iff_eq_none]

/-! ### Defining a symbol -/

/-- The names that can be defined are not empty and not defined yet. -/
theorem isFree_iff : t.isFree name ↔ name ≠ "" ∧ name ∉ t.names := by
  rw [isFree, Bool.and_eq_true, Option.isNone_iff_eq_none, find?_eq_none_iff]
  simp

theorem define_of_free (h : t.isFree s.name) : t.define s = { t with symbols := t.symbols.push s } := by
  rw [define_eq, if_pos h]

theorem define_of_not_free (h : ¬ t.isFree s.name) : t.define s = t := by
  rw [define_eq, if_neg h]

/-- Creating a symbol tells whether its name was free. -/
theorem create_snd (t : SymbolTable) (s : Symbol) : (t.create s).2 = t.isFree s.name := by
  unfold create
  split
  · rename_i hfree
    exact hfree.symm
  · rename_i hfree
    exact (Bool.eq_false_iff.2 hfree).symm

/-- **A symbol is appended exactly if its name is free.** -/
theorem names_define (t : SymbolTable) (s : Symbol) :
    (t.define s).names = if t.isFree s.name then t.names ++ [s.name] else t.names := by
  split
  · rename_i hfree
    rw [define_of_free hfree, names, Array.toList_push, List.map_append, names]
    rfl
  · rename_i hfree
    rw [define_of_not_free hfree]

/-- Behind a definition its name is taken by what had it before, or else by the symbol. -/
theorem find?_define_eq (t : SymbolTable) (s : Symbol) (h : name ≠ "") :
    (t.define s).find? name = (t.find? name).or (if s.name = name then some s else none) := by
  by_cases hfree : t.isFree s.name
  · rw [define_of_free hfree, find?, Array.find?_push, ← find?]
    simp
  · rw [define_of_not_free hfree]
    split
    · rename_i hname
      have hmem : name ∈ t.names :=
        Decidable.not_not.1 fun hnew => hfree (isFree_iff.2 ⟨hname ▸ h, hname ▸ hnew⟩)
      obtain ⟨r, hr⟩ := Option.isSome_iff_exists.1 (isSome_find?_iff.2 hmem)
      rw [hr, Option.some_or]
    · rw [Option.or_none]

/-! ### What operations define -/

/-- The symbol that an operation tries to define: the one that is given, the name of a section that is started, or the
name of a location counter that is started in the section in use. -/
def Operation.attempt? (t : SymbolTable) : Operation → Option Symbol
  | define s => some s
  | setSection name kind l stack =>
    if t.firstKind? name = some kind then none else some (sectionSymbol name t.sections.size l stack)
  | ensureSection => none
  | setCounter name l stack =>
    if (t.ensureSection.currentSection?.bind fun s => s.counters.findIdx? (·.name == name)).isSome then none
    else some (sectionSymbol name (t.ensureSection.current.getD 0) l stack)
  | align _ => none
  | reserve _ => none

/-- The symbols that operations try to define, one after the other. -/
def attempts (t : SymbolTable) : List Operation → List Symbol
  | [] => []
  | op :: rest => (op.attempt? t).toList ++ (op.apply t).attempts rest

/-- An operation leaves the symbols alone, or defines the one that it tries to. -/
theorem symbols_apply (op : Operation) (t : SymbolTable) :
    (op.attempt? t = none ∧ (op.apply t).symbols = t.symbols) ∨
      ∃ (s : Symbol) (u : SymbolTable), op.attempt? t = some s ∧ op.apply t = u.define s ∧ u.symbols = t.symbols := by
  cases op with
  | define s => exact .inr ⟨s, t, rfl, rfl, rfl⟩
  | setSection name kind l stack =>
    by_cases hkind : t.firstKind? name = some kind
    · refine .inl ⟨if_pos hkind, ?_⟩
      rw [Operation.apply, setSection_of_kind hkind]
    · exact .inr ⟨_, t.startSection name kind, if_neg hkind, setSection_of_other hkind l stack, rfl⟩
  | ensureSection => exact .inl ⟨rfl, symbols_ensureSection t⟩
  | setCounter name l stack =>
    cases hk : t.ensureSection.currentSection?.bind fun s => s.counters.findIdx? (·.name == name) with
    | some k =>
      refine .inl ⟨if_pos (by rw [hk]; rfl), ?_⟩
      rw [Operation.apply, setCounter_of_some l stack hk, symbols_mapCurrent, symbols_ensureSection]
    | none =>
      refine .inr ⟨_, t.ensureSection.mapCurrent fun s =>
        { s with counters := s.counters.push { name }, current := s.counters.size }, if_neg (by simp [hk]), ?_,
        (symbols_mapCurrent ..).trans (symbols_ensureSection t)⟩
      rw [Operation.apply, setCounter_of_none l stack hk, current_mapCurrent]
  | align n => exact .inl ⟨rfl, symbols_align t n⟩
  | reserve n => exact .inl ⟨rfl, symbols_reserve t n⟩

/-- The names behind an operation. -/
theorem names_apply (op : Operation) (t : SymbolTable) :
    (op.apply t).names = t.names ++ ((op.attempt? t).toList.map (·.name)).filter (t.isFree ·) := by
  rcases symbols_apply op t with ⟨hnone, hsame⟩ | ⟨s, u, hsome, hdefine, hsame⟩
  · rw [names_of_symbols hsame, hnone]
    simp
  · have hfree : u.isFree s.name = t.isFree s.name := by rw [isFree, isFree, find?_of_symbols hsame]
    rw [hdefine, names_define, hfree, names_of_symbols hsame, hsome, Option.toList_some, List.map_singleton,
      List.filter_cons, List.filter_nil]
    split
    · rfl
    · rw [List.append_nil]

/-- What is found behind an operation. -/
theorem find?_apply (op : Operation) (t : SymbolTable) (h : name ≠ "") :
    (op.apply t).find? name = (t.find? name).or ((op.attempt? t).toList.find? (·.name == name)) := by
  rcases symbols_apply op t with ⟨hnone, hsame⟩ | ⟨s, u, hsome, hdefine, hsame⟩
  · rw [find?_of_symbols hsame, hnone, Option.toList_none, List.find?_nil, Option.or_none]
  · rw [hdefine, find?_define_eq u s h, find?_of_symbols hsame, hsome, Option.toList_some, List.find?_singleton]
    simp only [beq_iff_eq]

/-- **Operations append the free names that they try, each one once**, in the order in which they are tried first. -/
theorem names_perform (t : SymbolTable) (ops : List Operation) :
    (t.perform ops).names = t.names ++ (((t.attempts ops).map (·.name)).filter (t.isFree ·)).eraseDups := by
  induction ops generalizing t with
  | nil => simp [perform, attempts]
  | cons op rest ih =>
    -- the names that are free behind the first operation are those that it does not define
    have hfree : ∀ n, (op.apply t).isFree n =
        (t.isFree n && !(((op.attempt? t).toList.map (·.name)).filter (t.isFree ·)).contains n) := by
      intro n
      rw [Bool.eq_iff_iff, isFree_iff, names_apply, Bool.and_eq_true, isFree_iff, List.mem_append, not_or, and_assoc,
        Bool.not_eq_true', List.contains_eq_mem, decide_eq_false_iff_not]
    calc ((op.apply t).perform rest).names
        = (op.apply t).names ++
            ((((op.apply t).attempts rest).map (·.name)).filter ((op.apply t).isFree ·)).eraseDups :=
          ih _
      _ = _ := by
        rw [names_apply, List.append_assoc, attempts, List.map_append, List.filter_append, List.eraseDups_append,
          List.removeAll, List.filter_filter]
        congr 2
        · cases op.attempt? t with
          | none => rfl
          | some s =>
            rw [Option.toList_some, List.map_singleton, List.filter_cons, List.filter_nil]
            split <;> rfl
        · congr 2
          funext n
          rw [hfree, Bool.and_comm, List.elem_eq_contains]

/-- **The table finds what it found before, or else what was tried first under the name.** -/
theorem find?_perform (t : SymbolTable) (ops : List Operation) (h : name ≠ "") :
    (t.perform ops).find? name = (t.find? name).or ((t.attempts ops).find? (·.name == name)) := by
  induction ops generalizing t with
  | nil => exact (Option.or_none ..).symm
  | cons op rest ih =>
    calc ((op.apply t).perform rest).find? name
        = ((op.apply t).find? name).or (((op.apply t).attempts rest).find? (·.name == name)) := ih _
      _ = _ := by rw [find?_apply op t h, Option.or_assoc, attempts, List.find?_append]

/-- Symbols stay where they are, and those that are defined later come behind them. -/
theorem prefix_symbols (t : SymbolTable) (ops : List Operation) :
    t.symbols.toList <+: (t.perform ops).symbols.toList := by
  refine perform_induction (P := fun u => t.symbols.toList <+: u.symbols.toList) (fun u op hu => ?_)
    (List.prefix_refl _) ops
  rcases symbols_apply op u with ⟨-, hsame⟩ | ⟨s, v, -, hdefine, hsame⟩
  · rwa [hsame]
  · rw [← hsame] at hu
    rw [hdefine]
    by_cases hfree : v.isFree s.name
    · rw [define_of_free hfree, Array.toList_push]
      exact hu.trans (List.prefix_append ..)
    · rwa [define_of_not_free hfree]

/-- **A symbol is never replaced.** -/
theorem find?_perform_of_some (h : t.find? name = some s) (ops : List Operation) :
    (t.perform ops).find? name = some s := by
  obtain ⟨rest, hrest⟩ := prefix_symbols t ops
  rw [find?_eq] at h
  rw [find?_eq, ← hrest, List.find?_append, h, Option.some_or]

/-! ### The tables that come about by operations -/

/-- The table lists no name twice, and not the empty one. -/
def WellListed (t : SymbolTable) : Prop := t.names.Nodup ∧ "" ∉ t.names

theorem WellListed.apply (h : t.WellListed) (op : Operation) : (op.apply t).WellListed := by
  have hnew {n : String} (hn : n ∈ ((op.attempt? t).toList.map (·.name)).filter (t.isFree ·)) :
      n ≠ "" ∧ n ∉ t.names := isFree_iff.1 (List.mem_filter.1 hn).2
  rw [WellListed, names_apply, List.nodup_append, List.mem_append, not_or]
  refine ⟨⟨h.1, ?_, fun m hm n hn hmn => (hnew hn).2 (hmn ▸ hm)⟩, h.2, fun hempty => (hnew hempty).1 rfl⟩
  refine List.Nodup.sublist List.filter_sublist ?_
  cases op.attempt? t <;> simp

theorem wellListed_perform (ops : List Operation) : (({} : SymbolTable).perform ops).WellListed :=
  have hempty : ({} : SymbolTable).names = [] := rfl
  perform_induction (P := WellListed) (fun _ op ht => ht.apply op)
    ⟨hempty ▸ List.nodup_nil, hempty ▸ List.not_mem_nil⟩ ops

/-- **The first definition of a symbol is final.**  Whatever operations the table came about by, it lists the names
that they tried to define, but for the empty one, each one once and in the order in which they were tried first.  It
finds a symbol under exactly these names: the one that was tried first under the name, which no further operations
change.  And the symbol that is created next is appended exactly if this is answered, which is so if its name is
neither empty nor listed, and nothing happens otherwise. -/
theorem first_definition_is_final (ops further : List Operation) :
    let tried := ({} : SymbolTable).attempts ops
    let t := ({} : SymbolTable).perform ops
    t.names = ((tried.map (·.name)).filter (· ≠ "")).eraseDups ∧ t.names.Nodup ∧ "" ∉ t.names ∧
      (∀ name, (t.find? name).isSome ↔ name ∈ t.names) ∧
      (∀ name s, t.find? name = some s → s.name = name ∧ tried.find? (·.name == name) = some s ∧
        (t.perform further).find? name = some s) ∧
      t.symbols.toList <+: (t.perform further).symbols.toList ∧
      ∀ s, ((t.create s).2 = true ↔ (t.create s).1.names = t.names ++ [s.name]) ∧
        ((t.create s).2 = true ↔ s.name ≠ "" ∧ s.name ∉ t.names) ∧
        (¬ (t.create s).2 = true → (t.create s).1 = t) := by
  intro tried t
  have hlisted : t.WellListed := wellListed_perform ops
  refine ⟨?_, hlisted.1, hlisted.2, fun name => isSome_find?_iff, fun name s hs => ?_, prefix_symbols t further,
    fun s => ?_⟩
  · refine (names_perform {} ops).trans ?_
    rw [show ({} : SymbolTable).names = [] from rfl, List.nil_append]
    congr 2
    funext n
    rw [Bool.eq_iff_iff, isFree_iff]
    simp [names]
  · have hne : name ≠ "" := fun hempty => hlisted.2 (isSome_find?_iff.1 (hempty ▸ Option.isSome_of_eq_some hs))
    refine ⟨name_of_find? hs, ?_, find?_perform_of_some hs further⟩
    rw [← hs]
    exact (find?_perform {} ops hne).symm
  · rw [create_snd]
    refine ⟨⟨fun hfree => (names_define t s).trans (if_pos hfree), fun happend => ?_⟩, isFree_iff, define_of_not_free⟩
    refine Decidable.not_not.1 fun htaken => ?_
    replace happend : (t.define s).names = t.names ++ [s.name] := happend
    rw [names_define, if_neg htaken] at happend
    simpa using congrArg List.length happend

end AssemblerIndex.SymbolTable
