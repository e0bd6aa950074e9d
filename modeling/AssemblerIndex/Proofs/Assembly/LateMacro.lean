import AssemblerIndex.Proofs.Assembly.Congruence
import AssemblerIndex.Proofs.Assembly.Reading
import AssemblerIndex.Proofs.Expression.Opcodes

/-!
# A macro that is loaded when it is needed

Two assemblies work with the same library, but the one has a macro of it in its table of macros that the other one
has not loaded yet.  Everything else in them is the same, apart from places and from the numbers of definitions: they
are `Akin`.  Where the one finds the macro, the other one loads it, so they stay akin; only attribute references to
operation codes tell them apart.  So being akin is a way to compare assemblies (`LibraryMacro.congruence`).
-/

namespace AssemblerIndex

open Assembly

/-- A text that the statement evaluates, or in which it replaces variable symbols, asks for an operation code. -/
def Statement.asksOpcode (s : Statement) : Bool :=
  (s.labelText :: fieldText s.instruction :: s.expressions).any Expression.asksOpcode

/-- A macro that a library defines, and what it does when it is called. -/
structure LibraryMacro where
  library : Library
  name : String
  definition : MacroDefinition
  notInstruction : instructionKind? name = none
  defined : library.definedMacro? name = some name
  loaded : ∀ {a : Assembly} {d}, a.Sound → a.library = library → (a.loadMacro name).2 = some d → d.bare = definition

namespace LibraryMacro

variable (M : LibraryMacro)

/-- Two tables hold the same definition under a name, apart from places, or only the second one holds the macro. -/
def SameMacro (name : String) (d d' : Option MacroDefinition) : Prop :=
  d.map (·.bare) = d'.map (·.bare) ∨ name = M.name ∧ d = none ∧ d'.map (·.bare) = some M.definition

/-- The assemblies are the same apart from places, numbers of definitions and the macro. -/
structure Near (a b : Assembly) : Prop where
  context : a.context.core.bare = b.context.core.bare
  settings : a.settings = b.settings
  refused : a.refused = b.refused
  leftLibrary : a.library = M.library
  rightLibrary : b.library = M.library
  macros : ∀ n, M.SameMacro n (a.context.macros.find? n) (b.context.macros.find? n)

/-- The assemblies are the same apart from places, numbers of definitions and the macro, and their tables are in
order. -/
structure Akin (a b : Assembly) : Prop extends M.Near a b where
  left : a.Sound
  right : b.Sound

section Near

variable {M} {a b a' b' : Assembly}

theorem Near.of_core (h : M.Near a b) (ha : a'.core = a.core) (hb : b'.core = b.core) : M.Near a' b' := by
  obtain ⟨ha1, ha2, ha3, ha4⟩ := core_eq_iff.1 ha
  obtain ⟨hb1, hb2, hb3, hb4⟩ := core_eq_iff.1 hb
  refine ⟨?_, ?_, ?_, ha2.trans h.leftLibrary, hb2.trans h.rightLibrary, fun n => ?_⟩
  · rw [ha1, hb1, h.context]
  · rw [ha3, hb3, h.settings]
  · rw [ha4, hb4, h.refused]
  · rw [show a'.context.macros = a.context.macros from congrArg (·.macros) ha1,
      show b'.context.macros = b.context.macros from congrArg (·.macros) hb1]
    exact h.macros n

theorem Near.mapContext (h : M.Near a b) {f : Context → Context} (hf : Context.Natural f) :
    M.Near (a.mapContext f) (b.mapContext f) where
  context := by
    show (f a.context).core.bare = (f b.context).core.bare
    rw [hf.core, hf.core, hf.bare, hf.bare, h.context]
  settings := h.settings
  refused := h.refused
  leftLibrary := h.leftLibrary
  rightLibrary := h.rightLibrary
  macros n := by
    show M.SameMacro n ((f a.context).macros.find? n) ((f b.context).macros.find? n)
    rw [hf.macros, hf.macros]
    exact h.macros n

theorem Near.mapSymbols (h : M.Near a b) {f g : SymbolTable → SymbolTable}
    (hfg : (f a.context.symbols).core = (g b.context.symbols).core) : M.Near (a.mapSymbols f) (b.mapSymbols g) where
  context := by
    show ({ a.context.core.bare with symbols := (f a.context.symbols).core } : Context) =
      { b.context.core.bare with symbols := (g b.context.symbols).core }
    rw [h.context, hfg]
  settings := h.settings
  refused := h.refused
  leftLibrary := h.leftLibrary
  rightLibrary := h.rightLibrary
  macros := h.macros

/-- The states may change alike, as long as the macros stay as they are. -/
theorem Near.of_context (h : M.Near a b) {x y : Context} (hxy : x.core.bare = y.core.bare)
    (hx : x.macros = a.context.macros) (hy : y.macros = b.context.macros) :
    M.Near { a with context := x } { b with context := y } :=
  ⟨hxy, h.settings, h.refused, h.leftLibrary, h.rightLibrary, fun n => by
    dsimp only
    rw [hx, hy]
    exact h.macros n⟩

/-! ### What assemblies that are akin answer -/

theorem Near.symbols (h : M.Near a b) : a.context.symbols.core = b.context.symbols.core :=
  congrArg (·.symbols) h.context

theorem Near.operation (h : M.Near a b) (name : String) :
    a.context.operation name = b.context.operation name := congrArg (·.operation name) h.context

theorem Near.levels (h : M.Near a b) : a.context.levels = b.context.levels := congrArg (·.levels) h.context

theorem Near.sources (h : M.Near a b) : a.context.sources = b.context.sources := congrArg (·.sources) h.context

theorem Near.depth (h : M.Near a b) : a.context.depth = b.context.depth := by
  have hlength := congrArg (·.calls.length) h.context
  have key (x : Context) : x.core.bare.calls.length = x.calls.length := List.length_map _
  exact congrArg (· + 1) ((key _).symm.trans (hlength.trans (key _)))

theorem Near.counter (h : M.Near a b) : a.context.scope.branchCounter = b.context.scope.branchCounter := by
  rw [← Context.branchCounter_core, ← Context.scope_bare, h.context, Context.scope_bare, Context.branchCounter_core]

/-- Expressions see the same, unless they ask for an operation code. -/
theorem Akin.environment (h : M.Akin a b) :
    (Expression.environment a.context).SameButOpcodes (Expression.environment b.context) where
  visible := by
    show a.context.visible? = b.context.visible?
    rw [← Context.visible?_core, ← Context.visible?_bare, h.context, Context.visible?_bare, Context.visible?_core]
  symbol := by
    funext name
    show Expression.symbolTerm a.context name = Expression.symbolTerm b.context name
    unfold Expression.symbolTerm
    rw [← SymbolTable.value?_core, h.symbols, SymbolTable.value?_core]
  symbolAttribute k hk := by
    funext name
    show a.context.symbolAttribute k (Expression.knownName a.context name) =
      b.context.symbolAttribute k (Expression.knownName b.context name)
    rw [symbolAttribute_knownName h.left, symbolAttribute_knownName h.right, ← Context.symbolAttribute_core,
      ← Context.symbolAttribute_core b.context, ← Context.symbolAttribute_bare _ hk, h.context,
      Context.symbolAttribute_bare _ hk]
  variableAttribute k hk := by
    show a.context.variableAttribute k = b.context.variableAttribute k
    rw [← Context.variableAttribute_core, ← Context.variableAttribute_core b.context,
      ← Context.variableAttribute_bare _ hk, h.context, Context.variableAttribute_bare _ hk]

theorem Akin.of_core (h : M.Akin a b) (ha : a'.core = a.core) (hb : b'.core = b.core) (hsa : a'.Sound)
    (hsb : b'.Sound) : M.Akin a' b' := ⟨h.toNear.of_core ha hb, hsa, hsb⟩

/-- A SET symbol is assigned on both sides or on neither. -/
theorem Akin.assign? (h : M.Akin a b) (name : String) (subscript : Option Nat) (v : SetValue) :
    Option.Rel (fun x y => M.Akin { a with context := x } { b with context := y })
      (a.context.assign? name subscript v) (b.context.assign? name subscript v) := by
  have key (x : Context) : (x.assign? name subscript v).map (fun y => y.core.bare) =
      x.core.bare.assign? name subscript v := by
    rw [← Context.bare_assign?, ← Context.core_assign?, Option.map_map]
    rfl
  have hassign := (key a.context).trans ((congrArg (·.assign? name subscript v) h.context).trans
    (key b.context).symm)
  cases hx : a.context.assign? name subscript v with
  | none =>
    rw [hx] at hassign
    rw [Option.map_eq_none_iff.1 hassign.symm]
    exact .none
  | some x =>
    rw [hx] at hassign
    obtain ⟨y, hy, hxy⟩ := Option.map_eq_some_iff.1 hassign.symm
    rw [hy]
    exact .some ⟨h.toNear.of_context hxy.symm (Context.macros_assign? hx) (Context.macros_assign? hy),
      (keeps_assign? hx).sound h.left, (keeps_assign? hy).sound h.right⟩

/-! ### Definitions -/

/-- Definitions that are the same when they are bare may be registered on both sides. -/
theorem Near.register (h : M.Near a b) {u v : MacroRecord} (huv : u.definition.bare = v.definition.bare) :
    M.Near (a.register u).1 (b.register v).1 ∧ (a.register u).2.bare = (b.register v).2.bare := by
  obtain ⟨d, _, _, hd, hu⟩ := exists_register a u
  obtain ⟨d', _, _, hd', hv⟩ := exists_register b v
  have hbare : d.bare = d'.bare := hd.trans (huv.trans hd'.symm)
  rw [hu, hv]
  refine ⟨⟨h.context, h.settings, h.refused, h.leftLibrary, h.rightLibrary, fun n => ?_⟩, hbare⟩
  dsimp only
  rw [Table.find?_insert, Table.find?_insert, MacroDefinition.name_of_bare huv]
  split
  · exact .inl (congrArg some hbare)
  · exact h.macros n

/-- The macro may be registered on the left side alone. -/
theorem Near.register_left (h : M.Near a b) {u : MacroRecord} (hname : u.definition.name = M.name)
    (hbare : (a.register u).2.bare = M.definition)
    (hb : (b.context.macros.find? M.name).map (·.bare) = some M.definition) : M.Near (a.register u).1 b := by
  obtain ⟨d, _, _, hd, hu⟩ := exists_register a u
  rw [hu] at hbare ⊢
  refine ⟨h.context, h.settings, h.refused, h.leftLibrary, h.rightLibrary, fun n => ?_⟩
  dsimp only
  rw [Table.find?_insert, hname]
  split
  · rename_i hn
    rw [hn, SameMacro, hb]
    exact .inl (congrArg some hbare)
  · exact h.macros n

/-- The macro may be registered on the right side alone, if the left side has no macro of its name. -/
theorem Near.register_right (h : M.Near a b) {v : MacroRecord} (hname : v.definition.name = M.name)
    (hbare : (b.register v).2.bare = M.definition) (ha : a.context.macros.find? M.name = none) :
    M.Near a (b.register v).1 := by
  obtain ⟨d, _, _, hd, hv⟩ := exists_register b v
  rw [hv] at hbare ⊢
  refine ⟨h.context, h.settings, h.refused, h.leftLibrary, h.rightLibrary, fun n => ?_⟩
  dsimp only
  rw [Table.find?_insert, hname]
  split
  · rename_i hn
    rw [hn]
    exact .inr ⟨rfl, ha, congrArg some hbare⟩
  · exact h.macros n

theorem Near.define (h : M.Near a b) (ha : a.Sound) (hb : b.Sound) {items items' : List NestedStatement}
    (hitems : List.Forall₂ SameStatement items items') (isExternal : Bool) :
    M.Near (a.define items isExternal).1 (b.define items' isExternal).1 ∧
      Option.Rel (fun d d' => d.bare = d'.bare) (a.define items isExternal).2 (b.define items' isExternal).2 := by
  have hdefined := defined_define ha hb (h.leftLibrary.trans h.rightLibrary.symm) hitems isExternal isExternal
  generalize a.define items isExternal = u at hdefined ⊢
  generalize b.define items' isExternal = v at hdefined ⊢
  cases hdefined with
  | none => exact ⟨h, .none⟩
  | some left right _ _ same =>
    obtain ⟨h1, h2⟩ := (h.of_core (core_loads left) (core_loads right)).register same
    exact ⟨h1, .some h2⟩

/-! ### Macros of the library -/

theorem sameItems (items : List NestedStatement) : List.Forall₂ SameStatement items items :=
  forall₂_sameStatement.2 rfl

/-- The library is asked on both sides. -/
theorem Akin.loadMacro (h : M.Akin a b) (name : String) :
    M.Akin (a.loadMacro name).1 (b.loadMacro name).1 ∧
      Option.Rel (fun d d' => d.bare = d'.bare) (a.loadMacro name).2 (b.loadMacro name).2 := by
  have ha := (spares_loadMacro a name).sound h.left
  have hb := (spares_loadMacro b name).sound h.right
  suffices hs : M.Near (a.loadMacro name).1 (b.loadMacro name).1 ∧
      Option.Rel (fun d d' => d.bare = d'.bare) (a.loadMacro name).2 (b.loadMacro name).2 from
    ⟨⟨hs.1, ha, hb⟩, hs.2⟩
  have refuse {x y : Assembly} (h : M.Near x y) :
      M.Near { x with refused := name :: x.refused } { y with refused := name :: y.refused } :=
    ⟨h.context, h.settings, congrArg (name :: ·) h.refused, h.leftLibrary, h.rightLibrary, h.macros⟩
  have hrefused : a.refused.contains name = b.refused.contains name := by rw [h.refused]
  have hfind : a.library.find? name = b.library.find? name := by rw [h.leftLibrary, h.rightLibrary]
  unfold Assembly.loadMacro
  rw [hrefused, hfind]
  split
  · exact ⟨h.toNear, .none⟩
  · split
    · exact ⟨refuse h.toNear, .none⟩
    · rename_i found _
      dsimp only
      generalize throughMend 0 _ = items
      obtain ⟨h1, h2⟩ := (h.toNear.mapContext (f := (·.pushSource .macroDefinition found.uri))
        ⟨fun _ => rfl, fun _ => rfl, fun _ => rfl⟩).define (h.left.of_names rfl fun _ => id)
        (h.right.of_names rfl fun _ => id) (sameItems items) true
      have pop (c : Assembly) :
          ((c.mapContext (·.pushSource .macroDefinition found.uri)).define items true).1.attempt Context.popLevel =
            ((c.mapContext (·.pushSource .macroDefinition found.uri)).define items true).1.mapContext fun x =>
              { x with levels := c.context.levels, sources := c.context.sources } :=
        attempt_popLevel (l := ⟨.macroDefinition, true⟩) (s := .start found.uri :: c.context.sources) rfl
          (spares_define (c.mapContext (·.pushSource .macroDefinition found.uri)) items true).toStays
      rw [pop a, pop b, h.levels, h.sources]
      generalize (a.mapContext _).define items true = u at h1 h2 ⊢
      generalize (b.mapContext _).define items true = v at h1 h2 ⊢
      obtain ⟨a', d⟩ := u
      obtain ⟨b', d'⟩ := v
      have hpop := h1.mapContext (f := fun x => { x with levels := b.context.levels, sources := b.context.sources })
        ⟨fun _ => rfl, fun _ => rfl, fun _ => rfl⟩
      dsimp only at h2 hpop ⊢
      cases h2 with
      | none => exact ⟨refuse hpop, .none⟩
      | @some d d' hd =>
        rw [Option.filter_some, Option.filter_some, MacroDefinition.name_of_bare hd]
        cases d'.name == name with
        | false => exact ⟨refuse hpop, .none⟩
        | true => exact ⟨hpop.of_core (core_addFile ..) (core_addFile ..), .some hd⟩

/-- The macro is never refused. -/
theorem exists_loadMacro (M : LibraryMacro) (ha : a.Sound) (hl : a.library = M.library) :
    ∃ file content text x r, a.Loads x ∧ r.definition.name = M.name ∧
      a.loadMacro M.name = ((x.register r).1.addFile file content text, some (x.register r).2) := by
  have hdefined := M.defined
  have hsought := sought_loadMacro a M.name
  generalize a.loadMacro M.name = res at hsought ⊢
  rw [← hl] at hdefined
  cases hsought with
  | refused hrefused => exact absurd hdefined (ha.refusal hrefused)
  | absent _ hnone => simp [hnone] at hdefined
  | other _ hother hne => exact absurd (Option.some.inj (hother.symm.trans hdefined)) hne
  | found _ _ _ hloads _ hname => exact ⟨_, _, _, _, _, hloads, hname, rfl⟩

/-- The left side has loaded the macro, which only the right side had. -/
theorem Akin.loadMacro_left (h : M.Akin a b)
    (hb : (b.context.macros.find? M.name).map (·.bare) = some M.definition) :
    M.Akin (a.loadMacro M.name).1 b ∧ ∃ d, (a.loadMacro M.name).2 = some d ∧ d.bare = M.definition := by
  have ha := (spares_loadMacro a M.name).sound h.left
  obtain ⟨file, content, text, x, r, hloads, hname, hload⟩ := M.exists_loadMacro h.left h.leftLibrary
  have hd : (x.register r).2.bare = M.definition := M.loaded h.left h.leftLibrary (by rw [hload])
  rw [hload] at ha ⊢
  exact ⟨⟨((h.toNear.of_core (core_loads hloads) rfl).register_left hname hd hb).of_core (core_addFile ..) rfl, ha,
    h.right⟩, _, rfl, hd⟩

theorem Akin.meet (h : M.Akin a b) (names : List String) : M.Akin (a.meet names) (b.meet names) :=
  h.of_core (core_meet ..) (core_meet ..) ((spares_meet ..).sound h.left) ((spares_meet ..).sound h.right)

/-- **What an operation code calls are twins**, whether the macro is found or loaded. -/
theorem Akin.macro? (h : M.Akin a b) (opcode : String) :
    M.Akin (a.macro? opcode).1 (b.macro? opcode).1 ∧
      Option.Rel (fun d d' => d.bare = d'.bare) (a.macro? opcode).2 (b.macro? opcode).2 := by
  unfold Assembly.macro?
  split
  · exact ⟨h, .none⟩
  · have hm := h.meet [opcode]
    generalize a.meet [opcode] = x at hm ⊢
    generalize b.meet [opcode] = y at hm ⊢
    dsimp only
    rw [hm.operation]
    generalize y.context.operation opcode = name
    split
    · exact ⟨hm, .none⟩
    · rcases hm.macros name with hsame | ⟨rfl, hleft, hright⟩
      · cases hx : x.context.macros.find? name with
        | none =>
          rw [hx] at hsame
          rw [Option.map_eq_none_iff.1 hsame.symm]
          dsimp only
          split
          · exact ⟨hm, .none⟩
          · exact hm.loadMacro name
        | some d =>
          rw [hx] at hsame
          obtain ⟨d', hy, hd⟩ := Option.map_eq_some_iff.1 hsame.symm
          rw [hy]
          exact ⟨hm, .some hd.symm⟩
      · obtain ⟨hload, d, hd, hbare⟩ := hm.loadMacro_left hright
        obtain ⟨d', hy, hd'⟩ := Option.map_eq_some_iff.1 hright
        rw [hleft, hy, M.notInstruction]
        dsimp only [Option.isSome_none]
        rw [if_neg Bool.false_ne_true, hd]
        exact ⟨hload, .some (hbare.trans hd'.symm)⟩

/-- Where the left side has a definition under a name, or the name is not that of the macro, the right side has one if
and only if the left side does. -/
theorem Near.contains (h : M.Near a b) {name : String}
    (hname : name ≠ M.name ∨ a.context.macros.contains name = true) :
    a.context.macros.contains name = b.context.macros.contains name := by
  unfold Table.contains at hname ⊢
  rcases h.macros name with hsame | ⟨rfl, hleft, -⟩
  · have := congrArg Option.isSome hsame
    rwa [Option.isSome_map, Option.isSome_map] at this
  · rw [hleft] at hname
    simp at hname

/-- A synonym of the same operation code is entered on both sides or on neither. -/
theorem Akin.addSynonym (h : M.Akin a b) {name target : String} (hname : name ≠ "")
    (hcontains : a.context.macros.contains target = b.context.macros.contains target) :
    M.Akin (a.attempt (·.addSynonym name target)) (b.attempt (·.addSynonym name target)) := by
  refine ⟨?_, (spares_addSynonym a hname target).sound h.left, (spares_addSynonym b hname target).sound h.right⟩
  have entered (t : String) := h.toNear.mapContext (f := fun x => { x with synonyms := x.synonyms.insert name t })
    ⟨fun _ => rfl, fun _ => rfl, fun _ => rfl⟩
  have hsynonym : a.context.synonyms.find? target = b.context.synonyms.find? target :=
    congrArg (·.synonyms.find? target) h.context
  unfold attempt Context.addSynonym
  dsimp only
  rw [hsynonym, hcontains]
  cases b.context.synonyms.find? target with
  | some t => exact entered t
  | none =>
    dsimp only
    by_cases hknown : (b.context.macros.contains target || (instructionKind? target).isSome) = true
    · rw [if_pos hknown, if_pos hknown]
      exact entered target
    · rw [if_neg hknown, if_neg hknown]
      exact h.toNear.of_core rfl rfl

/-- The target of a synonym is looked for in the library unless it is known, and then it is known on both sides or on
neither. -/
theorem Akin.known (h : M.Akin a b) (target : String) {a' b' : Assembly}
    (ha' : (if a.context.macros.contains target || (instructionKind? target).isSome then a
      else (a.loadMacro target).1) = a')
    (hb' : (if b.context.macros.contains target || (instructionKind? target).isSome then b
      else (b.loadMacro target).1) = b') :
    M.Akin a' b' ∧ a'.context.macros.contains target = b'.context.macros.contains target := by
  by_cases hname : target = M.name
  · subst hname
    rw [M.notInstruction, Option.isSome_none, Bool.or_false] at ha' hb'
    suffices hs : M.Akin a' b' ∧ a'.context.macros.contains M.name = true from ⟨hs.1, hs.1.contains (.inr hs.2)⟩
    by_cases hleft : a.context.macros.contains M.name = true
    · rw [if_pos hleft] at ha'
      rw [← h.contains (.inr hleft), if_pos hleft] at hb'
      subst ha' hb'
      exact ⟨h, hleft⟩
    · have hloaded : (a.loadMacro M.name).1.context.macros.contains M.name = true := by
        obtain ⟨_, _, _, x, r, -, -, hload⟩ := M.exists_loadMacro h.left h.leftLibrary
        unfold Table.contains
        rw [(find?_of_loadMacro (d := (x.register r).2) (by rw [hload])).2]
        rfl
      rw [if_neg hleft] at ha'
      subst ha'
      refine ⟨?_, hloaded⟩
      rcases h.macros M.name with hsame | ⟨-, -, hright⟩
      · have hcontains : b.context.macros.contains M.name = a.context.macros.contains M.name := by
          unfold Table.contains
          rw [← Option.isSome_map (f := (·.bare)), ← hsame, Option.isSome_map]
        rw [hcontains, if_neg hleft] at hb'
        subst hb'
        exact (h.loadMacro M.name).1
      · have hcontains : b.context.macros.contains M.name = true := by
          unfold Table.contains
          rw [← Option.isSome_map (f := (·.bare)), hright]
          rfl
        rw [if_pos hcontains] at hb'
        subst hb'
        exact (h.loadMacro_left hright).1
  · rw [h.contains (.inl hname)] at ha'
    suffices hs : M.Akin a' b' from ⟨hs, hs.contains (.inl hname)⟩
    subst ha' hb'
    split
    · exact h
    · exact (h.loadMacro target).1

theorem Akin.defineSynonym (h : M.Akin a b) (s : Statement) : M.Akin (a.defineSynonym s) (b.defineSynonym s) := by
  unfold Assembly.defineSynonym
  split
  · exact h
  · rename_i name hlabel
    have hname := ne_empty_of_ordinaryLabel? hlabel
    have hm := h.meet [name]
    dsimp only
    split
    · rename_i c cs _ _ _
      obtain ⟨hk, hcontains⟩ := (hm.meet [String.ofList (Text.upperChars (c :: cs))]).known _ rfl rfl
      exact hk.addSynonym hname hcontains
    · exact ⟨hm.toNear.mapContext ⟨fun _ => rfl, fun _ => rfl, fun _ => rfl⟩,
        (spares_insertSynonym hname "").sound hm.left, (spares_insertSynonym hname "").sound hm.right⟩

/-! ### Calls -/

theorem Akin.callMacro (h : M.Akin a b) {d d' : MacroDefinition} (hd : a.context.macros.find? d.name = some d)
    (hd' : b.context.macros.find? d'.name = some d') (hbare : d.bare = d'.bare) (s : Statement) (f : Nat → Nat) :
    M.Akin (a.callMacro d s).1 (b.callMacro d' s).1 ∧
      SameFlow (fun d d' => d.bare = d'.bare) f (a.callMacro d s).2 (b.callMacro d' s).2 := by
  have ha := sound_callMacro h.left hd s
  have hb := sound_callMacro h.right hd' s
  suffices hs : M.Near (a.callMacro d s).1 (b.callMacro d' s).1 ∧
      SameFlow (fun d d' => d.bare = d'.bare) f (a.callMacro d s).2 (b.callMacro d' s).2 from
    ⟨⟨hs.1, ha, hb⟩, hs.2⟩
  unfold Assembly.callMacro
  rw [h.settings, h.depth]
  split
  · exact ⟨h.toNear, .next⟩
  · dsimp only
    generalize s.operands.map (fun o => Argument.ofText o.text) = args
    have hm := h.meet (args.filterMap (·.keyword))
    rw [MacroDefinition.name_of_bare hbare] at hd ⊢
    obtain ⟨x, y, hx, hy, hxy, hmx, hmy, hix, hiy⟩ := Context.bare_enterMacro hm.context hd hd' hbare (labelData? s) args
    rw [hx, hy]
    dsimp only
    rw [hix, hiy]
    exact ⟨hm.toNear.of_context hxy hmx hmy, .call hbare⟩

end Near

/-- Assemblies that are akin are compared by the bare definitions of their macros, and expressions by what they make of
surroundings that differ in operation codes. -/
def congruence : Congruence where
  Rel := M.Akin
  Twin d d' := d.bare = d'.bare
  SameItem := SameStatement
  Agree := Expression.Environment.SameButOpcodes
  sound h := ⟨h.left, h.right⟩
  library h := h.leftLibrary.trans h.rightLibrary.symm
  symbols h := h.symbols
  operation h := h.operation
  counter h := h.counter
  environment h := h.environment
  visible h := h.visible
  body h := MacroDefinition.body_of_bare h
  offset h := MacroDefinition.offset_of_bare h
  nested {d d'} h := by
    have key (e : MacroDefinition) : e.nestedBody.map (·.statement) = e.body.toList := by
      unfold MacroDefinition.nestedBody
      refine List.ext_getElem? fun i => ?_
      rw [List.getElem?_map, List.getElem?_mapIdx, Option.map_map]
      cases e.body.toList[i]? <;> rfl
    rw [forall₂_sameStatement, key, key, MacroDefinition.body_of_bare h]
  statement h := h
  of_core h := h.of_core
  mapContext h hf ha hb := ⟨h.toNear.mapContext hf, ha, hb⟩
  mapSymbols h hfg ha hb := ⟨h.toNear.mapSymbols hfg, ha, hb⟩
  assign? h := h.assign?
  define {a b _ _} h hitems := ⟨(h.toNear.define h.left h.right hitems false).1, (spares_define ..).sound h.left,
    (spares_define ..).sound h.right⟩
  macro? h := h.macro?
  callMacro h hd hd' hbare := h.callMacro hd hd' hbare
  defineSynonym h := h.defineSynonym

/-- Statements that do not ask for operation codes do not tell apart what is akin. -/
theorem fixes {s : Statement} (h : s.asksOpcode = false) : M.congruence.Fixes s := by
  unfold Statement.asksOpcode at h
  have quiet {t : List Char} (ht : t ∈ s.labelText :: fieldText s.instruction :: s.expressions) :
      Expression.asksOpcode t = false := by
    rw [List.any_eq_false] at h
    exact Bool.eq_false_iff.2 (h t ht)
  constructor
  · intro t ht e e' he
    exact Expression.value_expression_eq he (quiet (by simp [ht]))
  · intro e e' he
    exact Expression.substituteIn_eq he _ (quiet (by simp))
  · intro e e' he
    exact Expression.substituteIn_eq he _ (quiet (by simp))
  · intro e e' he
    exact Expression.substituteIn_eq he _ (quiet (by simp [Statement.expressions]))

end LibraryMacro

end AssemblerIndex
