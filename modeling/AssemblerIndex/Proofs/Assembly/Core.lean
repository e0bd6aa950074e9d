import AssemblerIndex.Proofs.Assembly.Process

/-!
# The core of an assembly

Where statements were written does not bear on what they do.  `core` leaves the places out: those of the
source and of the symbols, the labels of open code, whose indices are places in a listing, and what is only
recorded.  It also leaves out which names have been met and which copy members have been loaded, since in
an assembly whose tables are in order the names that stand for something have been met and the copy members
are those of the library.  Two assemblies with the same core are `Alike`.
-/

namespace AssemblerIndex

/-! ### Cores -/

/-- The table without the places of its symbols. -/
def SymbolTable.core (t : SymbolTable) : SymbolTable :=
  { t with symbols := t.symbols.map fun s => { s with location := default, stack := [] } }

/-- The scope without its labels. -/
def Scope.core (s : Scope) : Scope := { s with sequenceSymbols := {} }

/-- The state without places, names that have been met and copy members that have been loaded. -/
def Context.core (x : Context) : Context :=
  { x with
    names := ∅
    openCode := x.openCode.core
    base := default
    copyMembers := {}
    symbols := x.symbols.core
    visited := [] }

/-- The assembly without places and without what is recorded. -/
def Assembly.core (a : Assembly) : Assembly :=
  { context := a.context.core
    library := a.library
    settings := a.settings
    control := []
    files := {}
    refused := a.refused }

namespace SymbolTable

theorem find?_core (t : SymbolTable) (n : String) :
    t.core.find? n = (t.find? n).map fun s => { s with location := default, stack := [] } := by
  unfold find? core
  rw [Array.find?_map]
  rfl

theorem isFree_core (t : SymbolTable) (n : String) : t.core.isFree n = t.isFree n := by
  unfold isFree
  rw [find?_core, Option.isNone_map]

theorem value?_core (t : SymbolTable) (n : String) : t.core.value? n = t.value? n := by
  unfold value?
  rw [find?_core, Option.map_map]
  rfl

/-- What a symbol is defined as counts, and not where. -/
theorem core_define {t u : SymbolTable} (h : t.core = u.core) {s r : Symbol}
    (hs : (s.name, s.value, s.attributes) = (r.name, r.value, r.attributes)) :
    (t.define s).core = (u.define r).core := by
  simp only [Prod.mk.injEq] at hs
  obtain ⟨hn, hv, ha⟩ := hs
  have hfree : t.isFree s.name = u.isFree r.name := by rw [← isFree_core, h, isFree_core, hn]
  rw [define_eq, define_eq, hfree]
  split
  · unfold core at h ⊢
    simp only [mk.injEq] at h
    simp only [Array.map_push, h, hn, hv, ha]
  · exact h

theorem core_mapCurrent (t : SymbolTable) (f : Section → Section) :
    (t.mapCurrent f).core = t.core.mapCurrent f := by
  unfold mapCurrent core
  dsimp only
  split <;> rfl

theorem core_ensureSection (t : SymbolTable) : t.ensureSection.core = t.core.ensureSection := by
  unfold ensureSection core
  dsimp only
  split <;> rfl

theorem core_align (t : SymbolTable) (n : Int32) : (t.align n).core = t.core.align n := by
  unfold align
  rw [core_mapCurrent, core_ensureSection]

theorem core_reserve (t : SymbolTable) (n : Int32) : (t.reserve n).core = t.core.reserve n := by
  unfold reserve
  rw [core_mapCurrent, core_ensureSection]

theorem core_startSection (t : SymbolTable) (name : String) (kind : SectionKind) :
    (t.startSection name kind).core = t.core.startSection name kind := rfl

theorem place_core (t : SymbolTable) : t.core.place = t.place := rfl

theorem core_setSection {t u : SymbolTable} (h : t.core = u.core) (name : String) (kind : SectionKind)
    (l l' : Location) (stack stack' : ProcessingStack) :
    (t.setSection name kind l stack).core = (u.setSection name kind l' stack').core := by
  have hs : t.sections = u.sections := congrArg (·.sections) h
  have fresh : ((t.startSection name kind).define (sectionSymbol name t.sections.size l stack)).core =
      ((u.startSection name kind).define (sectionSymbol name u.sections.size l' stack')).core := by
    refine core_define ?_ (by rw [hs]; rfl)
    rw [core_startSection, core_startSection, h]
  unfold setSection sectionNamed?
  rw [hs] at fresh ⊢
  dsimp only
  split
  · split
    · split
      · rename_i i _ _ _ _ _
        have hy : t.core.symbols = u.core.symbols := congrArg (·.symbols) h
        show (⟨u.sections, some i, t.core.symbols⟩ : SymbolTable) = ⟨u.sections, some i, u.core.symbols⟩
        rw [hy]
      · exact fresh
    · exact fresh
  · exact fresh

theorem core_setCounter {t u : SymbolTable} (h : t.core = u.core) (name : String) (l l' : Location)
    (stack stack' : ProcessingStack) :
    (t.setCounter name l stack).core = (u.setCounter name l' stack').core := by
  have he : t.ensureSection.core = u.ensureSection.core := by
    rw [core_ensureSection, core_ensureSection, h]
  have hc : t.ensureSection.currentSection? = u.ensureSection.currentSection? :=
    congrArg (·.currentSection?) he
  have hm (f : Section → Section) :
      (t.ensureSection.mapCurrent f).core = (u.ensureSection.mapCurrent f).core := by
    rw [core_mapCurrent, core_mapCurrent, he]
  unfold setCounter
  dsimp only
  rw [hc]
  split
  · exact hm _
  · refine core_define (hm _) ?_
    have := congrArg (·.current) (hm fun s =>
      { s with counters := s.counters.push { name }, current := s.counters.size })
    unfold sectionSymbol
    rw [show (t.ensureSection.mapCurrent _).current = _ from this]
    rfl

theorem termValue_core (t : SymbolTable) (s : List Char) :
    t.core.termValue s = ((t.termValue s).1.core, (t.termValue s).2) := by
  unfold termValue
  split
  · rw [core_ensureSection]
    refine Prod.ext rfl ?_
    rw [← core_ensureSection]
    exact place_core _
  · split
    · rfl
    · unfold named?
      rw [find?_core, Option.map_map]
      rfl

theorem sumTerms_core (t : SymbolTable) (absolute : Int32) (base : Option (Nat × Int32))
    (terms : List SignedTerm) :
    t.core.sumTerms absolute base terms =
      ((t.sumTerms absolute base terms).1.core, (t.sumTerms absolute base terms).2) := by
  induction terms generalizing t absolute base with
  | nil =>
    unfold sumTerms
    split <;> rfl
  | cons term rest ih =>
    unfold sumTerms
    rw [termValue_core]
    generalize t.termValue term.text = u
    obtain ⟨t', value⟩ := u
    dsimp only
    split
    · exact ih ..
    · exact ih ..
    · split
      · exact ih ..
      · rfl
    · rfl

/-- The value of a sum does not depend on places. -/
theorem sumValue_core (t : SymbolTable) (s : List Char) :
    t.core.sumValue s = ((t.sumValue s).1.core, (t.sumValue s).2) := sumTerms_core ..

end SymbolTable

/-! ### What the core answers -/

namespace Context

variable {x y : Context}

theorem bindings_core (x : Context) : x.core.scope.bindings = x.scope.bindings := by
  unfold scope core
  dsimp only
  split <;> rfl

theorem visible?_core (x : Context) : x.core.visible? = x.visible? := by
  funext name
  have hsys : x.core.scope.systemVariables = x.scope.systemVariables := by
    unfold scope core
    dsimp only
    split <;> rfl
  unfold visible?
  rw [bindings_core, hsys]
  rfl

theorem symbolType_core (x : Context) (name : String) : x.core.symbolType name = x.symbolType name := by
  unfold symbolType
  rw [show x.core.symbols = x.symbols.core from rfl, SymbolTable.find?_core]
  cases x.symbols.find? name <;> rfl

theorem symbolAttribute_core (x : Context) : x.core.symbolAttribute = x.symbolAttribute := by
  funext a name
  unfold symbolAttribute
  rw [symbolType_core, show x.core.symbols = x.symbols.core from rfl, SymbolTable.find?_core]
  cases x.symbols.find? name <;> rfl

theorem variableAttribute_core (x : Context) : x.core.variableAttribute = x.variableAttribute := by
  have ht : x.core.valueType = x.valueType := by
    funext v
    unfold valueType
    rw [symbolType_core]
  funext a v subscripts
  unfold variableAttribute variableType
  rw [symbolAttribute_core, ht]

/-! ### Changes of the state -/

theorem core_mapScope (x : Context) {f : Scope → Scope} (hf : ∀ s, (f s).core = f s.core) :
    (x.mapScope f).core = x.core.mapScope f := by
  unfold mapScope core
  dsimp only
  split
  · rfl
  · dsimp only
    rw [hf]

theorem core_bind (x : Context) (name : String) (b : Binding) :
    (x.bind name b).core = x.core.bind name b := core_mapScope x fun _ => rfl

theorem core_declareLocal (x : Context) (name : String) (type : SetType) (isScalar : Bool) :
    (x.declareLocal name type isScalar).core = x.core.declareLocal name type isScalar := by
  unfold declareLocal
  rw [bindings_core]
  split
  · rfl
  · exact core_bind ..

theorem core_declareGlobal (x : Context) (name : String) (type : SetType) (isScalar : Bool) :
    (x.declareGlobal name type isScalar).core = x.core.declareGlobal name type isScalar := by
  unfold declareGlobal
  dsimp only
  rw [core_bind, show x.core.globals = x.globals from rfl]
  split <;> rfl

theorem core_assign? (x : Context) (name : String) (subscript : Option Nat) (v : SetValue) :
    (x.assign? name subscript v).map core = x.core.assign? name subscript v := by
  unfold assign?
  rw [bindings_core]
  split
  · exact congrArg some (core_bind ..)
  · rw [show x.core.globals = x.globals from rfl]
    cases x.globals.find? name <;> rfl
  · rw [show x.core.systemGlobals = x.systemGlobals from rfl]
    cases x.systemGlobals.find? name <;> rfl
  · rfl

theorem core_setBranchCounter (x : Context) (n : Int32) :
    (x.setBranchCounter n).core = x.core.setBranchCounter n := core_mapScope x fun _ => rfl

theorem core_countBranch (x : Context) : x.countBranch.core = x.core.countBranch :=
  core_mapScope x fun _ => rfl

theorem branchCounter_core (x : Context) : x.core.scope.branchCounter = x.scope.branchCounter := by
  unfold scope core
  dsimp only
  split <;> rfl

/-- Labels of open code do not belong to the core. -/
theorem core_addSequenceSymbol {x y : Context} {s : SequenceSymbol}
    (h : x.addSequenceSymbol s = .ok y) : y.core = x.core := by
  unfold addSequenceSymbol at h
  split at h
  · simp at h
  · split at h
    · obtain rfl := Except.ok.inj h
      rfl
    · obtain rfl := Except.ok.inj h
      rfl

theorem core_visit (x : Context) (file : String) : (x.visit file).core = x.core := by
  obtain ⟨v, hv, -⟩ := Assembly.exists_visit x file
  rw [hv]
  rfl

theorem core_addSynonym (x : Context) (name target : String) :
    (x.addSynonym name target).map core = x.core.addSynonym name target := by
  unfold addSynonym
  rw [show x.core.synonyms = x.synonyms from rfl, show x.core.macros = x.macros from rfl]
  dsimp only
  split
  · rfl
  · split <;> rfl

theorem core_popLevel (x : Context) : x.popLevel.map core = x.core.popLevel := by
  unfold popLevel
  rw [show x.core.levels = x.levels from rfl]
  split <;> rfl

theorem core_setMacroStatement (x : Context) (index : Nat) :
    (x.setMacroStatement index).core = x.core.setMacroStatement index := by
  unfold setMacroStatement core
  dsimp only
  split <;> rfl

theorem core_meet (x : Context) (names : List String) : (x.meet names).core = x.core := rfl

/-- A call is entered with what belongs to the core. -/
theorem core_called (x : Context) (c : Call) :
    (({ x with calls := c :: x.calls } : Context).mapScope
      (callScope { x with calls := c :: x.calls })).core =
      { x.core with
        calls := { c with scope := callScope { x.core with calls := c :: x.core.calls } c.scope } ::
          x.core.calls } := by
  rw [Assembly.mapScope_of_cons rfl]
  rfl

theorem core_enterMacro {x y : Context} (h : x.core = y.core) (name : String) (label : Option MacroData)
    (args : List Argument) :
    (x.enterMacro name label args).map core = (y.enterMacro name label args).map core := by
  have counted (z : Context) (names : List String) (file : String) :
      ({ (z.meet names).visit file with callCount := (z.meet names).callCount + 1 } : Context).core =
        { z.core with callCount := z.core.callCount + 1 } := by
    show ({ ((z.meet names).visit file).core with callCount := z.core.callCount + 1 } : Context) = _
    rw [core_visit, core_meet]
  have hm : x.macros.find? name = y.macros.find? name := congrArg (·.macros.find? name) h
  have hs : Scope.start x.branchLimit x.systemGlobals = Scope.start y.branchLimit y.systemGlobals := by
    have hs := congrArg (fun z : Context => Scope.start z.branchLimit z.systemGlobals) h
    exact hs
  unfold enterMacro
  rw [hm]
  cases y.macros.find? name with
  | none => rfl
  | some d =>
    refine congrArg Except.ok ?_
    dsimp only
    rw [counted, counted, core_called, core_called, h, hs]

end Context

namespace Assembly

variable {a b : Assembly}

theorem core_eq_iff : a.core = b.core ↔ a.context.core = b.context.core ∧ a.library = b.library ∧
    a.settings = b.settings ∧ a.refused = b.refused := by
  constructor
  · intro h
    exact ⟨congrArg (·.context) h, congrArg (·.library) h, congrArg (·.settings) h,
      congrArg (·.refused) h⟩
  · rintro ⟨h1, h2, h3, h4⟩
    unfold core
    rw [h1, h2, h3, h4]

theorem core_meet (a : Assembly) (names : List String) : (a.meet names).core = a.core := rfl

theorem core_addFile (a : Assembly) (file : String) (content : FileContent) (text : String) :
    (a.addFile file content text).core = a.core := by
  unfold addFile
  split <;> rfl

/-- The cores agree behind a change of the state that only depends on the core. -/
theorem core_mapContext (h : a.core = b.core) {f : Context → Context} (hf : ∀ x, (f x).core = f x.core) :
    (a.mapContext f).core = (b.mapContext f).core := by
  obtain ⟨h1, h2, h3, h4⟩ := core_eq_iff.1 h
  exact core_eq_iff.2 ⟨(hf _).trans ((congrArg f h1).trans (hf _).symm), h2, h3, h4⟩

/-- The cores agree behind a transition if its outcomes do. -/
theorem core_attempt (h : a.core = b.core) {f g : Context → Except ContextError Context}
    (hf : (f a.context).map Context.core = (g b.context).map Context.core) :
    (a.attempt f).core = (b.attempt g).core := by
  unfold attempt
  cases hx : f a.context with
  | error e =>
    cases hy : g b.context with
    | error e' => exact h
    | ok y => simp [hx, hy, Except.map] at hf
  | ok x =>
    cases hy : g b.context with
    | error e' => simp [hx, hy, Except.map] at hf
    | ok y =>
      rw [hx, hy] at hf
      have hxy : x.core = y.core := Except.ok.inj hf
      obtain ⟨-, h2, h3, h4⟩ := core_eq_iff.1 h
      exact core_eq_iff.2 ⟨hxy, h2, h3, h4⟩

end Assembly

end AssemblerIndex
