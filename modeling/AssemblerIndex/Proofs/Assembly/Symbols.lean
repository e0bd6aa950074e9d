import AssemblerIndex.Proofs.Assembly.Effects
import AssemblerIndex.Proofs.Assembly.LibraryMacros
import AssemblerIndex.Proofs.Library
import AssemblerIndex.Proofs.Symbol.Operations

/-!
# Declaring, assigning and defining symbols

What works on SET symbols only changes variables of the innermost scope, and what works on ordinary
symbols only the table of these and the location counters in it: the first `Keeps` the rest, the second
`Spares` it.
-/

namespace AssemblerIndex

/-! ### Tables of symbols -/

namespace SymbolTable

/-- Defining a symbol adds nothing but this symbol. -/
theorem find?_define {t : SymbolTable} {s r : Symbol} {n : String}
    (h : (t.define s).find? n = some r) : t.find? n = some r ∨ n ≠ "" ∧ n = s.name := by
  rw [define_eq] at h
  split at h
  · rename_i hfree
    unfold find? at h ⊢
    rw [Array.find?_push] at h
    rcases Option.or_eq_some_iff.1 h with h | ⟨-, h⟩
    · exact .inl h
    · have hn : s.name = n := by grind
      refine .inr ⟨fun he => ?_, hn.symm⟩
      simp [isFree, hn, he] at hfree
  · exact .inl h

theorem symbols_termValue (t : SymbolTable) (s : List Char) :
    (t.termValue s).1.symbols = t.symbols := by
  unfold termValue
  split
  · simp
  · split <;> rfl

theorem symbols_sumTerms (t : SymbolTable) (absolute : Int32) (base : Option (Nat × Int32))
    (terms : List SignedTerm) : (t.sumTerms absolute base terms).1.symbols = t.symbols := by
  induction terms generalizing t absolute base with
  | nil =>
    unfold sumTerms
    split <;> rfl
  | cons term rest ih =>
    unfold sumTerms
    have ht := t.symbols_termValue term.text
    generalize t.termValue term.text = u at ht ⊢
    obtain ⟨t', value⟩ := u
    dsimp only at ht ⊢
    split
    · rw [ih, ht]
    · rw [ih, ht]
    · split
      · rw [ih, ht]
      · exact ht
    · exact ht

/-- Going on with a section defines its name at most. -/
theorem setSection_cases (t : SymbolTable) (name : String) (kind : SectionKind) (l : Location)
    (stack : ProcessingStack) :
    ∃ (u : SymbolTable) (s : Symbol),
      (t.setSection name kind l stack = u ∨ t.setSection name kind l stack = u.define s) ∧
      u.symbols = t.symbols ∧ s.name = name ∧ s.location = l ∧ s.stack = stack := by
  have fresh : ∃ (u : SymbolTable) (s : Symbol),
      ((t.startSection name kind).define (sectionSymbol name t.sections.size l stack) = u ∨
        (t.startSection name kind).define (sectionSymbol name t.sections.size l stack) =
          u.define s) ∧ u.symbols = t.symbols ∧ s.name = name ∧ s.location = l ∧ s.stack = stack :=
    ⟨_, _, .inr rfl, rfl, rfl, rfl, rfl⟩
  unfold setSection
  dsimp only
  split
  · split
    · split
      · exact ⟨_, sectionSymbol name 0 l stack, .inl rfl, rfl, rfl, rfl, rfl⟩
      · exact fresh
    · exact fresh
  · exact fresh

/-- Going on with a location counter defines its name at most. -/
theorem setCounter_cases (t : SymbolTable) (name : String) (l : Location) (stack : ProcessingStack) :
    ∃ (u : SymbolTable) (s : Symbol),
      (t.setCounter name l stack = u ∨ t.setCounter name l stack = u.define s) ∧
      u.symbols = t.symbols ∧ s.name = name ∧ s.location = l ∧ s.stack = stack := by
  unfold setCounter
  dsimp only
  split
  · exact ⟨_, sectionSymbol name 0 l stack, .inl rfl, by simp, rfl, rfl, rfl⟩
  · exact ⟨_, _, .inr rfl, by simp, rfl, rfl, rfl⟩

end SymbolTable

namespace Assembly

/-! ### Scopes -/

theorem scope_of_cons {x : Context} {c : Call} {cs : List Call} (h : x.calls = c :: cs) :
    x.scope = c.scope := by
  unfold Context.scope
  rw [h]

theorem scope_of_nil {x : Context} (h : x.calls = []) : x.scope = x.openCode := by
  unfold Context.scope
  rw [h]

theorem mapScope_of_cons {x : Context} {c : Call} {cs : List Call} (h : x.calls = c :: cs)
    (f : Scope → Scope) :
    x.mapScope f = { x with calls := { c with scope := f c.scope } :: cs } := by
  unfold Context.mapScope
  rw [h]

theorem mapScope_of_nil {x : Context} (h : x.calls = []) (f : Scope → Scope) :
    x.mapScope f = { x with openCode := f x.openCode } := by
  unfold Context.mapScope
  rw [h]

theorem scope_mapScope (x : Context) (f : Scope → Scope) : (x.mapScope f).scope = f x.scope := by
  cases h : x.calls with
  | nil => rw [mapScope_of_nil h, scope_of_nil h, scope_of_nil (by exact h)]
  | cons c cs => rw [mapScope_of_cons h, scope_of_cons h, scope_of_cons rfl]

theorem stays_mapScope (a : Assembly) (f : Scope → Scope) :
    a.Stays (a.mapContext (·.mapScope f)) := by
  unfold mapContext
  cases h : a.context.calls with
  | nil =>
    dsimp only
    rw [mapScope_of_nil h]
    exact
      { control := rfl, library := rfl, settings := rfl, file := rfl, branchLimit := rfl
        members := rfl, base := fun _ => rfl, sources := rfl, levels := rfl
        definitions := rfl, callers := rfl
        openCode := fun h' => absurd h h', breaches := rfl, names := fun _ => id
        sound := fun ha => ha.of_names rfl fun _ => id }
  | cons c cs =>
    dsimp only
    rw [mapScope_of_cons h]
    exact
      { control := rfl, library := rfl, settings := rfl, file := rfl, branchLimit := rfl
        members := rfl, base := fun _ => rfl, sources := rfl, levels := rfl
        definitions := by simp [h], callers := by simp [h]
        openCode := fun _ => rfl, breaches := rfl, names := fun _ => id
        sound := fun ha => ha.of_names rfl fun _ => id }

theorem keeps_mapScope (a : Assembly) {f : Scope → Scope}
    (hf : ∀ s, (f s).branchCounter = s.branchCounter ∧ (f s).sequenceSymbols = s.sequenceSymbols) :
    a.Keeps (a.mapContext (·.mapScope f)) := by
  refine ⟨⟨stays_mapScope a f, ?_⟩, ?_⟩
  · exact (congrArg _ (scope_mapScope ..)).trans (hf _).1
  · unfold mapContext
    cases h : a.context.calls with
    | nil =>
      dsimp only
      rw [mapScope_of_nil h]
      exact (hf _).2
    | cons c cs =>
      dsimp only
      rw [mapScope_of_cons h]

theorem keeps_bind (a : Assembly) (name : String) (b : Binding) :
    a.Keeps (a.mapContext (·.bind name b)) := keeps_mapScope a fun _ => ⟨rfl, rfl⟩

/-! ### SET symbols -/

theorem keeps_declareLocal (a : Assembly) (name : String) (type : SetType) (isScalar : Bool) :
    a.Keeps (a.mapContext (·.declareLocal name type isScalar)) := by
  unfold mapContext Context.declareLocal
  dsimp only
  split
  · exact .refl _
  · exact keeps_bind ..

theorem spares_globals (a : Assembly) (t u : Table SetSymbol) :
    a.Spares { a with context := { a.context with globals := t, systemGlobals := u } } :=
  .of_same rfl rfl (fun _ => id) fun h => h.of_names rfl fun _ => id

theorem keeps_declareGlobal (a : Assembly) (name : String) (type : SetType) (isScalar : Bool) :
    a.Keeps (a.mapContext (·.declareGlobal name type isScalar)) := by
  unfold mapContext Context.declareGlobal
  dsimp only
  split
  · exact keeps_bind ..
  · exact (spares_globals a _ a.context.systemGlobals).toKeeps.trans (keeps_bind ..)

theorem spares_declaration (a : Assembly) (p : Activation) (name : String) (type : SetType)
    (isGlobal : Bool) (pos : Position) : a.Spares (a.declaration p name type isGlobal pos) := by
  unfold declaration
  split
  · exact .refl _
  · exact .of_same rfl rfl (fun _ => id) fun h => h.of_names rfl fun _ => id

theorem keeps_declareOperand (p : Activation) (opcode : String) (a : Assembly) (o : Field) :
    a.Keeps (declareOperand p opcode a o) := by
  unfold declareOperand
  split
  · exact .refl _
  · rename_i name subscript _
    refine (spares_meet a [name]).toKeeps.trans (.trans ?_ (spares_declaration ..).toKeeps)
    split
    · exact keeps_declareGlobal ..
    · exact keeps_declareLocal ..

theorem keeps_declareOperands (p : Activation) (opcode : String) (a : Assembly) (os : List Field) :
    a.Keeps (os.foldl (declareOperand p opcode) a) := by
  induction os generalizing a with
  | nil => exact .refl _
  | cons o rest ih => exact (keeps_declareOperand ..).trans (ih _)

theorem keeps_assign? {a : Assembly} {name : String} {subscript : Option Nat} {v : SetValue}
    {x : Context} (h : a.context.assign? name subscript v = some x) :
    a.Keeps { a with context := x } := by
  unfold Context.assign? at h
  split at h
  · obtain rfl := Option.some.inj h
    exact keeps_bind ..
  · obtain ⟨s, -, rfl⟩ := Option.map_eq_some_iff.1 h
    exact (spares_globals ..).toKeeps
  · obtain ⟨s, -, rfl⟩ := Option.map_eq_some_iff.1 h
    exact (spares_globals ..).toKeeps
  · simp at h

theorem keeps_assignOperands (a : Assembly) (name : String) (type : SetType) (base : Option Nat)
    (os : List Field) : a.Keeps (a.assignOperands name type base os) := by
  induction os generalizing a base with
  | nil => exact .refl _
  | cons o rest ih =>
    unfold assignOperands
    split
    · rename_i hx
      exact (keeps_assign? hx).trans (ih ..)
    · exact .refl _

theorem keeps_assign (a : Assembly) (p : Activation) (s : Statement) (opcode : String) :
    a.Keeps (a.assign p s opcode) := by
  unfold assign
  split
  · exact .refl _
  · rename_i name subscript _
    dsimp only
    refine (spares_meet a [name]).toKeeps.trans (.trans ?_ (keeps_assignOperands ..))
    split
    · exact (keeps_declareLocal ..).trans (spares_declaration ..).toKeeps
    · exact .refl _

/-! ### Ordinary symbols -/

theorem spares_mapSymbols {a : Assembly} {f : SymbolTable → SymbolTable}
    (hf : ∀ n s, (f a.context.symbols).find? n = some s →
      a.context.symbols.find? n = some s ∨ n ≠ "" ∧ n ∈ a.context.names) :
    a.Spares (a.mapSymbols f) := by
  refine .of_same rfl rfl (fun _ => id) fun ha =>
    { macroName := ha.macroName, macroPlain := ha.macroPlain, copyMember := ha.copyMember
      symbolName := fun {n s} hn => ?_, instructionName := ha.instructionName, synonymName := ha.synonymName
      refusal := ha.refusal }
  rcases hf n s hn with h | h
  · exact ha.symbolName h
  · exact h

/-- What leaves the list of symbols alone. -/
theorem spares_mapSymbols_of_symbols {a : Assembly} {f : SymbolTable → SymbolTable}
    (hf : (f a.context.symbols).symbols = a.context.symbols.symbols) :
    a.Spares (a.mapSymbols f) := by
  refine spares_mapSymbols fun n s hs => .inl ?_
  unfold SymbolTable.find? at hs ⊢
  rwa [hf] at hs

theorem spares_align (a : Assembly) (n : Int32) : a.Spares (a.mapSymbols (·.align n)) :=
  spares_mapSymbols_of_symbols (a.context.symbols.symbols_align n)

theorem spares_reserve (a : Assembly) (n : Int32) : a.Spares (a.mapSymbols (·.reserve n)) :=
  spares_mapSymbols_of_symbols (a.context.symbols.symbols_reserve n)

/-- A symbol is defined under a name that has been met before. -/
theorem spares_define_of {a : Assembly} {f : SymbolTable → SymbolTable} {t : SymbolTable} {s : Symbol}
    (hf : f a.context.symbols = t ∨ f a.context.symbols = t.define s)
    (ht : t.symbols = a.context.symbols.symbols) (hs : s.name ∈ a.context.names) :
    a.Spares (a.mapSymbols f) := by
  refine spares_mapSymbols fun n r hr => ?_
  rcases hf with h | h
  · rw [h, SymbolTable.find?, ht] at hr
    exact .inl hr
  · rw [h] at hr
    rcases t.find?_define hr with h' | ⟨hn, rfl⟩
    · rw [SymbolTable.find?, ht] at h'
      exact .inl h'
    · exact .inr ⟨hn, hs⟩

theorem spares_defineLabel (a : Assembly) (file : String) (s : Statement) (value : SymbolValue)
    (attributes : SymbolAttributes) : a.Spares (a.defineLabel file s value attributes) := by
  unfold defineLabel
  split
  · exact .refl _
  · exact (spares_meet ..).trans (spares_define_of (.inr rfl) rfl (mem_names_meet.2 (.inr (by simp))))

theorem spares_startSection (a : Assembly) (file : String) (s : Statement) (kind : SectionKind) :
    a.Spares (a.startSection file s kind) := by
  unfold startSection
  dsimp only
  generalize hn : s.ordinaryLabel?.getD "" = name
  refine (spares_meet a [name]).trans ?_
  generalize hl : labelLocation file s = l
  have hmet : name ∈ (a.meet [name]).context.names := mem_names_meet.2 (.inr (by simp))
  obtain ⟨t, s', h, ht, hs, -⟩ := (a.meet [name]).context.symbols.setSection_cases name kind l
    (a.meet [name]).context.stack
  exact spares_define_of h ht (by rw [hs]; exact hmet)

theorem spares_startCounter (a : Assembly) (file : String) (s : Statement) :
    a.Spares (a.startCounter file s) := by
  unfold startCounter
  split
  · exact .refl _
  · rename_i name _
    refine (spares_meet a [name]).trans ?_
    dsimp only
    generalize hl : labelLocation file s = l
    have hmet : name ∈ (a.meet [name]).context.names := mem_names_meet.2 (.inr (by simp))
    obtain ⟨t, s', h, ht, hs, -⟩ := (a.meet [name]).context.symbols.setCounter_cases name l
      (a.meet [name]).context.stack
    exact spares_define_of h ht (by rw [hs]; exact hmet)

theorem spares_equate (a : Assembly) (file : String) (s : Statement) : a.Spares (a.equate file s) := by
  unfold equate
  split
  · exact .refl _
  · rename_i first _ _
    dsimp only
    exact (spares_mapSymbols_of_symbols (f := fun _ => (a.context.symbols.sumValue first.text).1)
      (SymbolTable.symbols_sumTerms ..)).trans (spares_defineLabel ..)

theorem spares_defineData {a b : Assembly} {file : String} {s : Statement} {labelled : Bool}
    {os : List Field} (h : a.defineData file s labelled os = .ok b) : a.Spares b := by
  induction os generalizing a labelled with
  | nil =>
    obtain rfl := Except.ok.inj h
    exact .refl _
  | cons o rest ih =>
    unfold defineData at h
    split at h
    · exact ih h
    · simp at h
    · rename_i d _
      refine (spares_align a d.alignment).trans (.trans ?_ ((spares_reserve _ d.size).trans (ih h)))
      split
      · exact .refl _
      · exact spares_defineLabel ..

theorem spares_machine (a : Assembly) (file : String) (s : Statement) (opcode : String) :
    a.Spares (a.machine file s opcode) :=
  (spares_align a 2).trans ((spares_defineLabel ..).trans (spares_reserve ..))

/-- A synonym is entered under a name that is not empty. -/
theorem spares_insertSynonym {a : Assembly} {name : String} (hname : name ≠ "") (target : String) :
    a.Spares (a.mapContext fun x => { x with synonyms := x.synonyms.insert name target }) := by
  refine .of_same rfl rfl (fun _ => id) fun ha =>
    { macroName := ha.macroName, macroPlain := ha.macroPlain, copyMember := ha.copyMember
      symbolName := ha.symbolName, instructionName := ha.instructionName, synonymName := fun {n t} hn => ?_
      refusal := ha.refusal }
  change (a.context.synonyms.insert name target).find? n = some t at hn
  rw [Table.find?_insert] at hn
  split at hn
  · rename_i h
    exact h ▸ hname
  · exact ha.synonymName hn

theorem addSynonym_cases (x : Context) (name target : String) :
    (∃ t, x.addSynonym name target = .ok { x with synonyms := x.synonyms.insert name t }) ∨
      x.addSynonym name target = .error (.undefinedOpcode target) := by
  unfold Context.addSynonym
  split
  · exact .inl ⟨_, rfl⟩
  · split
    · exact .inl ⟨_, rfl⟩
    · exact .inr rfl

/-- A synonym of an unknown operation code is the one transition that may fail. -/
theorem spares_addSynonym (a : Assembly) {name : String} (hname : name ≠ "") (target : String) :
    a.Spares (a.attempt (·.addSynonym name target)) := by
  rcases addSynonym_cases a.context name target with ⟨t, h⟩ | h
  · rw [attempt_of_ok (f := (·.addSynonym name target)) h]
    exact spares_insertSynonym hname t
  · rw [attempt_of_error (f := (·.addSynonym name target)) h]
    exact .of_same rfl rfl (fun _ => id) fun ha => ha.of_names rfl fun _ => id

theorem ne_empty_of_ordinaryLabel? {s : Statement} {name : String} (h : s.ordinaryLabel? = some name) :
    name ≠ "" := by
  unfold Statement.ordinaryLabel? at h
  dsimp only at h
  split at h
  · cases h
  · rename_i hlabel
    obtain rfl := Option.some.inj h
    have hlength := Text.length_le_upperChars s.labelText
    rintro hempty
    have hnil : Text.upperChars s.labelText = [] := by simpa using congrArg String.toList hempty
    rw [hnil, List.length_nil, Nat.le_zero, List.length_eq_zero_iff] at hlength
    simp [hlength] at hlabel

theorem spares_defineSynonym (a : Assembly) (s : Statement) : a.Spares (a.defineSynonym s) := by
  unfold defineSynonym
  split
  · exact .refl _
  · rename_i name hlabel
    have hname := ne_empty_of_ordinaryLabel? hlabel
    dsimp only
    refine (spares_meet a [name]).trans ?_
    split
    · rename_i c cs _ _ _
      refine (spares_meet _ [String.ofList (Text.upperChars (c :: cs))]).trans
        (.trans ?_ (spares_addSynonym _ hname _))
      split
      · exact .refl _
      · exact spares_loadMacro ..
    · exact spares_insertSynonym hname ""

theorem spares_ordinary {a b : Assembly} {file : String} {s : Statement} {opcode : String}
    (h : a.ordinary file s opcode = .ok b) : a.Spares b := by
  cases effect_of_ordinary h with
  | startSection => exact spares_startSection ..
  | startCounter => exact spares_startCounter ..
  | equate => exact spares_equate ..
  | defineData _ h => exact spares_defineData h
  | defineSynonym => exact spares_defineSynonym ..
  | machine => exact spares_machine ..
  | nothing => exact .refl _

end Assembly

end AssemblerIndex
