import AssemblerIndex.Proofs.Assembly.Balance
import AssemblerIndex.Proofs.Assembly.Blocks

/-!
# The ways to symbols

Symbols and declarations keep the processing stack under which they were entered.  Between two steps such a stack leads
from open code through macros and copy members, and all of these have names (`LeadsFrom`): the copy members that stand
in the body of a macro do, since each statement of the body knows by which members it came there
(`MacroDefinition.NamesMembers`).

* `Learns a b` — from `a` to `b` macros and files were entered at most;
* `Placed` — what holds of the stacks, the macros and the files between two steps; a step preserves it (`Placed.step`),
  and so does a run (`Reaches.placed`).

There is one lemma for each operation, named after it.
-/

namespace AssemblerIndex

/-! ### Stacks -/

/-- The frame stands in a macro or in a copy member, and that one has a name. -/
structure Frame.IsNamed (f : Frame) : Prop where
  kind : f.kind ≠ .openCode
  member : f.member.isSome

/-- The stack begins in open code of the file and leads on through macros and copy members, which have names. -/
inductive LeadsFrom (file : String) : ProcessingStack → Prop
  | intro (pos : Position) {frames : List Frame} (named : ∀ f ∈ frames, f.IsNamed) :
    LeadsFrom file (⟨.openCode, none, ⟨file, pos⟩⟩ :: frames)

/-- Behind the first place of the nest come copy members, which have names. -/
def NamesMembers (nest : List NestItem) : Prop := ∀ i ∈ nest.tail, i.member.isSome

/-- The copy members that statements of the body came from have names. -/
def MacroDefinition.NamesMembers (d : MacroDefinition) : Prop := ∀ nest ∈ d.nests, AssemblerIndex.NamesMembers nest

theorem Invocation.named_frames {i : Invocation} (h : i.definition.NamesMembers) :
    ∀ f ∈ i.frames, f.IsNamed := by
  unfold Invocation.frames
  split
  · rename_i first rest hnest
    obtain ⟨hi, hget⟩ := Array.getElem?_eq_some_iff.1 hnest
    have hrest : NamesMembers (first :: rest) := hget ▸ h _ (Array.getElem_mem hi)
    intro f hf
    rcases List.mem_cons.1 hf with rfl | hf
    · exact ⟨nofun, rfl⟩
    · obtain ⟨n, hn, rfl⟩ := List.mem_map.1 hf
      exact ⟨nofun, hrest n hn⟩
  · exact nofun

theorem leadsFrom_processingStack {file : String} {base : Source} {calls : List Invocation}
    (hbase : base.location.file = file) (hcalls : ∀ i ∈ calls, i.definition.NamesMembers) :
    LeadsFrom file (processingStack base calls []) := by
  obtain ⟨⟨_, pos⟩, _, _, _, copyStack⟩ := base
  obtain rfl := hbase
  refine .intro pos fun f hf => ?_
  rcases List.mem_append.1 ((List.mem_append.1 hf).resolve_right nofun) with hf | hf
  · obtain ⟨c, -, rfl⟩ := List.mem_map.1 hf
    exact ⟨nofun, rfl⟩
  · obtain ⟨i, hi, hf⟩ := List.mem_flatMap.1 hf
    exact i.named_frames (hcalls i hi) f hf

/-! ### Reading a definition -/

theorem NamesMembers.copied {n : NestedStatement} (h : NamesMembers n.nest) (m : CopyMember) :
    ∀ k ∈ n.copied m, NamesMembers k.nest := by
  intro k hk
  obtain ⟨s, -, rfl⟩ := List.mem_map.1 hk
  intro i hi
  cases hn : n.nest with
  | nil => simp [hn] at hi
  | cons first rest =>
    rw [hn] at h hi
    rcases List.mem_append.1 hi with hi | hi
    · exact h i hi
    · obtain rfl := List.mem_singleton.1 hi
      rfl

namespace Reading

variable {r : Reading}

/-- The statements read so far came from copy members that have names. -/
def NamesMembers (r : Reading) : Prop := ∀ n ∈ r.body, AssemblerIndex.NamesMembers n.nest

theorem NamesMembers.definition (h : r.NamesMembers) (file : String) (prototype : Statement) :
    (r.definition file prototype).NamesMembers := by
  intro nest hnest
  obtain ⟨n, hn, rfl⟩ := List.mem_map.1 (List.mem_toArray.1 hnest)
  exact h n (List.mem_reverse.1 hn)

end Reading

theorem MacroDefinition.NamesMembers.nestedBody {d : MacroDefinition} (h : d.NamesMembers) :
    ∀ n ∈ d.nestedBody, AssemblerIndex.NamesMembers n.nest := by
  intro n hn
  obtain ⟨i, hi, rfl⟩ := List.mem_mapIdx.1 hn
  cases hnest : d.nests[i]? with
  | none =>
    intro k hk
    simp at hk
  | some nest =>
    obtain ⟨hi', rfl⟩ := Array.getElem?_eq_some_iff.1 hnest
    rw [Option.getD_some]
    exact h _ (Array.getElem_mem hi')

namespace Assembly

/-! ### Macros and files -/

/-- From `a` to `b` macros and files were entered at most, and no file has taken the place of another one. -/
structure Learns (a b : Assembly) : Prop where
  symbols : b.context.symbols = a.context.symbols
  declarations : b.declarations = a.declarations
  files : ∀ {file f}, a.files.find? file = some f → b.files.find? file = some f
  macros : ∀ {n d}, b.context.macros.find? n = some d → a.context.macros.find? n = some d ∨ d.NamesMembers

section Learning

variable {a b c : Assembly}

theorem Learns.refl (a : Assembly) : a.Learns a := ⟨rfl, rfl, id, .inl⟩

theorem Learns.trans (h : a.Learns b) (h' : b.Learns c) : a.Learns c where
  symbols := h'.symbols.trans h.symbols
  declarations := h'.declarations.trans h.declarations
  files hf := h'.files (h.files hf)
  macros hd := (h'.macros hd).elim h.macros .inr

/-- The macros, the symbols and what is recorded are as they were. -/
theorem Learns.of_same (hx : (b.context.macros, b.context.symbols) = (a.context.macros, a.context.symbols))
    (hb : (b.declarations, b.files) = (a.declarations, a.files)) : a.Learns b := by
  simp only [Prod.mk.injEq] at hx hb
  exact ⟨hx.2, hb.1, fun hf => by rwa [hb.2], fun hd => .inl (hx.1 ▸ hd)⟩

theorem Loads.learns (h : a.Loads b) : a.Learns b := by
  have hframe := h.frame
  refine ⟨by rw [hframe], by rw [hframe], fun {file f} hf => ?_, fun hd => .inl (by rwa [hframe] at hd)⟩
  rcases h.files file with hsame | ⟨hnone, -⟩
  · rwa [hsame]
  · rw [hnone] at hf
    cases hf

theorem learns_meet (a : Assembly) (names : List String) : a.Learns (a.meet names) := (loads_meet ..).learns

theorem learns_copyMember? (a : Assembly) (name : String) : a.Learns (a.copyMember? name).1 :=
  (loads_copyMember? ..).learns

theorem learns_addFile (a : Assembly) (file : String) (content : FileContent) (text : String) :
    a.Learns (a.addFile file content text) := by
  refine ⟨by rw [context_addFile], by rw [addFile_eq], fun {f s} hf => ?_, fun hd => .inl ?_⟩
  · rw [find?_files_addFile, if_neg, hf]
    rintro ⟨hnone, rfl⟩
    rw [hnone] at hf
    cases hf
  · rwa [context_addFile] at hd

theorem learns_popLevel (a : Assembly) : a.Learns (a.attempt Context.popLevel) := by
  unfold attempt Context.popLevel
  cases a.context.levels <;> exact .of_same rfl rfl

theorem learns_register {r : MacroRecord} (hr : r.definition.NamesMembers) (a : Assembly) :
    a.Learns (a.register r).1 := by
  have entered {n : String} {d : MacroDefinition} (hd : (a.context.addMacro r.definition).1.macros.find? n = some d) :
      a.context.macros.find? n = some d ∨ d.NamesMembers := by
    unfold Context.addMacro at hd
    dsimp only at hd
    rw [Table.find?_insert] at hd
    split at hd
    · obtain rfl := Option.some.inj hd
      exact .inr hr
    · exact .inl hd
  unfold register
  dsimp only
  split <;> exact ⟨rfl, rfl, id, entered⟩

theorem learns_define {items : List NestedStatement} (hitems : ∀ n ∈ items, NamesMembers n.nest) (a : Assembly)
    (isExternal : Bool) : a.Learns (a.define items isExternal).1 := by
  unfold define
  split
  · rename_i opening prototype rest
    dsimp only
    split
    · exact .refl a
    · generalize (prototype.statement.opcode ::
        (prototypeDeclarations opening.file prototype.statement).map (·.name)) = names
      have hrest : ∀ n ∈ rest, NamesMembers n.nest := fun n hn =>
        hitems n (List.mem_cons_of_mem _ (List.mem_cons_of_mem _ hn))
      have hread : ((a.meet names).read opening prototype rest).NamesMembers :=
        forall_read (fun _ hn _ _ => hn.copied _) opening prototype hrest
      have hloads := loads_read (a.meet names) opening prototype rest
      generalize (a.meet names).read opening prototype rest = r at hread hloads
      generalize r.labels.map (·.name) ++ r.declared.map (·.name) = met
      refine (learns_meet a names).trans (hloads.learns.trans ((learns_meet r.assembly met).trans ?_))
      exact learns_register (Reading.NamesMembers.definition hread _ _) _
  · exact .refl a

theorem learns_loadMacro (a : Assembly) (name : String) : a.Learns (a.loadMacro name).1 := by
  unfold loadMacro
  split
  · exact .refl a
  · split
    · exact .of_same rfl rfl
    · rename_i found _
      dsimp only
      generalize hitems : throughMend 0 _ = items
      have hnests : ∀ n ∈ items, NamesMembers n.nest := by
        intro n hn
        rw [← hitems, throughMend_eq_take] at hn
        obtain ⟨s, -, rfl⟩ := List.mem_map.1 ((List.dropWhile_sublist _).subset (List.mem_of_mem_take hn))
        exact nofun
      have hpush : a.Learns (a.mapContext (·.pushSource .macroDefinition found.uri)) := .of_same rfl rfl
      have hdefine := (hpush.trans (learns_define hnests _ true)).trans (learns_popLevel _)
      split
      · exact hdefine.trans (learns_addFile ..)
      · exact hdefine.trans (.of_same rfl rfl)

theorem learns_macro? (a : Assembly) (opcode : String) : a.Learns (a.macro? opcode).1 := by
  unfold macro?
  split
  · exact .refl a
  · refine (learns_meet a [opcode]).trans ?_
    dsimp only
    split
    · exact .refl _
    · split
      · exact .refl _
      · split
        · exact .refl _
        · exact learns_loadMacro ..

end Learning

/-! ### Between two steps -/

/-- Whatever is processed leads from open code of the file through macros and copy members that have names, and so do
the stacks of the symbols and of the declarations; symbols have different names, and the file is that of open code. -/
structure Placed (file : String) (a : Assembly) : Prop where
  base : a.context.base.location.file = file
  sources : a.context.sources = []
  calls : ∀ d ∈ a.context.calls.map (·.invocation.definition), d.NamesMembers
  macros : ∀ {n d}, a.context.macros.find? n = some d → d.NamesMembers
  names : (a.context.symbols.symbols.toList.map (·.name)).Nodup
  symbols : ∀ s ∈ a.context.symbols.symbols, LeadsFrom file s.stack
  declarations : ∀ d ∈ a.declarations, LeadsFrom file d.stack
  openCode : ∃ text, a.files.find? file = some ⟨.openCode, text⟩

section Operations

variable {file : String} {a b : Assembly}

theorem Placed.stack (h : Placed file a) : LeadsFrom file a.context.stack := by
  unfold Context.stack
  rw [h.sources]
  refine leadsFrom_processingStack h.base fun i hi => ?_
  obtain ⟨c, hc, rfl⟩ := List.mem_map.1 hi
  exact h.calls _ (List.mem_map.2 ⟨c, List.mem_reverse.1 hc, rfl⟩)

/-- What the ways depend on. -/
def ground (a : Assembly) :=
  (a.context.base.location.file, a.context.sources, a.context.calls.map (·.invocation.definition), a.context.macros,
    a.context.symbols.symbols, a.declarations, a.files)

theorem Placed.of_ground (h : Placed file a) (hb : b.ground = a.ground) : Placed file b := by
  simp only [ground, Prod.mk.injEq] at hb
  obtain ⟨h1, h2, h3, h4, h5, h6, h7⟩ := hb
  exact ⟨h1 ▸ h.base, h2 ▸ h.sources, h3 ▸ h.calls, fun hd => h.macros (h4 ▸ hd), h5 ▸ h.names, h5 ▸ h.symbols,
    h6 ▸ h.declarations, h7 ▸ h.openCode⟩

theorem Placed.of_learns (h : Placed file a) (hs : a.Spares b) (hl : a.Learns b) : Placed file b where
  base := by rw [hs.ownBase, h.base]
  sources := hs.sources.trans h.sources
  calls := by
    rw [hs.calls]
    exact h.calls
  macros hd := (hl.macros hd).elim h.macros id
  names := by
    rw [hl.symbols]
    exact h.names
  symbols := by
    rw [hl.symbols]
    exact h.symbols
  declarations := by
    rw [hl.declarations]
    exact h.declarations
  openCode := h.openCode.imp fun _ => hl.files

theorem Placed.meet (h : Placed file a) (names : List String) : Placed file (a.meet names) := h.of_ground rfl

theorem Placed.macro? (h : Placed file a) (opcode : String) : Placed file (a.macro? opcode).1 :=
  h.of_learns (spares_macro? ..) (learns_macro? ..)

theorem Placed.define (h : Placed file a) {items : List NestedStatement} (hitems : ∀ n ∈ items, NamesMembers n.nest)
    (isExternal : Bool) : Placed file (a.define items isExternal).1 :=
  h.of_learns (spares_define ..) (learns_define hitems ..)

/-- A transition of the assembler that keeps what is processed in place does so when it is attempted. -/
theorem Placed.attempt (h : Placed file a) {f : Context → Except ContextError Context}
    (hf : ∀ x, f a.context = .ok x → Placed file { a with context := x }) : Placed file (a.attempt f) := by
  unfold Assembly.attempt
  split
  · rename_i hx
    exact hf _ hx
  · exact h.of_ground rfl

theorem Placed.popLevel (h : Placed file a) : Placed file (a.attempt Context.popLevel) := by
  refine h.attempt fun x hx => ?_
  unfold Context.popLevel at hx
  split at hx
  · obtain rfl := Except.ok.inj hx
    refine h.of_ground ?_
    simp only [ground, h.sources, List.tail_nil, ite_self]
  · cases hx

/-! ### SET symbols -/

theorem ground_mapScope (a : Assembly) (f : Scope → Scope) : (a.mapContext (·.mapScope f)).ground = a.ground := by
  unfold mapContext Context.mapScope ground
  dsimp only
  cases a.context.calls <;> rfl

theorem Placed.mapScope (h : Placed file a) (f : Scope → Scope) : Placed file (a.mapContext (·.mapScope f)) :=
  h.of_ground (ground_mapScope a f)

theorem Placed.declareLocal (h : Placed file a) (name : String) (type : SetType) (isScalar : Bool) :
    Placed file (a.mapContext (·.declareLocal name type isScalar)) := by
  unfold mapContext Context.declareLocal
  dsimp only
  split
  · exact h
  · exact h.mapScope _

theorem Placed.declareGlobal (h : Placed file a) (name : String) (type : SetType) (isScalar : Bool) :
    Placed file (a.mapContext (·.declareGlobal name type isScalar)) := by
  unfold mapContext Context.declareGlobal
  dsimp only
  split
  · exact h.mapScope _
  · generalize a.context.globals.insert name _ = globals
    have hglobals : Placed file { a with context := { a.context with globals } } := h.of_ground rfl
    exact hglobals.mapScope _

theorem Placed.declaration (h : Placed file a) (p : Activation) (name : String) (type : SetType) (isGlobal : Bool)
    (pos : Position) : Placed file (a.declaration p name type isGlobal pos) := by
  unfold Assembly.declaration
  split
  · exact h
  · refine { h with declarations := fun d hd => ?_ }
    dsimp only at hd
    unfold declareOnce at hd
    split at hd
    · exact h.declarations d hd
    · rcases List.mem_append.1 hd with hd | hd
      · exact h.declarations d hd
      · obtain rfl := List.mem_singleton.1 hd
        exact h.stack

theorem Placed.declareOperand (h : Placed file a) (p : Activation) (opcode : String) (o : Field) :
    Placed file (declareOperand p opcode a o) := by
  unfold Assembly.declareOperand
  split
  · exact h
  · refine .declaration ?_ ..
    split
    · exact (h.meet _).declareGlobal ..
    · exact (h.meet _).declareLocal ..

theorem Placed.declareOperands (h : Placed file a) (p : Activation) (opcode : String) (os : List Field) :
    Placed file (os.foldl (Assembly.declareOperand p opcode) a) := by
  induction os generalizing a with
  | nil => exact h
  | cons o rest ih => exact ih (h.declareOperand ..)

theorem Placed.assignOperands (h : Placed file a) (name : String) (type : SetType) (base : Option Nat)
    (os : List Field) : Placed file (a.assignOperands name type base os) := by
  have assigned {a : Assembly} (h : Placed file a) {subscript : Option Nat} {v : SetValue} {x : Context}
      (hx : a.context.assign? name subscript v = some x) : Placed file { a with context := x } := by
    unfold Context.assign? at hx
    split at hx
    · obtain rfl := Option.some.inj hx
      exact h.mapScope _
    · obtain ⟨s, -, rfl⟩ := Option.map_eq_some_iff.1 hx
      exact h.of_ground rfl
    · obtain ⟨s, -, rfl⟩ := Option.map_eq_some_iff.1 hx
      exact h.of_ground rfl
    · cases hx
  induction os generalizing a base with
  | nil => exact h
  | cons o rest ih =>
    unfold Assembly.assignOperands
    split
    · rename_i hx
      exact ih (assigned h hx) _
    · exact h

theorem Placed.assign (h : Placed file a) (p : Activation) (s : Statement) (opcode : String) :
    Placed file (a.assign p s opcode) := by
  unfold Assembly.assign
  split
  · exact h
  · refine .assignOperands ?_ ..
    split
    · exact ((h.meet _).declareLocal ..).declaration ..
    · exact h.meet _

/-! ### Ordinary symbols -/

/-- A symbol may be defined whose way leads from the file. -/
theorem Placed.define_of (h : Placed file a) {f : SymbolTable → SymbolTable} {t : SymbolTable} {s : Symbol}
    (hf : f a.context.symbols = t ∨ f a.context.symbols = t.define s) (ht : t.symbols = a.context.symbols.symbols)
    (hs : LeadsFrom file s.stack) : Placed file (a.mapSymbols f) := by
  have kept : Placed file (a.mapSymbols fun _ => t) := h.of_ground (by simp only [ground, mapSymbols, mapContext, ht])
  have heq (u : SymbolTable) (hu : f a.context.symbols = u) : a.mapSymbols f = a.mapSymbols fun _ => u := by
    unfold mapSymbols mapContext
    dsimp only
    rw [hu]
  rcases hf with hf | hf
  · rwa [heq _ hf]
  · rw [heq _ hf]
    rw [SymbolTable.define_eq]
    split
    · rename_i hfree
      have hnew : s.name ∉ t.symbols.toList.map (·.name) := by
        intro hmem
        obtain ⟨r, hr, hname⟩ := List.mem_map.1 hmem
        have htaken : (t.find? s.name).isSome := by
          unfold SymbolTable.find?
          rw [Array.find?_isSome]
          exact ⟨r, Array.mem_toList_iff.1 hr, by simpa using hname⟩
        rw [Option.isSome_iff_ne_none] at htaken
        simp [SymbolTable.isFree, htaken] at hfree
      refine { kept with names := ?_, symbols := fun r hr => ?_ }
      · change ((t.symbols.push s).toList.map (·.name)).Nodup
        rw [Array.toList_push, List.map_append, List.map_singleton, List.nodup_append]
        refine ⟨kept.names, List.nodup_singleton _, ?_⟩
        rintro n hn m hm rfl
        rw [List.mem_singleton] at hm
        exact hnew (hm ▸ hn)
      · rcases Array.mem_push.1 hr with hr | rfl
        · exact kept.symbols r hr
        · exact hs
    · exact kept

theorem Placed.of_symbols (h : Placed file a) {f : SymbolTable → SymbolTable}
    (hf : (f a.context.symbols).symbols = a.context.symbols.symbols) : Placed file (a.mapSymbols f) :=
  h.of_ground (by simp only [ground, mapSymbols, mapContext, hf])

theorem Placed.defineLabel (h : Placed file a) (f : String) (s : Statement) (value : SymbolValue)
    (attributes : SymbolAttributes) : Placed file (a.defineLabel f s value attributes) := by
  unfold Assembly.defineLabel
  split
  · exact h
  · exact (h.meet _).define_of (.inr rfl) rfl (h.meet _).stack

theorem Placed.startSection (h : Placed file a) (f : String) (s : Statement) (kind : SectionKind) :
    Placed file (a.startSection f s kind) := by
  unfold Assembly.startSection
  dsimp only
  generalize s.ordinaryLabel?.getD "" = name
  generalize labelLocation f s = l
  have hm := h.meet [name]
  obtain ⟨t, r, hf, ht, -, -, hr⟩ := (a.meet [name]).context.symbols.setSection_cases name kind l
    (a.meet [name]).context.stack
  exact hm.define_of hf ht (hr ▸ hm.stack)

theorem Placed.startCounter (h : Placed file a) (f : String) (s : Statement) :
    Placed file (a.startCounter f s) := by
  unfold Assembly.startCounter
  split
  · exact h
  · rename_i name _
    dsimp only
    generalize labelLocation f s = l
    have hm := h.meet [name]
    obtain ⟨t, r, hf, ht, -, -, hr⟩ := (a.meet [name]).context.symbols.setCounter_cases name l
      (a.meet [name]).context.stack
    exact hm.define_of hf ht (hr ▸ hm.stack)

theorem Placed.equate (h : Placed file a) (f : String) (s : Statement) : Placed file (a.equate f s) := by
  unfold Assembly.equate
  split
  · exact h
  · rename_i first _ _
    dsimp only
    refine .defineLabel ?_ ..
    exact h.of_symbols (f := fun _ => (a.context.symbols.sumValue first.text).1) (SymbolTable.symbols_sumTerms ..)

theorem Placed.align (h : Placed file a) (n : Int32) : Placed file (a.mapSymbols (·.align n)) :=
  h.of_symbols (SymbolTable.symbols_align ..)

theorem Placed.reserve (h : Placed file a) (n : Int32) : Placed file (a.mapSymbols (·.reserve n)) :=
  h.of_symbols (SymbolTable.symbols_reserve ..)

theorem Placed.defineData (h : Placed file a) {f : String} {s : Statement} {labelled : Bool} {os : List Field}
    (hb : a.defineData f s labelled os = .ok b) : Placed file b := by
  induction os generalizing a labelled with
  | nil => exact Except.ok.inj hb ▸ h
  | cons o rest ih =>
    unfold Assembly.defineData at hb
    split at hb
    · exact ih h hb
    · cases hb
    · refine ih (.reserve ?_ _) hb
      split
      · exact h.align _
      · exact (h.align _).defineLabel ..

theorem Placed.machine (h : Placed file a) (f : String) (s : Statement) (opcode : String) :
    Placed file (a.machine f s opcode) :=
  ((h.align 2).defineLabel ..).reserve _

theorem Placed.defineSynonym (h : Placed file a) (s : Statement) : Placed file (a.defineSynonym s) := by
  unfold Assembly.defineSynonym
  split
  · exact h
  · rename_i name _
    dsimp only
    split
    · rename_i c cs _ _ _
      generalize String.ofList (Text.upperChars (c :: cs)) = target
      have hm := (h.meet [name]).meet [target]
      have entered {a : Assembly} (h : Placed file a) : Placed file (a.attempt (·.addSynonym name target)) := by
        refine h.attempt fun x hx => ?_
        rcases addSynonym_cases a.context name target with ⟨t, ht⟩ | he
        · obtain rfl := Except.ok.inj (hx.symm.trans ht)
          exact h.of_ground rfl
        · cases hx.symm.trans he
      refine entered ?_
      split
      · exact hm
      · exact hm.of_learns (spares_loadMacro ..) (learns_loadMacro ..)
    · exact (h.meet [name]).of_ground rfl

theorem Placed.ordinary (h : Placed file a) {f : String} {s : Statement} {opcode : String}
    (hb : a.ordinary f s opcode = .ok b) : Placed file b := by
  cases effect_of_ordinary hb with
  | startSection => exact h.startSection ..
  | startCounter => exact h.startCounter ..
  | equate => exact h.equate ..
  | defineData _ hb => exact h.defineData hb
  | defineSynonym => exact h.defineSynonym ..
  | machine => exact h.machine ..
  | nothing => exact h

/-! ### Branches -/

theorem Placed.noteLabel (h : Placed file a) (f : String) (index : Nat) (s : Statement) :
    Placed file (a.noteLabel f index s) := by
  unfold Assembly.noteLabel
  split
  · exact h
  · rename_i name _ _
    have hm := h.meet [name]
    refine hm.attempt fun x hx => ?_
    unfold Context.addSequenceSymbol at hx
    split at hx
    · cases hx
    · split at hx
      · exact Except.ok.inj hx ▸ hm
      · exact Except.ok.inj hx ▸ hm.of_ground rfl

theorem Placed.seek (h : Placed file a) (f target : String) (depth : Int) (index : Nat) (ss : List Statement) :
    Placed file (a.seek f target depth index ss).1 := by
  induction ss generalizing a depth index with
  | nil => exact h
  | cons s rest ih =>
    unfold Assembly.seek
    dsimp only
    split
    · exact ih h _ _
    · split
      · exact h.noteLabel ..
      · exact ih (h.noteLabel ..) _ _

theorem Placed.target? (h : Placed file a) (p : Activation) (name : String) : Placed file (a.target? p name).1 := by
  unfold Assembly.target?
  split
  · exact h
  · dsimp only
    split
    · exact h
    · have hpush : Placed file (a.mapContext (·.pushLevel .lookahead)) := h.of_ground rfl
      exact (hpush.seek ..).popLevel

theorem Placed.follow (h : Placed file a) (p : Activation) (target : Option String) :
    Placed file (a.follow p target).1 := by
  unfold Assembly.follow
  split
  · rename_i target
    unfold branch
    dsimp only
    have ht := (h.meet [Text.upper target]).target? p (Text.upper target)
    split
    · rename_i a' i ha'
      rw [ha'] at ht
      have hcount := ht.mapScope fun s => { s with branchCounter := s.branchCounter - 1 }
      split <;> exact hcount
    · rename_i a' ha'
      rwa [ha'] at ht
  · exact h

theorem Placed.conditional? (h : Placed file a) {p : Activation} {s : Statement} {opcode : String}
    {r : Assembly × Flow} (hr : a.conditional? p s opcode = some r) : Placed file r.1 := by
  unfold Assembly.conditional? at hr
  split at hr
  · exact Option.some.inj hr ▸ h.declareOperands ..
  · split at hr
    · exact Option.some.inj hr ▸ h.assign ..
    · split at hr
      · exact Option.some.inj hr ▸ h.follow ..
      · exact Option.some.inj hr ▸ h.follow ..
      · exact Option.some.inj hr ▸ h.mapScope _
      all_goals
        first
        | exact Option.some.inj hr ▸ h
        | cases hr

/-! ### Calls and copies -/

theorem Placed.callMacro (h : Placed file a) (d : MacroDefinition) (s : Statement) :
    Placed file (a.callMacro d s).1 := by
  unfold Assembly.callMacro
  split
  · exact h
  · dsimp only
    generalize s.operands.map (fun o => Argument.ofText o.text) = args
    have hm := h.meet (args.filterMap (·.keyword))
    generalize a.meet (args.filterMap (·.keyword)) = a' at hm
    cases hd : a'.context.macros.find? d.name with
    | none =>
      unfold Context.enterMacro
      rw [hd]
      exact hm.of_ground rfl
    | some e =>
      obtain ⟨c, ns, v, hx, hc, -⟩ := exists_enterMacro hd (labelData? s) args
      rw [hx]
      refine { hm with calls := List.forall_mem_cons.2 ⟨?_, hm.calls⟩ }
      dsimp only
      rw [hc]
      exact hm.macros hd

theorem Placed.copy (h : Placed file a) (s : Statement) : Placed file (a.copy s).1 := by
  unfold Assembly.copy
  split
  · rename_i c cs _ _ _
    generalize String.ofList (Text.upperChars (c :: cs)) = name
    have hm := h.of_learns (spares_copyMember? a name) (learns_copyMember? a name)
    split
    · rename_i ha'
      rwa [ha'] at hm
    · rename_i a' m ha'
      rw [ha'] at hm
      split
      · exact hm
      · split
        · rename_i x hx
          unfold Context.enterCopy at hx
          split at hx
          · obtain rfl := Except.ok.inj hx
            rw [mapSource_of_nil hm.sources]
            exact hm.of_ground rfl
          · cases hx
        · exact hm.of_ground rfl
  · exact h

/-! ### Statements -/

theorem Placed.processSubstituted (h : Placed file a) {p : Activation} {s : Statement} {r : Assembly × Flow}
    (hr : a.processSubstituted p s = .ok r) : Placed file r.1 := by
  obtain ⟨b, flow⟩ := r
  rcases effect_of_processSubstituted hr with ⟨-, rfl, -⟩ | ⟨-, hr⟩
  · exact h
  have hm := h.meet [s.opcode]
  generalize a.meet [s.opcode] = a₁ at hr hm
  generalize a₁.context.operation s.opcode = op at hr
  have hq := hm.macro? op
  cases hr with
  | removed => exact hm
  | copyInMacro => exact hm
  | copy _ _ hr =>
    have hcopy := hm.copy s
    rwa [hr] at hcopy
  | finishInMacro => exact hm
  | finish => exact hm
  | @callMacro _ d _ _ _ hr =>
    have hcall := hq.callMacro d s
    rwa [hr] at hcall
  | ordinary _ _ ho => exact hq.ordinary ho

theorem Placed.process (h : Placed file a) {p : Activation} {s : Statement} {r : Assembly × Flow}
    (hr : a.process p s = .ok r) : Placed file r.1 := by
  have hp : Placed file (a.prepare p s) := by
    unfold prepare
    refine .meet ?_ _
    split
    · exact h
    · unfold noteStatement
      exact Placed.of_ground ((((h.noteLabel ..).macro? s.opcode)).meet _) rfl
  rcases process_cases hr with hc | ⟨-, hr⟩
  · exact hp.conditional? hc
  · exact hp.processSubstituted hr

/-! ### Listings -/

theorem Placed.leave (h : Placed file a) : Placed file a.leave := by
  unfold Assembly.leave
  split
  · exact h
  · rename_i p outer _
    have ho : Placed file { a with control := outer } := h.of_ground rfl
    refine ho.attempt fun x hx => ?_
    dsimp only at hx
    cases hl : p.listing with
    | openCode statements f =>
      rw [hl] at hx
      exact Except.ok.inj hx ▸ ho
    | copyMember m =>
      rw [hl] at hx
      have hx : a.context.leaveCopy = .ok x := hx
      unfold Context.leaveCopy at hx
      split at hx
      · obtain rfl := Except.ok.inj hx
        rw [mapSource_of_nil h.sources]
        exact ho.of_ground rfl
      · cases hx
    | macroBody d =>
      rw [hl] at hx
      have hx : a.context.leaveMacro = .ok x := hx
      unfold Context.leaveMacro at hx
      split at hx
      · rename_i c cs hc
        obtain rfl := Except.ok.inj hx
        refine { ho with calls := fun d hd => h.calls d ?_ }
        rw [hc]
        exact List.mem_cons_of_mem _ hd
      · cases hx

theorem Placed.proceed (h : Placed file a) (p : Activation) (outer : List Activation) (flow : Flow) :
    Placed file (a.proceed p outer flow) := by
  cases flow with
  | next => exact h.of_ground rfl
  | jump i => exact h.of_ground rfl
  | enter l => exact h.of_ground rfl
  | exit =>
    unfold Assembly.proceed
    dsimp only
    split
    · exact h.leave
    · generalize a.control = l
      induction l generalizing a with
      | nil => exact h
      | cons q rest ih => exact ih h.leave

theorem Placed.moveTo (h : Placed file a) (p : Activation) (s : Statement) : Placed file (a.moveTo p s) := by
  unfold Assembly.moveTo mapContext
  dsimp only
  split
  · unfold Context.setMacroStatement
    split
    · rename_i hc
      refine h.of_ground ?_
      simp only [ground, hc, List.map_cons]
    · exact h
  · unfold Context.track
    split
    · rw [mapSource_of_nil h.sources]
      exact h.of_ground rfl
    · unfold Context.setIndices Context.setPosition
      rw [mapSource_of_nil h.sources, mapSource_of_nil (by exact h.sources)]
      exact h.of_ground rfl

theorem Placed.readDefinition (h : Placed file a) {p : Activation}
    (hp : ∀ d, p.definition? = some d → d.NamesMembers) (outer : List Activation) :
    Placed file (a.readDefinition p outer) := by
  have hitems : ∀ n ∈ throughMend 0 (nestedStatements p), NamesMembers n.nest := by
    intro n hn
    rw [throughMend_eq_take] at hn
    have hn := List.mem_of_mem_take hn
    unfold nestedStatements at hn
    split at hn
    · rename_i d hd
      exact (hp d hd).nestedBody n (List.mem_of_mem_drop hn)
    · obtain ⟨s, -, rfl⟩ := List.mem_map.1 hn
      exact nofun
  unfold Assembly.readDefinition
  dsimp only
  refine .proceed ?_ ..
  split
  · exact h.define hitems false
  · have hpush : Placed file (a.mapContext (·.pushLevel .macroDefinition)) := h.of_ground rfl
    exact (hpush.define hitems false).popLevel

/-- **One step keeps in place what is processed.** -/
theorem Placed.step {j : Job} (h : Placed file a) (hb : Balanced j a) (hs : a.step = .ok b) : Placed file b := by
  cases effect_of_step hs with
  | finished => exact h
  | behind => exact h.leave
  | @definition p outer s hc =>
    refine (h.moveTo p s).readDefinition (fun d hd => ?_) outer
    have hn := hb.nested
    rw [hc] at hn
    obtain ⟨ds, hds, -⟩ := hn.eq_cons_of_macroBody hd
    exact h.calls d (hds ▸ List.mem_cons_self)
  | mend => exact (h.moveTo ..).leave
  | executed _ _ _ _ hr => exact ((h.moveTo ..).process hr).proceed ..

end Operations

/-! ### Runs -/

theorem placed_fresh (file text : String) (library : Library) (settings : Settings) (now : Moment) :
    Placed file (fresh file text library settings now) where
  base := rfl
  sources := rfl
  calls := nofun
  macros hd := nomatch hd
  names := .nil
  symbols s hs := absurd hs (Array.not_mem_empty s)
  declarations := nofun
  openCode := ⟨_, Table.find?_insert .. |>.trans (if_pos rfl)⟩

/-- **A run keeps in place what is processed.** -/
theorem Reaches.placed {file text : String} {library : Library} {settings : Settings} {now : Moment} {a : Assembly}
    (h : (fresh file text library settings now).Reaches a) : Placed file a := by
  have hboth := h.induction (P := fun x => Placed file x ∧
      Balanced ⟨(statementsOf text.toList).toArray, file, library, settings⟩ x)
    (fun _ _ hx hy => ⟨hx.1.step hx.2 hy, hx.2.step hy⟩) ⟨placed_fresh .., balanced_fresh ..⟩
  exact hboth.1

end Assembly

end AssemblerIndex
