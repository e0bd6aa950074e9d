import AssemblerIndex.Proofs.Assembly.SymbolStacks

/-!
# What is recorded in a run

Macros and occurrences are recorded by two things only: a statement of open code is noted before it is processed, and a
definition is read and registered.

* `Annals.noted`, `Annals.registered` — what these two do to the annals;
* `Captured` — how the record of a definition came by: it was read from a listing, where it begins at a `MACRO`;
* `Chronicle` — the annals with all definitions that have been registered, in order;
* `Reaches.chronicled` — **the annals of every run have a chronicle**, and every macro that is being expanded is in it.

So what the two preserve holds of all annals; `Chronicle.eq_of_serial_eq` is a first use.
-/

namespace AssemblerIndex

open Assembly (Job nestedStatements)

namespace Annals

/-- The annals when a statement of a file, with the macro that it calls, has been noted. -/
def noted (n : Annals) (file : String) (s : Statement) (callee : Option MacroDefinition) : Annals :=
  { n with occurrences := ((s.occurrences callee).map (file, ·)).reverse ++ n.occurrences }

/-- The definition as it is registered. -/
def entered (n : Annals) (d : MacroDefinition) : MacroDefinition := { d with serial := n.registrations }

/-- The annals when a definition has been registered. -/
def registered (n : Annals) (r : MacroRecord) : Annals :=
  let d := n.entered r.definition
  { n with
    macros := n.macros.insert d.name d
    registrations := n.registrations + 1
    records := if n.records.any (·.isAt d.location) then n.records else { r with definition := d } :: n.records }

end Annals

/-- The statements of a listing, where `ds` are the macros: those of open code, of a member of the library, or of the
body of a macro. -/
inductive Listed (j : Job) (ds : List MacroDefinition) : List NestedStatement → Prop
  | openCode : Listed j ds (j.statements.toList.map (.direct j.file))
  | member {name : String} {found : LibraryMember} (find : j.library.find? name = some found) :
    Listed j ds ((statementsOf found.text.toList).map (.direct found.uri))
  | body {d : MacroDefinition} (mem : d ∈ ds) : Listed j ds d.nestedBody

/-- The items are what a definition reaches over that begins at a `MACRO` of the listing. -/
def DefinitionIn (listing items : List NestedStatement) : Prop :=
  ∃ tail, tail <:+ listing ∧ (∀ n ∈ tail.head?, n.statement.opcode = "MACRO") ∧ items = throughMend 0 tail

theorem DefinitionIn.isPiece {listing items : List NestedStatement} (h : DefinitionIn listing items) :
    items <:+: listing := by
  obtain ⟨tail, hsuffix, -, rfl⟩ := h
  rw [throughMend_eq_take]
  exact (List.take_prefix ..).isInfix.trans hsuffix.isInfix

/-- The record is that of a definition that was read from a listing, when `ds` were the macros. -/
inductive Captured (j : Job) (ds : List MacroDefinition) : MacroRecord → Prop
  | read {a : Assembly} {opening prototype : NestedStatement} {rest listing : List NestedStatement} (isExternal : Bool)
    (informed : a.Informed (NestedStatement.Traced j)) (library : a.library = j.library)
    (known : ∀ {n d}, a.context.macros.find? n = some d → d ∈ ds) (listed : Listed j ds listing)
    (found : DefinitionIn listing (opening :: prototype :: rest))
    (traced : ∀ n ∈ opening :: prototype :: rest, n.Traced j) :
    Captured j ds ((a.read opening prototype rest).record opening.file prototype.statement
      ⟨opening.statement.span.start.line, ((rest.getLast?).getD prototype).statement.span.stop.line + 1⟩ isExternal)

/-- The annals, and all definitions that have been registered. -/
inductive Chronicle (j : Job) : Annals → List MacroDefinition → Prop
  | start : Chronicle j ⟨{}, 0, [], []⟩ []
  | noted {n : Annals} {ds : List MacroDefinition} {file : String} {s : Statement} {callee : Option MacroDefinition}
    (h : Chronicle j n ds) (written : Written j file s) (known : ∀ d ∈ callee, d ∈ ds) :
    Chronicle j (n.noted file s callee) ds
  | registered {n : Annals} {ds : List MacroDefinition} {r : MacroRecord} (h : Chronicle j n ds)
    (captured : Captured j ds r) : Chronicle j (n.registered r) (ds ++ [n.entered r.definition])

section

variable {j : Job} {n : Annals} {ds : List MacroDefinition}

theorem Chronicle.registrations_eq (h : Chronicle j n ds) : n.registrations = ds.length := by
  induction h with
  | start => rfl
  | noted _ _ _ ih => exact ih
  | registered _ _ ih => simp [Annals.registered, ih]

/-- Serials count the definitions. -/
theorem Chronicle.serial_eq (h : Chronicle j n ds) {i : Nat} {d : MacroDefinition} (hd : ds[i]? = some d) :
    d.serial = i := by
  induction h with
  | start => simp at hd
  | noted _ _ _ ih => exact ih hd
  | registered h _ ih =>
    rcases Nat.lt_or_ge i (List.length _) with hi | hi
    · exact ih (by rwa [List.getElem?_append_left hi] at hd)
    · rw [List.getElem?_append_right hi, List.getElem?_singleton] at hd
      split at hd
      · cases hd
        show Annals.registrations _ = i
        rw [h.registrations_eq]
        omega
      · cases hd

theorem Chronicle.eq_of_serial_eq (h : Chronicle j n ds) {d e : MacroDefinition} (hd : d ∈ ds) (he : e ∈ ds)
    (hserial : d.serial = e.serial) : d = e := by
  obtain ⟨i, hi⟩ := List.getElem?_of_mem hd
  obtain ⟨k, hk⟩ := List.getElem?_of_mem he
  rw [h.serial_eq hi, h.serial_eq hk] at hserial
  subst hserial
  exact Option.some.inj (hi.symm.trans hk)

/-- The macros that can be called have been registered. -/
theorem Chronicle.mem_of_find? (h : Chronicle j n ds) {name : String} {d : MacroDefinition}
    (hd : n.macros.find? name = some d) : d ∈ ds := by
  induction h with
  | start => cases hd
  | noted _ _ _ ih => exact ih hd
  | registered _ _ ih =>
    unfold Annals.registered at hd
    dsimp only at hd
    rw [Table.find?_insert] at hd
    split at hd
    · cases hd
      exact List.mem_append_right _ List.mem_cons_self
    · exact List.mem_append_left _ (ih hd)

/-- The definitions of records have been registered. -/
theorem Chronicle.definition_mem (h : Chronicle j n ds) {r : MacroRecord} (hr : r ∈ n.records) : r.definition ∈ ds := by
  induction h with
  | start => cases hr
  | noted _ _ _ ih => exact ih hr
  | registered _ _ ih =>
    unfold Annals.registered at hr
    dsimp only at hr
    split at hr
    · exact List.mem_append_left _ (ih hr)
    · rcases List.mem_cons.1 hr with rfl | hr
      · exact List.mem_append_right _ List.mem_cons_self
      · exact List.mem_append_left _ (ih hr)

/-- Every record is that of a definition that was read when some of the definitions had been registered. -/
theorem Chronicle.exists_captured (h : Chronicle j n ds) {r : MacroRecord} (hr : r ∈ n.records) :
    ∃ (m : Annals) (known : List MacroDefinition) (q : MacroRecord), Chronicle j m known ∧ known ⊆ ds ∧
      Captured j known q ∧ r = { q with definition := m.entered q.definition } := by
  induction h with
  | start => cases hr
  | noted _ _ _ ih => exact ih hr
  | @registered n ds p h captured ih =>
    have hgrows (hr : r ∈ n.records) : ∃ (m : Annals) (known : List MacroDefinition) (q : MacroRecord),
        Chronicle j m known ∧ known ⊆ ds ++ [n.entered p.definition] ∧ Captured j known q ∧
          r = { q with definition := m.entered q.definition } := by
      obtain ⟨m, known, q, hm, hknown, hq⟩ := ih hr
      exact ⟨m, known, q, hm, List.subset_append_of_subset_left _ hknown, hq⟩
    unfold Annals.registered at hr
    dsimp only at hr
    split at hr
    · exact hgrows hr
    · rcases List.mem_cons.1 hr with rfl | hr
      · exact ⟨n, ds, p, h, List.subset_append_left .., captured, rfl⟩
      · exact hgrows hr

end

/-! ### Occurrences -/

/-- Each name of a file stands for the same statements, whether it is that of open code or of a member. -/
structure SameStatements (j : Job) : Prop where
  openCode : ∀ {s}, Written j j.file s → s ∈ j.statements
  member : ∀ {name found s}, j.library.find? name = some found → Written j found.uri s →
    s ∈ statementsOf found.text.toList

/-- All statements of a file are those of one source. -/
theorem SameStatements.exists_source {j : Job} (same : SameStatements j) {text : List Char}
    (hsource : j.statements.toList = statementsOf text) (file : String) :
    ∃ source : List Char, ∀ {s : Statement}, Written j file s → s ∈ statementsOf source := by
  by_cases hfile : file = j.file
  · subst hfile
    exact ⟨text, fun hs => hsource ▸ Array.mem_toList_iff.2 (same.openCode hs)⟩
  · by_cases hmember : ∃ name found, j.library.find? name = some found ∧ found.uri = file
    · obtain ⟨name, found, find, rfl⟩ := hmember
      exact ⟨found.text.toList, fun hs => same.member find hs⟩
    · refine ⟨[], fun hs => ?_⟩
      cases hs with
      | openCode => exact absurd rfl hfile
      | member find => exact absurd ⟨_, _, find, rfl⟩ hmember

/-- The occurrence in a file is one in a statement of that file, and a macro that the statement calls is among `ds`. -/
def Recorded (j : Job) (ds : List MacroDefinition) (e : String × Occurrence) : Prop :=
  ∃ s callee, Written j e.1 s ∧ e.2 ∈ s.occurrences callee ∧ ∀ d ∈ callee, d ∈ ds

section

variable {j : Job} {n : Annals} {ds : List MacroDefinition} {e : String × Occurrence}

theorem Recorded.mono (h : Recorded j ds e) {ds' : List MacroDefinition} (hds : ds ⊆ ds') : Recorded j ds' e := by
  obtain ⟨s, callee, hwritten, ho, hknown⟩ := h
  exact ⟨s, callee, hwritten, ho, fun d hd => hds (hknown d hd)⟩

theorem Captured.recorded {r : MacroRecord} (h : Captured j ds r) (he : e ∈ r.occurrences) : Recorded j ds e := by
  obtain ⟨isExternal, informed, library, known, listed, found, traced⟩ := h
  obtain ⟨hopening, hprototype, hrest⟩ : _ ∧ _ ∧ _ := by simpa using traced
  obtain ⟨k, callee, hk, hfile, ho, hknown⟩ :=
    Assembly.occursIn_read informed.inherited _ _ hrest e (List.mem_reverse.1 he)
  have hk : k.Traced j := by
    rcases hk with rfl | rfl | ⟨hk, -⟩
    · exact hopening
    · exact hprototype
    · exact hk
  refine ⟨k.statement, callee, hfile ▸ (hk "").written, ho, fun d hd => ?_⟩
  obtain ⟨name, hname⟩ := hknown d hd
  exact known hname

/-- **Whatever has been recorded is an occurrence in a statement of its file.** -/
theorem Chronicle.recorded (h : Chronicle j n ds) (he : e ∈ n.occurrences ∨ ∃ r ∈ n.records, e ∈ r.occurrences) :
    Recorded j ds e := by
  rcases he with he | ⟨r, hr, he⟩
  · induction h with
    | start => cases he
    | @noted n ds file s callee _ written known ih =>
      rcases List.mem_append.1 he with he | he
      · obtain ⟨o, ho, rfl⟩ := List.mem_map.1 (List.mem_reverse.1 he)
        exact ⟨s, callee, written, ho, known⟩
      · exact ih he
    | registered _ _ ih => exact (ih he).mono (List.subset_append_left ..)
  · obtain ⟨m, known, q, -, hknown, hq, rfl⟩ := h.exists_captured hr
    exact (hq.recorded he).mono hknown

end

namespace Assembly

theorem annals_register (a : Assembly) (r : MacroRecord) : (a.register r).1.annals = a.annals.registered r := by
  unfold register Context.addMacro annals Annals.registered Annals.entered
  dsimp only
  split <;> simp_all

theorem annals_of_loads {a b : Assembly} (h : a.Loads b) : b.annals = a.annals := by
  rw [h.frame]
  rfl

theorem annals_popLevel (a : Assembly) : (a.attempt Context.popLevel).annals = a.annals := by
  unfold attempt Context.popLevel
  cases a.context.levels <;> rfl

theorem annals_addFile (a : Assembly) (file : String) (content : FileContent) (text : String) :
    (a.addFile file content text).annals = a.annals := by
  unfold addFile
  split <;> rfl

/-- The chronicle of `a` is carried on to `b`. -/
def Carries (j : Job) (a b : Assembly) : Prop :=
  ∀ ds, Chronicle j a.annals ds → ∃ ds', ds <+: ds' ∧ Chronicle j b.annals ds'

section

variable {j : Job} {a b c : Assembly} {ds : List MacroDefinition}

theorem Carries.of_annals (h : b.annals = a.annals) : Carries j a b :=
  fun ds hds => ⟨ds, List.prefix_rfl, h ▸ hds⟩

theorem Carries.refl (a : Assembly) : Carries j a a := .of_annals rfl

theorem Carries.trans (h : Carries j a b) (h' : Carries j b c) : Carries j a c := by
  intro ds hds
  obtain ⟨ds₁, hgrows₁, hds₁⟩ := h ds hds
  obtain ⟨ds₂, hgrows₂, hds₂⟩ := h' ds₁ hds₁
  exact ⟨ds₂, hgrows₁.trans hgrows₂, hds₂⟩

/-! ### Definitions -/

/-- A definition that is read from a listing is recorded. -/
theorem exists_chronicle_define (h : Chronicle j a.annals ds) (ha : a.Informed (NestedStatement.Traced j))
    (hl : a.library = j.library) {items listing : List NestedStatement} (hlisted : Listed j ds listing)
    (hfound : DefinitionIn listing items) (htraced : ∀ n ∈ items, n.Traced j) (isExternal : Bool) :
    ∃ ds', ds <+: ds' ∧ Chronicle j (a.define items isExternal).1.annals ds' := by
  unfold define
  split
  · rename_i opening prototype rest
    dsimp only
    split
    · exact ⟨ds, List.prefix_rfl, h⟩
    · generalize hmet : a.meet (prototype.statement.opcode ::
        (prototypeDeclarations opening.file prototype.statement).map (·.name)) = b
      have hcaptured : Captured j ds ((b.read opening prototype rest).record opening.file prototype.statement
          ⟨opening.statement.span.start.line, ((rest.getLast?).getD prototype).statement.span.stop.line + 1⟩
          isExternal) :=
        .read isExternal (hmet ▸ ha.meet _) (hmet ▸ hl) (fun hd => h.mem_of_find? (hmet ▸ hd)) hlisted hfound htraced
      have hread : (b.read opening prototype rest).assembly.annals = a.annals := by
        rw [annals_of_loads (loads_read ..), ← hmet]
        rfl
      rw [← hread] at h
      rw [annals_register]
      exact ⟨_, List.prefix_append ds _, .registered h hcaptured⟩
  · exact ⟨ds, List.prefix_rfl, h⟩

theorem carries_loadMacro (ha : a.Informed (NestedStatement.Traced j)) (hl : a.library = j.library) (name : String) :
    Carries j a (a.loadMacro name).1 := by
  intro ds h
  unfold loadMacro
  split
  · exact ⟨ds, List.prefix_rfl, h⟩
  · split
    · exact ⟨ds, List.prefix_rfl, h⟩
    · rename_i found hfound
      have hfound : j.library.find? name = some found := hl ▸ hfound
      dsimp only
      generalize hnested : (statementsOf found.text.toList).map (NestedStatement.direct found.uri) = nested
      have hdefinition : DefinitionIn nested (throughMend 0 (nested.dropWhile (·.statement.opcode ≠ "MACRO"))) := by
        refine ⟨_, List.dropWhile_suffix _, fun n hn => ?_, rfl⟩
        have := List.head?_dropWhile_not (fun n : NestedStatement => decide (n.statement.opcode ≠ "MACRO")) nested
        rw [Option.mem_def.1 hn] at this
        simpa using this
      have htraced : ∀ n ∈ throughMend 0 (nested.dropWhile (·.statement.opcode ≠ "MACRO")), n.Traced j := by
        intro n hn
        have hn := hdefinition.isPiece.subset hn
        rw [← hnested] at hn
        obtain ⟨s, hs, rfl⟩ := List.mem_map.1 hn
        exact traced_direct (.member hfound hs)
      have hpush : (a.mapContext (·.pushSource .macroDefinition found.uri)).Informed (NestedStatement.Traced j) :=
        ⟨ha.sound.of_names rfl fun _ => id, ha.inherent, ha.macros⟩
      obtain ⟨ds', hgrows, hds'⟩ := exists_chronicle_define (a := a.mapContext (·.pushSource .macroDefinition found.uri))
        h hpush hl (hnested ▸ .member hfound) hdefinition htraced true
      refine ⟨ds', hgrows, ?_⟩
      split
      · rwa [annals_addFile, annals_popLevel]
      · exact (annals_popLevel _).symm ▸ hds'

theorem carries_macro? (ha : a.Informed (NestedStatement.Traced j)) (hl : a.library = j.library) (opcode : String) :
    Carries j a (a.macro? opcode).1 := by
  unfold macro?
  split
  · exact .refl a
  · have hmeet : Carries j a (a.meet [opcode]) := .of_annals rfl
    dsimp only
    split
    · exact hmeet
    · split
      · exact hmeet
      · split
        · exact hmeet
        · exact hmeet.trans (carries_loadMacro (ha.meet _) hl _)

theorem carries_defineSynonym (ha : a.Informed (NestedStatement.Traced j)) (hl : a.library = j.library)
    (s : Statement) : Carries j a (a.defineSynonym s) := by
  have entered (b : Assembly) (name target : String) : Carries j b (b.attempt (·.addSynonym name target)) := by
    refine .of_annals ?_
    rcases addSynonym_cases b.context name target with ⟨t, ht⟩ | he
    · rw [attempt_of_ok (f := (·.addSynonym name target)) ht]
      rfl
    · rw [attempt_of_error (f := (·.addSynonym name target)) he]
      rfl
  unfold defineSynonym
  split
  · exact .refl a
  · dsimp only
    split
    · refine Carries.trans ?_ (entered _ _ _)
      split
      · exact .of_annals rfl
      · exact Carries.trans (.of_annals rfl) (carries_loadMacro ((ha.meet _).meet _) hl _)
    · exact .of_annals rfl

/-! ### Ordinary statements -/

theorem annals_defineLabel (a : Assembly) (file : String) (s : Statement) (value : SymbolValue)
    (attributes : SymbolAttributes) : (a.defineLabel file s value attributes).annals = a.annals := by
  unfold defineLabel
  split <;> rfl

theorem annals_defineData {file : String} {s : Statement} {labelled : Bool} {os : List Field}
    (h : a.defineData file s labelled os = .ok b) : b.annals = a.annals := by
  induction os generalizing a labelled with
  | nil => exact Except.ok.inj h ▸ rfl
  | cons o rest ih =>
    unfold defineData at h
    split at h
    · exact ih h
    · cases h
    · refine (ih h).trans ?_
      split
      · rfl
      · exact annals_defineLabel (a.mapSymbols _) ..

theorem carries_ordinary (ha : a.Informed (NestedStatement.Traced j)) (hl : a.library = j.library) {file : String}
    {s : Statement} {opcode : String} (h : a.ordinary file s opcode = .ok b) : Carries j a b := by
  have hequate : (a.equate file s).annals = a.annals := by
    unfold equate
    split
    · rfl
    · exact annals_defineLabel (a.mapSymbols _) ..
  have hcounter : (a.startCounter file s).annals = a.annals := by
    unfold startCounter
    split <;> rfl
  have hmachine : (a.machine file s opcode).annals = a.annals := annals_defineLabel (a.mapSymbols _) ..
  cases effect_of_ordinary h with
  | startSection => exact .of_annals rfl
  | startCounter => exact .of_annals hcounter
  | equate => exact .of_annals hequate
  | defineData _ h => exact .of_annals (annals_defineData h)
  | defineSynonym => exact carries_defineSynonym ha hl s
  | machine => exact .of_annals hmachine
  | nothing => exact .refl a

/-! ### Statements -/

/-- A macro that is entered is one that can be called. -/
def EntersMacro (b : Assembly) (flow : Flow) : Prop :=
  ∀ d, flow = .enter (.macroBody d) → ∃ n, b.context.macros.find? n = some d

theorem annals_callMacro {d : MacroDefinition} (hd : a.context.macros.find? d.name = some d) (s : Statement) :
    (a.callMacro d s).1.annals = a.annals ∧ EntersMacro (a.callMacro d s).1 (a.callMacro d s).2 := by
  unfold callMacro
  split
  · exact ⟨rfl, nofun⟩
  · dsimp only
    generalize s.operands.map (fun o => Argument.ofText o.text) = args
    generalize hmet : a.meet (args.filterMap (·.keyword)) = b
    have hannals : b.annals = a.annals := hmet ▸ rfl
    have hd' : b.context.macros.find? d.name = some d := hmet ▸ hd
    obtain ⟨c, ns, v, hx, hc, -, -⟩ := exists_enterMacro hd' (labelData? s) args
    rw [hx]
    refine ⟨hannals, fun e he => ⟨d.name, ?_⟩⟩
    cases he
    exact hd'.trans (congrArg some hc.symm)

theorem annals_copy (a : Assembly) (s : Statement) :
    (a.copy s).1.annals = a.annals ∧ EntersMacro (a.copy s).1 (a.copy s).2 := by
  unfold copy
  split
  · rename_i c cs _ _ _
    have hloads := annals_of_loads (loads_copyMember? a (String.ofList (Text.upperChars (c :: cs))))
    split
    · rename_i b hb
      rw [hb] at hloads
      exact ⟨hloads, nofun⟩
    · rename_i b m hb
      rw [hb] at hloads
      split
      · exact ⟨hloads, nofun⟩
      · unfold Context.enterCopy
        split
        · rename_i x hx
          split at hx
          · cases hx
            refine ⟨Eq.trans ?_ hloads, nofun⟩
            unfold Context.mapSource
            cases b.context.sources <;> rfl
          · cases hx
        · exact ⟨hloads, nofun⟩
  · exact ⟨rfl, nofun⟩

theorem carries_processSubstituted (ha : a.Informed (NestedStatement.Traced j)) (hl : a.library = j.library)
    {p : Activation} {s : Statement} {flow : Flow} (h : a.processSubstituted p s = .ok (b, flow)) :
    Carries j a b ∧ EntersMacro b flow := by
  rcases effect_of_processSubstituted h with ⟨-, rfl, rfl⟩ | ⟨-, h⟩
  · exact ⟨.refl _, nofun⟩
  have hmeet : Carries j a (a.meet [s.opcode]) := .of_annals rfl
  have ha₁ := ha.meet [s.opcode]
  have hl₁ : (a.meet [s.opcode]).library = j.library := hl
  generalize a.meet [s.opcode] = a₁ at h hmeet ha₁ hl₁
  generalize a₁.context.operation s.opcode = op at h
  have hcarries := hmeet.trans (carries_macro? ha₁ hl₁ op)
  cases h with
  | removed => exact ⟨hmeet, nofun⟩
  | copyInMacro => exact ⟨hmeet, nofun⟩
  | copy _ _ h =>
    have hcopy := annals_copy a₁ s
    rw [h] at hcopy
    exact ⟨hmeet.trans (.of_annals hcopy.1), hcopy.2⟩
  | finishInMacro => exact ⟨hmeet, nofun⟩
  | finish => exact ⟨hmeet, nofun⟩
  | callMacro _ hd h =>
    have hcall := annals_callMacro (find?_of_macro? ha₁.sound hd) s
    rw [h] at hcall
    exact ⟨hcarries.trans (.of_annals hcall.1), hcall.2⟩
  | ordinary _ _ ho =>
    have hl₂ := (spares_macro? a₁ op).library.trans hl₁
    exact ⟨hcarries.trans (carries_ordinary (ha₁.macro? op) hl₂ ho), nofun⟩

/-- Noting a statement of open code carries the chronicle on. -/
theorem carries_prepare (ha : a.Informed (NestedStatement.Traced j)) (hl : a.library = j.library) {p : Activation}
    {s : Statement} (hcalls : p.definition? = none → a.context.calls = []) (hwritten : Written j p.file s) :
    Carries j a (a.prepare p s) := by
  unfold prepare
  refine Carries.trans ?_ (.of_annals rfl)
  split
  · exact .refl a
  · rename_i hp
    have hp : p.definition? = none := by simpa using hp
    have hstays := (holds_noteLabel (hcalls hp) p.file p.index s).toStays
    have hstanding := standing_noteLabel a p.file p.index s
    have hlabel : Carries j a (a.noteLabel p.file p.index s) := .of_annals (congrArg Prod.snd hstanding)
    have ha₁ := ha.of_stays hstays (congrArg (Annals.macros ∘ Prod.snd) hstanding)
    refine hlabel.trans ((carries_macro? ha₁ (hstays.library.trans hl) s.opcode).trans ?_)
    -- the macro that is called is known when the statement is noted
    intro ds hds
    refine ⟨ds, List.prefix_rfl, hds.noted hwritten fun d hd => ?_⟩
    exact hds.mem_of_find? (find?_of_macro? ha₁.sound hd)

theorem carries_process (ha : a.Informed (NestedStatement.Traced j)) (hl : a.library = j.library) {p : Activation}
    {s : Statement} (hcalls : p.definition? = none → a.context.calls = []) (hwritten : Written j p.file s)
    {flow : Flow} (h : a.process p s = .ok (b, flow)) :
    Carries j a b ∧ EntersMacro b flow := by
  have hprepare : Carries j a (a.prepare p s) := carries_prepare ha hl hcalls hwritten
  have hm : Marks j p.file s a (a.prepare p s) := marks_prepare hcalls s
  have hp := holds_prepare hcalls s
  rcases process_cases h with hr | ⟨-, h⟩
  · obtain ⟨hstanding, inside⟩ := standing_conditional? hr
    exact ⟨hprepare.trans (.of_annals (congrArg Prod.snd hstanding)), fun d hd => absurd hd (inside _)⟩
  · have hprocess := carries_processSubstituted (hm.informed ha) (hp.library.trans hl) h
    exact ⟨hprepare.trans hprocess.1, hprocess.2⟩

/-! ### Steps -/

theorem Shifts.annals (h : a.Shifts b) : b.annals = a.annals := by
  obtain ⟨_, _, _, _, _, rfl⟩ := h
  rfl

/-- The assembly has a chronicle, which holds the macros that are being expanded. -/
structure Chronicled (j : Job) (a : Assembly) (ds : List MacroDefinition) : Prop where
  chronicle : Chronicle j a.annals ds
  expanded : ∀ p ∈ a.control, ∀ d ∈ p.definition?, d ∈ ds

/-- The macros that are being expanded behind a statement were so before it, or one has been entered. -/
theorem definition_of_mem_proceed {p q : Activation} {outer : List Activation} {flow : Flow} {d : MacroDefinition}
    (hc : flow = .exit → a.control = p :: outer) (hq : q ∈ (a.proceed p outer flow).control)
    (hd : q.definition? = some d) : (∃ q ∈ p :: outer, q.definition? = some d) ∨ flow = .enter (.macroBody d) := by
  cases flow with
  | next =>
    rcases List.mem_cons.1 hq with rfl | hq
    · exact .inl ⟨p, List.mem_cons_self, hd⟩
    · exact .inl ⟨q, List.mem_cons_of_mem _ hq, hd⟩
  | jump i =>
    rcases List.mem_cons.1 hq with rfl | hq
    · exact .inl ⟨p, List.mem_cons_self, hd⟩
    · exact .inl ⟨q, List.mem_cons_of_mem _ hq, hd⟩
  | enter l =>
    rcases List.mem_cons.1 hq with rfl | hq
    · refine .inr ?_
      cases l <;> cases hd
      rfl
    · rcases List.mem_cons.1 hq with rfl | hq
      · exact .inl ⟨p, List.mem_cons_self, hd⟩
      · exact .inl ⟨q, List.mem_cons_of_mem _ hq, hd⟩
  | exit =>
    have hleave (l : List Activation) (x : Assembly) : (l.foldl (fun x _ => x.leave) x).control ⊆ x.control := by
      induction l generalizing x with
      | nil => exact fun _ => id
      | cons _ rest ih => exact List.Subset.trans (ih x.leave) (control_leave x ▸ List.tail_subset _)
    refine .inl ⟨q, hc rfl ▸ ?_, hd⟩
    unfold proceed at hq
    dsimp only at hq
    split at hq
    · rw [control_leave] at hq
      exact List.mem_of_mem_tail hq
    · exact hleave _ _ hq

theorem Chronicled.of_shifts (h : Chronicled j a ds) (hb : a.Shifts b) (hcontrol : b.control ⊆ a.control) :
    Chronicled j b ds :=
  ⟨hb.annals ▸ h.chronicle, fun p hp => h.expanded p (hcontrol hp)⟩

theorem Chronicled.leave (h : Chronicled j a ds) : Chronicled j a.leave ds :=
  h.of_shifts (shifts_leave a) (control_leave a ▸ List.tail_subset _)

/-- Processing goes on behind a statement that carried the chronicle on. -/
theorem Chronicled.proceed {p : Activation} {outer : List Activation} {flow : Flow} (h : Chronicled j a ds)
    (hc : a.control = p :: outer) {ds' : List MacroDefinition} (hgrows : ds <+: ds') (hb : Chronicle j b.annals ds')
    (hexit : flow = .exit → b.control = p :: outer) (henters : EntersMacro b flow) :
    Chronicled j (b.proceed p outer flow) ds' := by
  refine ⟨(shifts_proceed b p outer flow).annals ▸ hb, fun q hq d hd => ?_⟩
  rcases definition_of_mem_proceed hexit hq hd with ⟨q', hq', hd'⟩ | hflow
  · exact hgrows.subset (h.expanded q' (hc ▸ hq') d hd')
  · obtain ⟨n, hn⟩ := henters d hflow
    exact hb.mem_of_find? hn

/-- The statements of the innermost listing are a piece of what is listed. -/
theorem exists_listed {p : Activation} {outer : List Activation} {l : Location} {cs : List CopyCursor}
    {is : List Invocation} (h : Ready j (p :: outer) l cs is) (hd : ∀ d ∈ p.definition?, d ∈ ds) :
    ∃ listing, Listed j ds listing ∧ nestedStatements p <:+ listing := by
  cases h with
  | openCode i file =>
    refine ⟨_, .openCode, ?_⟩
    exact (List.drop_suffix i _).map _
  | copy i n h find =>
    refine ⟨_, .member find, ?_⟩
    exact (List.drop_suffix i _).map _
  | call i h traced => exact ⟨_, .body (hd _ rfl), List.drop_suffix i _⟩

theorem head?_nestedStatements {p : Activation} {s : Statement} (hs : p.statement? = some s) :
    ∀ n ∈ (nestedStatements p).head?, n.statement = s := by
  intro n hn
  obtain ⟨listing, i⟩ := p
  unfold nestedStatements at hn
  cases listing <;>
    simp only [Activation.definition?, List.head?_map, List.head?_drop, MacroDefinition.nestedBody,
      List.getElem?_mapIdx, Option.mem_def, Option.map_eq_some_iff, Array.getElem?_toList] at hn <;>
    obtain ⟨t, ht, rfl⟩ := hn <;>
    exact Option.some.inj (ht.symm.trans hs)

/-- A definition that is read is recorded. -/
theorem Chronicled.readDefinition {p : Activation} {outer : List Activation} {s : Statement} (h : Chronicled j a ds)
    (hx : Executing j p outer s a) (opens : s.opcode = "MACRO") :
    ∃ ds', ds <+: ds' ∧ Chronicled j (a.readDefinition p outer) ds' := by
  have hready := hx.oriented.ready
  rw [hx.control] at hready
  obtain ⟨listing, hlisted, hsuffix⟩ := exists_listed hready (h.expanded p (hx.control ▸ List.mem_cons_self))
  have hfound : DefinitionIn listing (throughMend 0 (nestedStatements p)) :=
    ⟨_, hsuffix, fun n hn => head?_nestedStatements hx.statement n hn ▸ opens, rfl⟩
  have htraced : ∀ n ∈ throughMend 0 (nestedStatements p), n.Traced j := by
    intro n hn
    rw [throughMend_eq_take] at hn
    exact hready.traced n (List.mem_of_mem_take hn)
  unfold Assembly.readDefinition
  dsimp only
  split
  · obtain ⟨ds', hgrows, hds'⟩ :=
      exists_chronicle_define h.chronicle hx.informed hx.balanced.library hlisted hfound htraced false
    exact ⟨ds', hgrows, h.proceed hx.control hgrows hds' nofun nofun⟩
  · have hpush : (a.mapContext (·.pushLevel .macroDefinition)).Informed (NestedStatement.Traced j) :=
      ⟨hx.informed.sound.of_names rfl fun _ => id, hx.informed.inherent, hx.informed.macros⟩
    obtain ⟨ds', hgrows, hds'⟩ := exists_chronicle_define (a := a.mapContext (·.pushLevel .macroDefinition))
      h.chronicle hpush hx.balanced.library hlisted hfound htraced false
    exact ⟨ds', hgrows, h.proceed hx.control hgrows ((annals_popLevel _).symm ▸ hds') nofun nofun⟩

/-- A statement that is processed carries the chronicle on. -/
theorem Chronicled.process {p : Activation} {outer : List Activation} {s : Statement} {flow : Flow}
    (h : Chronicled j a ds) (hx : Executing j p outer s a) (hr : a.process p s = .ok (b, flow)) :
    ∃ ds', ds <+: ds' ∧ Chronicled j (b.proceed p outer flow) ds' := by
  have hcalls (hd : p.definition? = none) := hx.balanced.calls_eq_nil hx.control hd
  have hwritten : Written j p.file s :=
    ((@Tracks.leads _ _ _ a.context.base hx.tracked).getLast? hx.statement).1
  obtain ⟨hcarries, henters⟩ := carries_process hx.informed hx.balanced.library hcalls hwritten hr
  obtain ⟨ds', hgrows, hds'⟩ := hcarries ds h.chronicle
  refine ⟨ds', hgrows, h.proceed hx.control hgrows hds' ?_ henters⟩
  rintro rfl
  have hprepare := holds_prepare hcalls s
  have hexecuted := executed_of_process hcalls hx.balanced.sound hr
  have hs := hprepare.toStays.trans
    (stays_of_executed hexecuted (fun hd => hprepare.calls_eq_nil (hcalls hd)) nofun)
  exact hs.control.trans hx.control

/-- **A step carries the chronicle on.** -/
theorem Chronicled.step (h : Chronicled j a ds) (ho : Oriented j a) (hb : Balanced j a) (hs : a.step = .ok b) :
    ∃ ds', ds <+: ds' ∧ Chronicled j b ds' := by
  have moved {p : Activation} {outer : List Activation} {s : Statement} (hx : Executing j p outer s (a.moveTo p s))
      (hc : a.control = p :: outer) : Chronicled j (a.moveTo p s) ds :=
    h.of_shifts (shifts_moveTo a p s) (by rw [hx.control, hc]; exact fun _ => id)
  cases effect_of_step hs with
  | finished => exact ⟨ds, List.prefix_rfl, h⟩
  | behind => exact ⟨ds, List.prefix_rfl, h.leave⟩
  | definition hc hstatement opens =>
    have hx := ho.executing hb hc hstatement
    exact (moved hx hc).readDefinition hx opens
  | mend hc hstatement => exact ⟨ds, List.prefix_rfl, (moved (ho.executing hb hc hstatement) hc).leave⟩
  | executed hc hstatement _ _ hr =>
    have hx := ho.executing hb hc hstatement
    exact (moved hx hc).process hx hr

end

/-- **The annals of every run have a chronicle**, which holds the macros that are being expanded. -/
theorem Reaches.chronicled {file text : String} {library : Library} {settings : Settings} {now : Moment} {a : Assembly}
    (h : (fresh file text library settings now).Reaches a) :
    ∃ ds, Chronicled ⟨(statementsOf text.toList).toArray, file, library, settings⟩ a ds := by
  let j : Job := ⟨(statementsOf text.toList).toArray, file, library, settings⟩
  have hall := h.induction (P := fun x => Oriented j x ∧ Balanced j x ∧ ∃ ds, Chronicled j x ds)
    (fun _ _ ⟨ho, hb, _, hx⟩ hy => ⟨(ho.step hb hy).1, hb.step hy, by
      obtain ⟨ds', -, hds'⟩ := hx.step ho hb hy
      exact ⟨ds', hds'⟩⟩)
    ⟨oriented_fresh .., balanced_fresh .., [], .start, fun p hp d hd => by
      cases List.mem_singleton.1 hp
      cases hd⟩
  exact hall.2.2

end Assembly

end AssemblerIndex
