import AssemblerIndex.Proofs.Assembly.ConditionalAssembly
import AssemblerIndex.Proofs.Assembly.Ways
import AssemblerIndex.Proofs.Assembly.Whereabouts

/-!
# What a statement defines

While a statement is processed nothing moves: position, cursors and calls stay where they are until a listing is entered
or left.  What it defines is its label, under the processing stack that there was at its beginning.

* `Marks` — nothing has moved, and the symbols that were defined are labels of the statement;
* `Went` — so it is when a statement has been processed, apart from a listing that was entered (`went_process`).

There is one lemma for each operation, named after it.
-/

namespace AssemblerIndex

/-- The symbol is the label of the statement in the file, and it was defined under the stack. -/
structure Symbol.MarkedAt (r : Symbol) (file : String) (s : Statement) (stack : ProcessingStack) : Prop where
  stack_eq : r.stack = stack
  label : ∃ l, s.label = some l ∧ r.location = ⟨file, l.span.start⟩

namespace Assembly

/-! ### Symbols of a statement -/

/-- From `a` to `b` processing stands where it stood, in the statement of the file, and the symbols that were defined
are labels of that statement. -/
structure Marks (j : Job) (file : String) (s : Statement) (a b : Assembly) : Prop where
  base : b.context.base = a.context.base
  calls : b.context.calls.map (·.invocation) = a.context.calls.map (·.invocation)
  sources : b.context.sources = a.context.sources
  informed : Informed (NestedStatement.Traced j) a → Informed (NestedStatement.Traced j) b
  symbols : ∀ r ∈ b.context.symbols.symbols, r ∈ a.context.symbols.symbols ∨ r.MarkedAt file s a.context.stack

section

variable {j : Job} {file : String} {s : Statement} {a b c : Assembly}

theorem Marks.refl (a : Assembly) : Marks j file s a a := ⟨rfl, rfl, rfl, id, fun _ => .inl⟩

theorem Marks.stack (h : Marks j file s a b) : b.context.stack = a.context.stack := by
  unfold Context.stack
  rw [List.map_reverse, List.map_reverse, h.base, h.sources, h.calls]

theorem Marks.trans (h : Marks j file s a b) (h' : Marks j file s b c) : Marks j file s a c where
  base := h'.base.trans h.base
  calls := h'.calls.trans h.calls
  sources := h'.sources.trans h.sources
  informed ha := h'.informed (h.informed ha)
  symbols r hr := (h'.symbols r hr).elim (h.symbols r) fun hr => .inr (h.stack ▸ hr)

theorem Marks.of_trail (hs : a.Stays b) (ht : b.trail = a.trail) : Marks j file s a b := by
  simp only [trail, Prod.mk.injEq] at ht
  obtain ⟨hbase, hcalls, hmacros, hsymbols⟩ := ht
  exact ⟨hbase, hcalls, hs.sources, fun ha => ha.of_stays hs hmacros, fun r hr => .inl (hsymbols ▸ hr)⟩

theorem Marks.of_informed (hs : a.Spares b)
    (hi : Informed (NestedStatement.Traced j) a → Informed (NestedStatement.Traced j) b)
    (hsymbols : b.context.symbols = a.context.symbols) : Marks j file s a b :=
  ⟨hs.ownBase, by rw [hs.calls], hs.sources, hi, fun r hr => .inl (by rwa [hsymbols] at hr)⟩

theorem Marks.of_spares (hs : a.Spares b) (hmacros : b.context.macros = a.context.macros)
    (hsymbols : b.context.symbols = a.context.symbols) : Marks j file s a b :=
  .of_informed hs (fun ha => ha.of_stays hs.toStays hmacros) hsymbols

theorem marks_meet (a : Assembly) (names : List String) : Marks j file s a (a.meet names) :=
  .of_spares (spares_meet a names) rfl rfl

theorem marks_macro? (a : Assembly) (opcode : String) : Marks j file s a (a.macro? opcode).1 :=
  .of_informed (spares_macro? ..) (·.macro? opcode) (learns_macro? ..).symbols

/-- What leaves the list of symbols alone. -/
theorem marks_of_symbols {f : SymbolTable → SymbolTable}
    (hf : (f a.context.symbols).symbols = a.context.symbols.symbols) : Marks j file s a (a.mapSymbols f) :=
  .of_trail (spares_mapSymbols_of_symbols hf).toStays (by simp only [trail, mapSymbols, mapContext, hf])

theorem marks_align (a : Assembly) (n : Int32) : Marks j file s a (a.mapSymbols (·.align n)) :=
  marks_of_symbols (SymbolTable.symbols_align ..)

theorem marks_reserve (a : Assembly) (n : Int32) : Marks j file s a (a.mapSymbols (·.reserve n)) :=
  marks_of_symbols (SymbolTable.symbols_reserve ..)

/-- A symbol is defined at most, and it is the label of the statement unless its name is empty. -/
theorem marks_define_of {f : SymbolTable → SymbolTable} {t : SymbolTable} {r : Symbol}
    (hf : f a.context.symbols = t ∨ f a.context.symbols = t.define r)
    (ht : t.symbols = a.context.symbols.symbols) (hmet : r.name ∈ a.context.names)
    (hr : r.name ≠ "" → r.MarkedAt file s a.context.stack) : Marks j file s a (a.mapSymbols f) := by
  refine ⟨rfl, rfl, rfl, fun ha => ha.of_stays (spares_define_of hf ht hmet).toStays rfl, fun q hq => ?_⟩
  have hq : q ∈ (f a.context.symbols).symbols := hq
  rcases hf with h | h
  · rw [h, ht] at hq
    exact .inl hq
  · rw [h] at hq
    rw [SymbolTable.define_eq] at hq
    split at hq
    · rename_i hfree
      rcases Array.mem_push.1 hq with hq | rfl
      · exact .inl (ht ▸ hq)
      · refine .inr (hr fun hempty => ?_)
        simp [SymbolTable.isFree, hempty] at hfree
    · exact .inl (ht ▸ hq)

theorem exists_label {name : String} (h : s.ordinaryLabel? = some name) : ∃ l, s.label = some l := by
  cases hl : s.label with
  | some l => exact ⟨l, rfl⟩
  | none => simp [Statement.ordinaryLabel?, Statement.labelText, fieldText, hl] at h

/-- A symbol that is defined for the label of the statement. -/
theorem markedAt_labelLocation {name : String} (h : s.ordinaryLabel? = some name) {r : Symbol}
    {stack : ProcessingStack} (hlocation : r.location = labelLocation file s) (hstack : r.stack = stack) :
    r.MarkedAt file s stack := by
  obtain ⟨l, hl⟩ := exists_label h
  refine ⟨hstack, l, hl, ?_⟩
  rw [hlocation, labelLocation, hl]

theorem marks_defineLabel (a : Assembly) (value : SymbolValue) (attributes : SymbolAttributes) :
    Marks j file s a (a.defineLabel file s value attributes) := by
  unfold defineLabel
  split
  · exact .refl a
  · rename_i name hname
    refine (marks_meet a [name]).trans (marks_define_of (.inr rfl) rfl ?_ fun _ => markedAt_labelLocation hname rfl rfl)
    exact mem_names_meet.2 (.inr List.mem_cons_self)

theorem marks_startSection (a : Assembly) (kind : SectionKind) : Marks j file s a (a.startSection file s kind) := by
  unfold startSection
  dsimp only
  generalize hname : s.ordinaryLabel?.getD "" = name
  obtain ⟨t, r, hf, ht, hn, hl, hr⟩ := (a.meet [name]).context.symbols.setSection_cases name kind
    (labelLocation file s) (a.meet [name]).context.stack
  refine (marks_meet a [name]).trans (marks_define_of hf ht ?_ fun hne => ?_)
  · rw [hn]
    exact mem_names_meet.2 (.inr List.mem_cons_self)
  · -- the unnamed section defines no symbol
    cases hlabel : s.ordinaryLabel? with
    | none => exact absurd (by rw [hn, ← hname, hlabel]; rfl) hne
    | some n => exact markedAt_labelLocation hlabel hl hr

theorem marks_startCounter (a : Assembly) : Marks j file s a (a.startCounter file s) := by
  unfold startCounter
  split
  · exact .refl a
  · rename_i name hname
    dsimp only
    obtain ⟨t, r, hf, ht, hn, hl, hr⟩ := (a.meet [name]).context.symbols.setCounter_cases name
      (labelLocation file s) (a.meet [name]).context.stack
    refine (marks_meet a [name]).trans (marks_define_of hf ht ?_ fun _ => markedAt_labelLocation hname hl hr)
    rw [hn]
    exact mem_names_meet.2 (.inr List.mem_cons_self)

theorem marks_equate (a : Assembly) : Marks j file s a (a.equate file s) := by
  unfold equate
  split
  · exact .refl a
  · rename_i first _ _
    dsimp only
    exact (marks_of_symbols (f := fun _ => (a.context.symbols.sumValue first.text).1)
      (SymbolTable.symbols_sumTerms ..)).trans (marks_defineLabel ..)

theorem marks_defineData {labelled : Bool} {os : List Field} (h : a.defineData file s labelled os = .ok b) :
    Marks j file s a b := by
  induction os generalizing a labelled with
  | nil => exact Except.ok.inj h ▸ .refl a
  | cons o rest ih =>
    unfold defineData at h
    split at h
    · exact ih h
    · cases h
    · rename_i d _
      refine (marks_align a d.alignment).trans (.trans ?_ ((marks_reserve _ d.size).trans (ih h)))
      split
      · exact .refl _
      · exact marks_defineLabel ..

theorem marks_machine (a : Assembly) (opcode : String) : Marks j file s a (a.machine file s opcode) :=
  (marks_align a 2).trans ((marks_defineLabel ..).trans (marks_reserve ..))

theorem symbols_defineSynonym (a : Assembly) (s : Statement) :
    (a.defineSynonym s).context.symbols = a.context.symbols := by
  have entered (b : Assembly) (name target : String) :
      (b.attempt (·.addSynonym name target)).context.symbols = b.context.symbols := by
    rcases addSynonym_cases b.context name target with ⟨t, ht⟩ | he
    · rw [attempt_of_ok (f := (·.addSynonym name target)) ht]
    · rw [attempt_of_error (f := (·.addSynonym name target)) he]
      rfl
  unfold defineSynonym
  split
  · rfl
  · dsimp only
    split
    · rw [entered]
      split
      · rfl
      · exact (learns_loadMacro ..).symbols
    · rfl

theorem marks_ordinary {opcode : String} (h : a.ordinary file s opcode = .ok b) : Marks j file s a b := by
  cases effect_of_ordinary h with
  | startSection => exact marks_startSection ..
  | startCounter => exact marks_startCounter ..
  | equate => exact marks_equate ..
  | defineData _ h => exact marks_defineData h
  | defineSynonym => exact .of_informed (spares_defineSynonym ..) (·.defineSynonym s) (symbols_defineSynonym ..)
  | machine => exact marks_machine ..
  | nothing => exact .refl a

end

/-! ### Statements -/

/-- What a statement of a listing comes to: nothing has moved, or else a macro or a copy member has been entered. -/
inductive Went (j : Job) (p : Activation) (s : Statement) (a : Assembly) : Assembly → Flow → Prop
  | on {b : Assembly} {flow : Flow} (h : Marks j p.file s a b) (inside : ∀ l, flow ≠ .enter l) : Went j p s a b flow
  | called {b : Assembly} (h : Marks j p.file s a b) (c : Call) (traced : c.invocation.definition.Traced j) :
    Went j p s a (b.called c) (.enter (.macroBody c.invocation.definition))
  | opened {b : Assembly} {name : String} {found : LibraryMember} (h : Marks j p.file s a b)
    (inOpenCode : p.definition? = none) (find : j.library.find? name = some found) :
    Went j p s a (b.opened (found.copyMember name)) (.enter (.copyMember (found.copyMember name)))

section

variable {j : Job} {file : String} {s t : Statement} {a b c : Assembly} {p : Activation} {flow : Flow}

theorem Marks.went (h : Marks j p.file s a b) (h' : Went j p s b c flow) : Went j p s a c flow := by
  cases h' with
  | on h' inside => exact .on (h.trans h') inside
  | called h' c traced => exact .called (h.trans h') c traced
  | opened h' inOpenCode find => exact .opened (h.trans h') inOpenCode find

theorem went_callMacro (ha : Informed (NestedStatement.Traced j) a) {d : MacroDefinition}
    (hd : a.context.macros.find? d.name = some d) (t : Statement) :
    Went j p s a (a.callMacro d t).1 (a.callMacro d t).2 := by
  unfold callMacro
  split
  · exact .on (.refl a) nofun
  · dsimp only
    generalize t.operands.map (fun o => Argument.ofText o.text) = args
    generalize hmet : a.meet (args.filterMap (·.keyword)) = a'
    have hm : Marks j p.file s a a' := hmet ▸ marks_meet ..
    have hd' : a'.context.macros.find? d.name = some d := hmet ▸ hd
    obtain ⟨c, ns, v, hx, hc, -, hn⟩ := exists_enterMacro hd' (labelData? t) args
    rw [hx]
    have hentered : Marks j p.file s a' { a' with context := { a'.context with
        names := ns, visited := v, callCount := a'.context.callCount + 1 } } := by
      refine .of_spares ?_ rfl rfl
      exact .of_same rfl rfl hn fun ha => ha.of_names rfl hn
    have hflow : ((Context.invocation? { a'.context with
        calls := c :: a'.context.calls, names := ns, visited := v, callCount := a'.context.callCount + 1 }).map
          (·.definition)).getD d = c.invocation.definition := rfl
    dsimp only
    rw [hflow]
    exact .called (hm.trans hentered) c (hc ▸ ha.macros hd)

theorem went_copy (ha : Informed (NestedStatement.Traced j) a) (hl : a.library = j.library)
    (inOpenCode : p.definition? = none) (t : Statement) : Went j p s a (a.copy t).1 (a.copy t).2 := by
  unfold copy
  split
  · rename_i c cs _ _ _
    generalize String.ofList (Text.upperChars (c :: cs)) = name
    have hs := spares_copyMember? a name
    have hm : Marks j p.file s a (a.copyMember? name).1 := by
      refine .of_spares hs ?_ (learns_copyMember? a name).symbols
      rw [(loads_copyMember? a name).frame]
    have hfind := @find?_of_copyMember? a ha.sound name
    split
    · rename_i a' he
      rw [he] at hm
      exact .on hm nofun
    · rename_i a' m he
      rw [he] at hm hs hfind
      obtain ⟨-, hfind⟩ := hfind rfl
      obtain ⟨found, hfound, rfl⟩ := (hs.sound ha.sound).copyMember hfind
      rw [hs.library, hl] at hfound
      split
      · exact .on hm nofun
      · have hopen : a'.context.enterCopy (found.copyMember name).name =
            .ok (a'.opened (found.copyMember name)).context := by
          unfold Context.enterCopy
          rw [show a'.context.copyMembers.find? (found.copyMember name).name = _ from hfind]
          rfl
        rw [hopen]
        exact .opened hm inOpenCode hfound
  · exact .on (.refl a) nofun

theorem went_processSubstituted (ha : Informed (NestedStatement.Traced j) a) (hl : a.library = j.library)
    (h : a.processSubstituted p t = .ok (b, flow)) : Went j p t a b flow := by
  rcases effect_of_processSubstituted h with ⟨-, rfl, rfl⟩ | ⟨-, h⟩
  · exact .on (.refl _) nofun
  have hm : Marks j p.file t a (a.meet [t.opcode]) := marks_meet ..
  have ha₁ := ha.meet [t.opcode]
  have hl₁ : (a.meet [t.opcode]).library = j.library := hl
  generalize a.meet [t.opcode] = a₁ at h hm ha₁ hl₁
  generalize a₁.context.operation t.opcode = op at h
  refine hm.went ?_
  have hq : Marks j p.file t a₁ (a₁.macro? op).1 := marks_macro? ..
  cases h with
  | removed => exact .on (.refl _) nofun
  | copyInMacro => exact .on (.refl _) nofun
  | copy _ inOpenCode h =>
    have hcopy : Went j p t a₁ (a₁.copy t).1 (a₁.copy t).2 := went_copy ha₁ hl₁ inOpenCode t
    rwa [h] at hcopy
  | finishInMacro => exact .on (.refl _) nofun
  | finish => exact .on (.refl _) nofun
  | callMacro _ hd h =>
    refine hq.went ?_
    have hcall := went_callMacro (p := p) (s := t) (hq.informed ha₁) (find?_of_macro? ha₁.sound hd) t
    rwa [h] at hcall
  | ordinary _ _ ho => exact hq.went (.on (marks_ordinary ho) nofun)

theorem marks_prepare (ha : p.definition? = none → a.context.calls = []) (t : Statement) :
    Marks j file s a (a.prepare p t) := by
  unfold prepare
  refine .trans ?_ (marks_meet ..)
  split
  · exact .refl a
  · rename_i hp
    have hcalls := ha (by simpa using hp)
    unfold noteStatement
    dsimp only
    have hl : Marks j file s a (a.noteLabel p.file p.index t) :=
      .of_trail (holds_noteLabel hcalls ..).toStays (congrArg (·.1.1) (standing_noteLabel ..))
    refine hl.trans ((marks_macro? (a.noteLabel p.file p.index t) t.opcode).trans ?_)
    refine (marks_meet ((a.noteLabel p.file p.index t).macro? t.opcode).1 ((t.occurrences
      ((a.noteLabel p.file p.index t).macro? t.opcode).2).map (·.name))).trans ?_
    refine .of_spares ?_ rfl rfl
    exact .of_same rfl rfl (fun _ => id) fun h => h.of_names rfl fun _ => id

/-- Replacing variable symbols leaves the label where it was. -/
theorem exists_label_of_substituted {x : Context} {l : Field} (h : (s.substituted x).label = some l) :
    ∃ l', s.label = some l' ∧ l'.span = l.span := by
  unfold Statement.substituted at h
  dsimp only at h
  split at h
  · unfold Statement.withTexts replacedField at h
    dsimp only at h
    split at h
    · cases h
    · rename_i hne
      cases hl : s.label with
      | some l' =>
        rw [hl] at h
        obtain rfl := Option.some.inj h
        exact ⟨l', rfl, rfl⟩
      | none =>
        rw [Statement.labelText, hl] at hne
        simp [fieldText, Expression.substitute, Expression.substituteIn] at hne
  · exact ⟨l, h, rfl⟩

theorem Went.of_substituted {x : Context} (h : Went j p (s.substituted x) a b flow) : Went j p s a b flow := by
  have key {c : Assembly} (hc : Marks j p.file (s.substituted x) a c) : Marks j p.file s a c := by
    refine ⟨hc.base, hc.calls, hc.sources, hc.informed, fun r hr => (hc.symbols r hr).imp_right fun hr => ?_⟩
    obtain ⟨hstack, l, hl, hlocation⟩ := hr
    obtain ⟨l', hl', hspan⟩ := exists_label_of_substituted hl
    exact ⟨hstack, l', hl', by rw [hlocation, hspan]⟩
  cases h with
  | on h inside => exact .on (key h) inside
  | called h c traced => exact .called (key h) c traced
  | opened h inOpenCode find => exact .opened (key h) inOpenCode find

/-- Nothing moves while a statement is processed, and its label is all that is defined. -/
theorem went_process (ha : Informed (NestedStatement.Traced j) a) (hl : a.library = j.library)
    (hcalls : p.definition? = none → a.context.calls = []) (h : a.process p s = .ok (b, flow)) :
    Went j p s a b flow := by
  have hp := holds_prepare hcalls s
  have hm : Marks j p.file s a (a.prepare p s) := marks_prepare hcalls s
  refine hm.went ?_
  rcases process_cases h with hr | ⟨-, h⟩
  · obtain ⟨hstanding, inside⟩ := standing_conditional? hr
    have hs := stays_of_executed (executed_of_conditional? hr) (fun hd => hp.calls_eq_nil (hcalls hd)) inside
    exact .on (.of_trail hs (congrArg (·.1.1) hstanding)) inside
  · exact (went_processSubstituted (hm.informed ha) (hp.library.trans hl) h).of_substituted

end

end Assembly

end AssemblerIndex
