import AssemblerIndex.Proofs.Assembly.Process

/-!
# The stacks of a run

The listings that are being processed, the calls and the open copy members describe one nesting: open
code outermost, then its copy members, then the calls, each with the definition whose body is the
listing.  `Balanced` says so together with what holds besides between two steps: there is no source and
no level but the outermost one, the calls are not nested more deeply than the settings allow, and no
transition of the assembler has failed.  A step preserves it (`Balanced.step`), and so does a run.
-/

namespace AssemblerIndex.Assembly

/-- What is assembled, and how. -/
structure Job where
  statements : Array Statement
  file : String
  library : Library
  settings : Settings

/-- The listings describe the same nesting as the definitions that are being expanded and the copy
members that are open in open code; all stacks come innermost first. -/
inductive Nested (j : Job) : List Activation → List MacroDefinition → List CopyMember → Prop
  | finished : Nested j [] [] []
  | openCode (i : Nat) : Nested j [⟨.openCode j.statements j.file, i⟩] [] []
  | copy {outer : List Activation} {ms : List CopyMember} {m : CopyMember} {found : LibraryMember}
    (i : Nat) (ne : outer ≠ []) (h : Nested j outer [] ms) (closed : m.name ∉ ms.map (·.name))
    (find : j.library.find? m.name = some found) (member : m = found.copyMember m.name) :
    Nested j (⟨.copyMember m, i⟩ :: outer) [] (m :: ms)
  | call {outer : List Activation} {ds : List MacroDefinition} {ms : List CopyMember}
    {d : MacroDefinition} (i : Nat) (ne : outer ≠ []) (h : Nested j outer ds ms) :
    Nested j (⟨.macroBody d, i⟩ :: outer) (d :: ds) ms

/-- What holds between two steps of the assembly of an open code. -/
structure Balanced (j : Job) (a : Assembly) : Prop where
  library : a.library = j.library
  settings : a.settings = j.settings
  nested : Nested j a.control (a.context.calls.map (·.invocation.definition))
    (a.context.base.copyStack.map (·.member))
  sources : a.context.sources = []
  levels : a.context.levels = []
  depth : a.context.calls.length ≤ j.settings.maxNesting.toNat
  sound : a.Sound
  breaches : a.breaches = []

/-- The number of macros whose bodies are among the listings. -/
def callsIn (control : List Activation) : Nat := control.countP (·.definition?.isSome)

/-- The names of the copy members among the listings. -/
def membersIn (control : List Activation) : List String :=
  control.filterMap fun p => match p.listing with
    | .copyMember m => some m.name
    | _ => none

theorem Nested.length_eq {j : Job} {control : List Activation} {ds : List MacroDefinition}
    {ms : List CopyMember} (h : Nested j control ds ms) :
    ds.length = callsIn control ∧ ms.map (·.name) = membersIn control := by
  induction h with
  | finished => exact ⟨rfl, rfl⟩
  | openCode i => exact ⟨rfl, rfl⟩
  | copy i ne h closed find member ih => exact ⟨ih.1, congrArg _ ih.2⟩
  | @call outer ds ms d i ne h ih =>
    refine ⟨?_, ih.2⟩
    rw [List.length_cons, ih.1]
    exact (List.countP_cons_of_pos rfl).symm

section Nesting

variable {j : Job} {p : Activation} {outer : List Activation} {ds : List MacroDefinition}
  {ms : List CopyMember}

/-- In open code no macro is being expanded. -/
theorem Nested.eq_nil_of_openCode (h : Nested j (p :: outer) ds ms)
    (hp : p.definition? = none) : ds = [] := by
  cases h with
  | openCode i => rfl
  | copy i ne h closed find member => rfl
  | call i ne h => simp [Activation.definition?] at hp

/-- In the body of a macro this macro is being expanded. -/
theorem Nested.eq_cons_of_macroBody {d : MacroDefinition}
    (h : Nested j (p :: outer) ds ms) (hp : p.definition? = some d) :
    ∃ ds', ds = d :: ds' ∧ outer ≠ [] ∧ Nested j outer ds' ms := by
  cases h with
  | openCode i => simp [Activation.definition?] at hp
  | copy i ne h closed find member => simp [Activation.definition?] at hp
  | call i ne h =>
    obtain rfl := Option.some.inj hp
    exact ⟨_, rfl, ne, h⟩

/-- The nesting does not depend on the place in the innermost listing. -/
theorem Nested.at_index (h : Nested j (p :: outer) ds ms) (i : Nat) :
    Nested j ({ p with index := i } :: outer) ds ms := by
  cases h with
  | openCode => exact .openCode i
  | copy _ ne h closed find member => exact .copy i ne h closed find member
  | call _ ne h => exact .call i ne h

/-- No copy member is open twice. -/
theorem Nested.nodup {control : List Activation} (h : Nested j control ds ms) :
    (ms.map (·.name)).Nodup := by
  induction h with
  | finished => exact .nil
  | openCode i => exact .nil
  | copy i ne h closed find member ih => exact List.nodup_cons.2 ⟨closed, ih⟩
  | call i ne h ih => exact ih

/-- The open code among the listings is that of the job. -/
theorem Nested.eq_statements {control : List Activation} {l : Array Statement} {file : String} {i : Nat}
    (h : Nested j control ds ms) (hp : ⟨.openCode l file, i⟩ ∈ control) : l = j.statements := by
  induction h with
  | finished => cases hp
  | openCode k =>
    cases List.mem_singleton.1 hp
    rfl
  | copy k ne h closed find member ih => exact ih ((List.mem_cons.1 hp).resolve_left nofun)
  | call k ne h ih => exact ih ((List.mem_cons.1 hp).resolve_left nofun)

/-- The copy members among the listings are those of the library. -/
theorem Nested.exists_found {control : List Activation} {m : CopyMember} {i : Nat} (h : Nested j control ds ms)
    (hp : ⟨.copyMember m, i⟩ ∈ control) : ∃ found, j.library.find? m.name = some found ∧ m = found.copyMember m.name := by
  induction h with
  | finished => cases hp
  | openCode k => cases List.mem_singleton.1 hp
  | copy k ne h closed find member ih =>
    rcases List.mem_cons.1 hp with hp | hp
    · cases hp
      exact ⟨_, find, member⟩
    · exact ih hp
  | call k ne h ih => exact ih ((List.mem_cons.1 hp).resolve_left nofun)

end Nesting

section Steps

variable {j : Job} {a b : Assembly} {p : Activation} {outer : List Activation}

theorem Balanced.calls_eq_nil (h : Balanced j a) (hc : a.control = p :: outer)
    (hp : p.definition? = none) : a.context.calls = [] := by
  have hn := h.nested
  rw [hc] at hn
  exact List.map_eq_nil_iff.1 (hn.eq_nil_of_openCode hp)

/-- In the body of a macro the innermost call is one of this macro. -/
theorem Balanced.exists_call (h : Balanced j a) (hc : a.control = p :: outer)
    (hp : p.definition?.isSome) : ∃ c cs, a.context.calls = c :: cs ∧ outer ≠ [] ∧
      Nested j outer (cs.map (·.invocation.definition))
        (a.context.base.copyStack.map (·.member)) := by
  obtain ⟨d, hd⟩ := Option.isSome_iff_exists.1 hp
  have hn := h.nested
  rw [hc] at hn
  obtain ⟨ds, hds, ne, ho⟩ := hn.eq_cons_of_macroBody hd
  cases hcalls : a.context.calls with
  | nil => simp [hcalls] at hds
  | cons c cs =>
    rw [hcalls, List.map_cons, List.cons.injEq] at hds
    exact ⟨c, cs, rfl, ne, hds.2 ▸ ho⟩

theorem Balanced.of_stays (h : Balanced j a) (hb : a.Stays b) :
    Balanced j b where
  library := hb.library.trans h.library
  settings := hb.settings.trans h.settings
  nested := by
    rw [hb.control, hb.definitions, hb.members]
    exact h.nested
  sources := hb.sources.trans h.sources
  levels := hb.levels.trans h.levels
  depth := by
    rw [hb.length_calls]
    exact h.depth
  sound := hb.sound h.sound
  breaches := hb.breaches.trans h.breaches

theorem Balanced.at_index (h : Balanced j a) (hc : a.control = p :: outer) (i : Nat) :
    Balanced j { a with control := { p with index := i } :: outer } where
  library := h.library
  settings := h.settings
  nested := by
    have hn := h.nested
    rw [hc] at hn
    exact hn.at_index i
  sources := h.sources
  levels := h.levels
  depth := h.depth
  sound := h.sound.of_names rfl fun _ => id
  breaches := h.breaches

/-! ### Leaving a listing -/

theorem leaveMacro_of_cons {x : Context} {c : Call} {cs : List Call} (h : x.calls = c :: cs) :
    x.leaveMacro = .ok { x with calls := cs } := by
  unfold Context.leaveMacro
  rw [h]

theorem leaveCopy_of_cons {x : Context} {c : CopyCursor} {cs : List CopyCursor} (hs : x.sources = [])
    (h : x.base.copyStack = c :: cs) :
    x.leaveCopy = .ok { x with base := { x.base with copyStack := cs } } := by
  unfold Context.leaveCopy Context.source Context.mapSource
  rw [hs, List.headD_nil, h]

/-- Leaving the body of a macro leaves its call. -/
theorem leave_of_macroBody (h : Balanced j a) (hc : a.control = p :: outer)
    (hp : p.definition?.isSome) :
    a.leave = { a with control := outer, context := { a.context with calls := a.context.calls.tail } } := by
  obtain ⟨c, cs, hcalls, -⟩ := h.exists_call hc hp
  obtain ⟨l, i⟩ := p
  cases l with
  | macroBody d =>
    unfold leave
    rw [hc, hcalls]
    exact attempt_of_ok (leaveMacro_of_cons hcalls)
  | openCode => simp [Activation.definition?] at hp
  | copyMember => simp [Activation.definition?] at hp

/-- Leaving open code leaves a copy member, if one is open. -/
theorem leave_of_openCode (h : Balanced j a) (hc : a.control = p :: outer)
    (hp : p.definition? = none) :
    a.leave = { a with control := outer, context := { a.context with base :=
      { a.context.base with copyStack := a.context.base.copyStack.tail } } } := by
  have hn := h.nested
  rw [hc] at hn
  generalize hms : a.context.base.copyStack.map (·.member) = ms at hn
  generalize hds : a.context.calls.map (·.invocation.definition) = ds at hn
  cases hn with
  | openCode i =>
    have hs : a.context.base.copyStack.tail = a.context.base.copyStack := by
      rw [List.map_eq_nil_iff.1 hms, List.tail_nil]
    unfold leave
    rw [hc, hs]
    exact attempt_of_ok rfl
  | copy i ne h' closed find member =>
    obtain ⟨c, cs, hs, -, -⟩ := List.map_eq_cons_iff.1 hms
    unfold leave
    rw [hc, hs]
    exact attempt_of_ok (leaveCopy_of_cons h.sources hs)
  | call i ne h' => simp [Activation.definition?] at hp

theorem Balanced.leave (h : Balanced j a) : Balanced j a.leave := by
  cases hc : a.control with
  | nil =>
    unfold Assembly.leave
    rw [hc]
    exact h
  | cons p outer =>
    cases hp : p.definition? with
    | some d =>
      have hp : p.definition?.isSome := by rw [hp]; rfl
      obtain ⟨c, cs, hcalls, ne, ho⟩ := h.exists_call hc hp
      have hdepth := h.depth
      rw [leave_of_macroBody h hc hp]
      rw [hcalls, List.length_cons] at hdepth
      refine ⟨h.library, h.settings, ?_, h.sources, h.levels, ?_, h.sound.of_names rfl fun _ => id,
        h.breaches⟩
      · dsimp only
        rw [hcalls]
        exact ho
      · dsimp only
        rw [hcalls, List.tail_cons]
        omega
    | none =>
      rw [leave_of_openCode h hc hp]
      refine ⟨h.library, h.settings, ?_, h.sources, h.levels, h.depth,
        h.sound.of_names rfl fun _ => id, h.breaches⟩
      have hn := h.nested
      rw [hc] at hn
      generalize hms : a.context.base.copyStack.map (·.member) = ms at hn
      generalize hds : a.context.calls.map (·.invocation.definition) = ds at hn
      dsimp only
      rw [List.map_tail, hms]
      cases hn with
      | openCode i => exact .finished
      | copy i ne h' closed find member => exact h'
      | call i ne h' => simp [Activation.definition?] at hp

theorem control_leave (a : Assembly) : a.leave.control = a.control.tail := by
  unfold leave attempt fail
  split
  · rename_i hc
    rw [hc]
    rfl
  · rename_i hc
    rw [hc]
    split <;> rfl

/-- An exit from open code leaves all listings. -/
theorem Balanced.leaveAll (h : Balanced j a) (l : List Activation) :
    Balanced j (l.foldl (fun a _ => a.leave) a) ∧
      (l.foldl (fun a _ => a.leave) a).control = a.control.drop l.length := by
  induction l generalizing a with
  | nil => exact ⟨h, rfl⟩
  | cons p rest ih =>
    obtain ⟨h1, h2⟩ := ih h.leave
    refine ⟨h1, ?_⟩
    rw [List.foldl_cons, h2, control_leave, List.drop_tail, List.length_cons]

/-! ### Steps -/

theorem mapSource_of_nil {x : Context} (h : x.sources = []) (f : Source → Source) :
    x.mapSource f = { x with base := f x.base } := by
  unfold Context.mapSource
  rw [h]

theorem source_of_nil {x : Context} (h : x.sources = []) : x.source = x.base := by
  unfold Context.source
  rw [h, List.headD_nil]

theorem openCopyMembers_of_nil {x : Context} (h : x.sources = []) :
    x.openCopyMembers = x.base.copyStack.reverse.map (·.member.name) := by
  unfold Context.openCopyMembers
  rw [h]
  simp

/-- The copy members that are open are those among the listings. -/
theorem Balanced.openCopyMembers (h : Balanced j a) :
    a.context.openCopyMembers = (membersIn a.control).reverse := by
  rw [openCopyMembers_of_nil h.sources, ← h.nested.length_eq.2, List.map_reverse, List.map_map]
  rfl

theorem opened_of_nil (h : a.context.sources = []) (m : CopyMember) :
    a.opened m = { a with context := { a.context with base :=
      { a.context.base with copyStack := { member := m } :: a.context.base.copyStack } } } :=
  congrArg (fun x => { a with context := x }) (mapSource_of_nil h _)

theorem exists_track {x : Context} (h : x.sources = []) (s : Statement) (i : Nat) :
    ∃ src, x.track s i = { x with base := src } ∧
      src.copyStack.map (·.member) = x.base.copyStack.map (·.member) := by
  unfold Context.track
  rw [source_of_nil h]
  split
  · rename_i c cs hs
    rw [mapSource_of_nil h]
    exact ⟨_, rfl, by simp [hs]⟩
  · unfold Context.setPosition Context.setIndices
    rw [mapSource_of_nil h, mapSource_of_nil (by exact h)]
    exact ⟨_, rfl, rfl⟩

/-- Moving to a statement changes the place in the innermost call, or in the source of open code. -/
theorem keeps_moveTo (h : Balanced j a) (hc : a.control = p :: outer) (s : Statement) :
    a.Keeps (a.moveTo p s) := by
  unfold moveTo mapContext
  dsimp only
  split
  · rename_i hp
    obtain ⟨c, cs, hcalls, -⟩ := h.exists_call hc hp
    unfold Context.setMacroStatement
    rw [hcalls]
    exact
      { control := rfl, library := rfl, settings := rfl, file := rfl, branchLimit := rfl
        members := rfl, base := fun _ => rfl, sources := rfl, levels := rfl
        definitions := by simp [hcalls], callers := by simp [hcalls], openCode := fun _ => rfl
        breaches := rfl, names := fun _ => id, sound := fun ha => ha.of_names rfl fun _ => id
        counter := by rw [scope_of_cons hcalls, scope_of_cons rfl], labels := rfl }
  · rename_i hp
    have hcalls := h.calls_eq_nil hc (by simpa using hp)
    obtain ⟨src, hx, hsrc⟩ := exists_track h.sources s p.index
    rw [hx]
    exact
      { control := rfl, library := rfl, settings := rfl, file := rfl, branchLimit := rfl
        members := hsrc, base := fun ha => absurd hcalls ha, sources := rfl, levels := rfl
        definitions := rfl, callers := rfl, openCode := fun _ => rfl, breaches := rfl
        names := fun _ => id, sound := fun ha => ha.of_names rfl fun _ => id
        counter := by rw [scope_of_nil hcalls, scope_of_nil (by exact hcalls)], labels := rfl }

/-- What the operation code of the next statement denotes, if that statement is executed. -/
def executed? (a : Assembly) : Option String :=
  match a.control with
  | [] => none
  | p :: _ =>
    match p.statement? with
    | none => none
    | some s =>
      if s.opcode = "MACRO" ∨ s.opcode = "MEND" ∧ p.definition?.isSome then none
      else some (((a.moveTo p s).prepare p s).context.operation s.opcode)

theorem executed?_eq_some (hc : a.control = p :: outer) {s : Statement} (hs : p.statement? = some s)
    (hop : s.opcode ≠ "MACRO") (hm : ¬ (s.opcode = "MEND" ∧ p.definition?.isSome)) :
    a.executed? = some (((a.moveTo p s).prepare p s).context.operation s.opcode) := by
  unfold executed?
  rw [hc]
  dsimp only
  rw [hs]
  exact if_neg (not_or.2 ⟨hop, hm⟩)

theorem step_of_none (hc : a.control = p :: outer) (hs : p.statement? = none) : a.step = .ok a.leave := by
  unfold step
  rw [hc]
  dsimp only
  rw [hs]

theorem step_of_statement (hc : a.control = p :: outer) {s : Statement}
    (hs : p.statement? = some s) :
    a.step = if s.opcode = "MACRO" then .ok ((a.moveTo p s).readDefinition p outer)
      else if s.opcode = "MEND" ∧ p.definition?.isSome then .ok (a.moveTo p s).leave
      else ((a.moveTo p s).process p s).map fun r => r.1.proceed p outer r.2 := by
  unfold step
  rw [hc]
  dsimp only
  rw [hs]

/-- A statement that neither opens a definition nor ends a body is processed. -/
theorem step_of_executed (hc : a.control = p :: outer) {s : Statement} (hs : p.statement? = some s)
    (hop : s.opcode ≠ "MACRO") (hm : ¬ (s.opcode = "MEND" ∧ p.definition?.isSome)) :
    a.step = ((a.moveTo p s).process p s).map fun r => r.1.proceed p outer r.2 := by
  rw [step_of_statement hc hs, if_neg hop, if_neg hm]

/-- What a step can do with the innermost listing. -/
inductive Stepped (a : Assembly) (p : Activation) (outer : List Activation) : Assembly → Prop
  | behind (h : p.statement? = none) : Stepped a p outer a.leave
  | mend {s : Statement} (h : p.statement? = some s) (hs : s.opcode = "MEND")
    (inMacro : p.definition?.isSome) : Stepped a p outer (a.moveTo p s).leave
  | definition {s : Statement} {b : Assembly} (h : p.statement? = some s) (hs : s.opcode = "MACRO")
    (hb : (a.moveTo p s).Spares b) :
    Stepped a p outer (b.proceed p outer
      (.jump (p.index + (throughMend 0 (nestedStatements p)).length)))
  | executed {s : Statement} {b : Assembly} {flow : Flow} (h : p.statement? = some s)
    (hs : s.opcode ≠ "MACRO") (hm : ¬ (s.opcode = "MEND" ∧ p.definition?.isSome))
    (run : (a.moveTo p s).process p s = .ok (b, flow))
    (hb : Executed ((a.moveTo p s).prepare p s) p
      (((a.moveTo p s).prepare p s).context.operation s.opcode) b flow) :
    Stepped a p outer (b.proceed p outer flow)

theorem spares_readDefinition (a : Assembly) (p : Activation) :
    ∃ b, a.Spares b ∧ ∀ outer, a.readDefinition p outer =
      b.proceed p outer (.jump (p.index + (throughMend 0 (nestedStatements p)).length)) := by
  unfold readDefinition
  dsimp only
  split
  · exact ⟨_, spares_define .., fun _ => rfl⟩
  · refine ⟨_, ?_, fun _ => rfl⟩
    exact spares_level (l := ⟨.macroDefinition, false⟩) (s := a.context.sources) rfl
      (spares_define (a.mapContext (·.pushLevel .macroDefinition)) ..)

theorem stepped_of_step (h : Balanced j a) (hc : a.control = p :: outer)
    (hb : a.step = .ok b) : Stepped a p outer b := by
  cases effect_of_step hb with
  | finished control => cases hc.symm.trans control
  | behind control hs =>
    obtain ⟨rfl, rfl⟩ := List.cons.inj (hc.symm.trans control)
    exact .behind hs
  | definition control hs opens =>
    obtain ⟨rfl, rfl⟩ := List.cons.inj (hc.symm.trans control)
    obtain ⟨b', hb', he⟩ := spares_readDefinition (a.moveTo p _) p
    rw [he]
    exact .definition hs opens hb'
  | mend control hs _ closes =>
    obtain ⟨rfl, rfl⟩ := List.cons.inj (hc.symm.trans control)
    exact .mend hs closes.1 closes.2
  | @executed _ _ s control hs opens closes _ _ run =>
    obtain ⟨rfl, rfl⟩ := List.cons.inj (hc.symm.trans control)
    have hm := keeps_moveTo h hc s
    have hcalls (hd : p.definition? = none) := hm.calls_eq_nil (h.calls_eq_nil hc hd)
    exact .executed hs opens closes run (executed_of_process hcalls (hm.sound h.sound) run)

/-- A call is entered on top of the listing that goes on behind it. -/
theorem Balanced.proceed_called (h : Balanced j a) (hc : a.control = p :: outer)
    {c : Call} (hdepth : a.context.depth ≤ j.settings.maxNesting.toNat) :
    Balanced j
      ((a.called c).proceed p outer (.enter (.macroBody c.invocation.definition))) where
  library := h.library
  settings := h.settings
  nested := .call 0 (by simp) (h.at_index hc (p.index + 1)).nested
  sources := h.sources
  levels := h.levels
  depth := hdepth
  sound := h.sound.of_names rfl fun _ => id
  breaches := h.breaches

/-- A copy member is opened on top of the listing that goes on behind it. -/
theorem Balanced.proceed_opened (h : Balanced j a) (hc : a.control = p :: outer)
    {m : CopyMember} {found : LibraryMember} (hp : p.definition? = none)
    (closed : m.name ∉ a.context.openCopyMembers) (find : j.library.find? m.name = some found)
    (member : m = found.copyMember m.name) :
    Balanced j ((a.opened m).proceed p outer (.enter (.copyMember m))) := by
  have hn := (h.at_index hc (p.index + 1)).nested
  have hcalls := h.calls_eq_nil hc hp
  rw [opened_of_nil h.sources]
  refine ⟨h.library, h.settings, ?_, h.sources, h.levels, h.depth, h.sound.of_names rfl fun _ => id,
    h.breaches⟩
  dsimp only [proceed] at hn ⊢
  rw [hcalls] at hn ⊢
  refine .copy 0 (by simp) hn ?_ find member
  intro hmem
  refine closed ?_
  rw [openCopyMembers_of_nil h.sources]
  simpa using hmem

/-- Where the processing stands behind a step: `y` is the state that the step leads to, apart from the
branch counter and from what becomes of the listings. -/
inductive Moved (j : Job) (a : Assembly) (p : Activation) (outer : List Activation) : Assembly → Prop
  | left {y : Assembly} (h : a.Stays y) (atEnd : p.definition?.isSome ∨ y = a ∧ p.statement? = none) :
    Moved j a p outer y.leave
  | ended {y : Assembly} (h : a.Stays y) (inOpenCode : p.definition? = none) :
    Moved j a p outer (y.control.foldl (fun a _ => a.leave) y)
  | onward {y : Assembly} {i : Nat} (h : a.Holds y) (inside : p.statement? ≠ none) (hi : p.index < i) :
    Moved j a p outer { y with control := { p with index := i } :: outer }
  | jump {y : Assembly} {i : Nat} (h : a.Holds y) (inside : p.statement? ≠ none)
    (counted : ¬ (y.mapContext (·.countBranch)).context.scope.branchCounter < 0) :
    Moved j a p outer { y.mapContext (·.countBranch) with control := { p with index := i } :: outer }
  | counter {y : Assembly} {n : Int32} (h : a.Holds y) (isCounter : a.executed? = some "ACTR") :
    Moved j a p outer { y.mapContext (·.setBranchCounter n) with
      control := { p with index := p.index + 1 } :: outer }
  | called {y : Assembly} {c : Call} (h : a.Holds y) (inside : p.statement? ≠ none)
    (depth : a.context.depth ≤ j.settings.maxNesting.toNat)
    (limit : c.scope.branchCounter = a.context.branchLimit) :
    Moved j a p outer ((y.called c).proceed p outer (.enter (.macroBody c.invocation.definition)))
  | opened {y : Assembly} {m : CopyMember} {found : LibraryMember} (h : a.Holds y)
    (inside : p.statement? ≠ none) (inOpenCode : p.definition? = none)
    (closed : m.name ∉ a.context.openCopyMembers) (find : j.library.find? m.name = some found)
    (member : m = found.copyMember m.name) :
    Moved j a p outer ((y.opened m).proceed p outer (.enter (.copyMember m)))

/-- The state in which a statement is executed differs little from that before the step. -/
theorem holds_moveTo_prepare (h : Balanced j a) (hc : a.control = p :: outer)
    (s : Statement) : a.Holds ((a.moveTo p s).prepare p s) :=
  have hm := keeps_moveTo h hc s
  hm.toHolds.trans (holds_prepare (fun hd => hm.calls_eq_nil (h.calls_eq_nil hc hd)) s)

theorem length_throughMend_pos {ns : List NestedStatement} (h : ns ≠ []) (depth : Int) :
    0 < (throughMend depth ns).length := by
  cases ns with
  | nil => exact absurd rfl h
  | cons n rest =>
    unfold throughMend
    dsimp only
    split <;> simp

theorem nestedStatements_ne_nil {s : Statement} (h : p.statement? = some s) :
    nestedStatements p ≠ [] := by
  obtain ⟨hi, -⟩ := Array.getElem?_eq_some_iff.1 h
  unfold nestedStatements
  split
  · rename_i d hd
    have hb : p.statements = d.body := by
      obtain ⟨l, i⟩ := p
      cases l <;> simp_all [Activation.definition?, Activation.statements]
    rw [hb] at hi
    simp only [MacroDefinition.nestedBody, ne_eq, List.drop_eq_nil_iff, List.length_mapIdx,
      Array.length_toList]
    omega
  · simp only [ne_eq, List.map_eq_nil_iff, List.drop_eq_nil_iff, Array.length_toList]
    omega

/-- An exit leaves the body of a macro, or all of open code. -/
theorem moved_of_exit {y : Assembly} (h : a.Stays y) : Moved j a p outer (y.proceed p outer .exit) := by
  unfold proceed
  dsimp only
  split
  · rename_i hp
    exact .left h (.inl hp)
  · rename_i hp
    exact .ended h (by simpa using hp)

/-- **What one step does**, from the state before it. -/
theorem moved_of_step (h : Balanced j a) (hc : a.control = p :: outer)
    (hb : a.step = .ok b) : Moved j a p outer b := by
  cases stepped_of_step h hc hb with
  | behind hs => exact .left (.refl a) (.inr ⟨rfl, hs⟩)
  | mend hs _ inMacro => exact .left (keeps_moveTo h hc _).toStays (.inl inMacro)
  | definition hs _ hd =>
    refine .onward ((keeps_moveTo h hc _).toHolds.trans hd.toHolds) (by rw [hs]; simp) ?_
    have := length_throughMend_pos (nestedStatements_ne_nil hs) 0
    omega
  | @executed s b' flow hs hop hmend _ he =>
    have hq := holds_moveTo_prepare h hc s
    have inside : p.statement? ≠ none := by rw [hs]; simp
    cases he with
    | next hy => exact .onward (hq.trans hy.toHolds) inside (Nat.lt_succ_self _)
    | counter hy n isCounter =>
      exact .counter (hq.trans hy.toHolds) (isCounter ▸ executed?_eq_some hc hs hop hmend)
    | branch hy target hb _ =>
      have hqy := hq.trans hy.toHolds
      have hcalls (hd : p.definition? = none) := hqy.calls_eq_nil (h.calls_eq_nil hc hd)
      rcases branch_cases hcalls hb with ⟨rfl, hb'⟩ | ⟨y, hb', rfl, ⟨i, rfl, left⟩ | ⟨rfl, -⟩⟩
      · exact .onward (hqy.trans hb') inside (Nat.lt_succ_self _)
      · exact .jump (hqy.trans hb') inside left
      · exact moved_of_exit (hqy.toStays.trans (hb'.toStays.trans (stays_countBranch y)))
    | exit hy => exact moved_of_exit (hq.toStays.trans hy.toStays)
    | call hy c depth limit =>
      refine .called (hq.trans hy.toHolds) inside ?_ (limit.trans hq.branchLimit)
      rwa [hq.settings, hq.depth, h.settings] at depth
    | copy hy m found hp closed find member =>
      refine .opened (hq.trans hy.toHolds) inside hp ?_ (h.library ▸ hq.library ▸ find) member
      rwa [openCopyMembers_of_stays hq.toStays] at closed

/-- **One step keeps the stacks balanced.** -/
theorem Balanced.step (h : Balanced j a) (hb : a.step = .ok b) :
    Balanced j b := by
  cases hc : a.control with
  | nil =>
    unfold Assembly.step at hb
    rw [hc] at hb
    exact Except.ok.inj hb ▸ h
  | cons p outer =>
    cases moved_of_step h hc hb with
    | left hy _ => exact (h.of_stays hy).leave
    | ended hy _ => exact ((h.of_stays hy).leaveAll _).1
    | onward hy _ _ => exact (h.of_stays hy.toStays).at_index (hy.control.trans hc) _
    | jump hy _ _ =>
      have hy' := hy.toStays.trans (stays_countBranch _)
      exact (h.of_stays hy').at_index (hy'.control.trans hc) _
    | @counter y n hy _ =>
      have hy' := hy.toStays.trans (stays_setBranchCounter y n)
      exact (h.of_stays hy').at_index (hy'.control.trans hc) _
    | called hy _ depth _ =>
      refine (h.of_stays hy.toStays).proceed_called (hy.control.trans hc) ?_
      rwa [hy.depth]
    | opened hy _ hp closed find member =>
      refine (h.of_stays hy.toStays).proceed_opened (hy.control.trans hc) hp ?_ find member
      rw [openCopyMembers_of_stays hy.toStays]
      exact closed

end Steps

/-! ### Runs -/

/-- A run of some length leads from `a` to `b`. -/
def Reaches (a b : Assembly) : Prop := ∃ n, a.run n = .ok b

/-- The assembly of a text as the open code of a file, from a fresh state. -/
def fresh (file text : String) (library : Library) (settings : Settings) (now : Moment) : Assembly :=
  start (.start file settings now) text library settings

section Runs

variable {a b c : Assembly}

/-- A finished assembly stays as it is. -/
theorem step_of_isFinished (h : a.isFinished) : a.step = .ok a := by
  unfold step
  rw [List.isEmpty_iff.1 h]

theorem run_of_isFinished (h : a.isFinished) (n : Nat) : a.run n = .ok a := by
  cases n with
  | zero => rfl
  | succ n => rw [run, if_pos h]

/-- A run is a step and the rest of the run. -/
theorem run_succ (n : Nat) (a : Assembly) : a.run (n + 1) = a.step.bind (run n) := by
  by_cases h : a.isFinished
  · rw [run_of_isFinished h, step_of_isFinished h]
    exact (run_of_isFinished h n).symm
  · rw [run, if_neg h]
    cases a.step <;> rfl

/-- A run of `n + 1` steps that ends starts with a step. -/
theorem exists_step_of_run {n : Nat} (h : a.run (n + 1) = .ok c) :
    ∃ b, a.step = .ok b ∧ b.run n = .ok c := by
  rw [run_succ] at h
  cases hs : a.step with
  | error e => simp [hs, Except.bind] at h
  | ok b =>
    rw [hs] at h
    exact ⟨b, rfl, h⟩

theorem run_add (m n : Nat) (a : Assembly) : a.run (m + n) = (a.run m).bind (run n) := by
  induction m generalizing a with
  | zero =>
    rw [Nat.zero_add]
    rfl
  | succ m ih =>
    rw [Nat.succ_add, run_succ, run_succ]
    cases a.step with
    | error e => rfl
    | ok b => exact ih b

theorem Reaches.refl (a : Assembly) : a.Reaches a := ⟨0, rfl⟩

theorem Reaches.trans (h : a.Reaches b) (h' : b.Reaches c) : a.Reaches c := by
  obtain ⟨m, hm⟩ := h
  obtain ⟨n, hn⟩ := h'
  refine ⟨m + n, ?_⟩
  rw [run_add, hm]
  exact hn

theorem reaches_of_step (h : a.step = .ok b) : a.Reaches b := by
  refine ⟨1, ?_⟩
  rw [run_succ, h]
  rfl

theorem exists_of_any {r : Except AssemblyFault Assembly} {p : Assembly → Bool}
    (h : r.toOption.any p) : ∃ b, r = .ok b ∧ p b := by
  cases r with
  | error e => simp [Except.toOption] at h
  | ok b => exact ⟨b, rfl, by simpa [Except.toOption] using h⟩

/-- A run that is finished after `n` steps comes to what it comes to within these steps. -/
theorem all_of_reaches {p : Assembly → Bool} {n : Nat}
    (h : (List.range (n + 1)).all fun k => (a.run k).toOption.any p)
    (hfin : (a.run n).toOption.any isFinished) (hb : a.Reaches b) : p b := by
  obtain ⟨m, hm⟩ := hb
  have first {k : Nat} (hk : k ≤ n) (hr : a.run k = .ok b) : p b := by
    obtain ⟨c, hc, hp⟩ := exists_of_any (List.all_eq_true.1 h k (List.mem_range.2 (Nat.lt_succ_of_le hk)))
    rwa [Except.ok.inj (hr.symm.trans hc)]
  rcases Nat.le_total m n with hle | hge
  · exact first hle hm
  · obtain ⟨e, he, hfin⟩ := exists_of_any hfin
    obtain ⟨k, rfl⟩ := Nat.exists_eq_add_of_le hge
    rw [run_add, he] at hm
    obtain rfl := Except.ok.inj ((run_of_isFinished hfin k).symm.trans hm)
    exact first (Nat.le_refl _) he

/-- What every step preserves holds along a run. -/
theorem Reaches.induction {P : Assembly → Prop} (step : ∀ x y, P x → x.step = .ok y → P y)
    (h : a.Reaches b) (ha : P a) : P b := by
  obtain ⟨n, hn⟩ := h
  induction n generalizing a with
  | zero => exact Except.ok.inj hn ▸ ha
  | succ n ih =>
    obtain ⟨x, hx, hn⟩ := exists_step_of_run hn
    exact ih (step a x ha hx) hn

/-- What every step of a run preserves holds along it. -/
theorem Reaches.inductionAlong {P : Assembly → Prop} (step : ∀ x y, a.Reaches x → P x → x.step = .ok y → P y)
    (h : a.Reaches b) (ha : P a) : P b :=
  (h.induction (P := fun x => a.Reaches x ∧ P x)
    (fun x y hx hy => ⟨hx.1.trans (reaches_of_step hy), step x y hx.1 hx.2 hy⟩) ⟨.refl a, ha⟩).2

theorem mem_names_of_instructionKind? {file : String} {settings : Settings} {now : Moment} {n : String}
    {k : InstructionKind} (h : instructionKind? n = some k) :
    n ∈ (Context.start file settings now).names := by
  obtain ⟨i, hi, -⟩ := Option.map_eq_some_iff.1 h
  have hm := List.mem_of_find?_eq_some hi
  have hn : i.name = n := by simpa using List.find?_some hi
  refine Std.TreeSet.mem_ofList.2 ?_
  rw [List.contains_iff_mem, List.mem_append]
  exact .inl (List.mem_cons_of_mem _ (List.mem_map.2 ⟨i, hm, hn⟩))

theorem sound_fresh (file text : String) (library : Library) (settings : Settings) (now : Moment) :
    (fresh file text library settings now).Sound where
  macroName h := nomatch h
  macroPlain h := nomatch h
  copyMember h := nomatch h
  symbolName {n s} h := by
    have h : (#[] : Array Symbol).find? (·.name == n) = some s := h
    simp at h
  instructionName h := mem_names_of_instructionKind? h
  synonymName h := nomatch h
  refusal h := nomatch h

theorem balanced_fresh (file text : String) (library : Library) (settings : Settings) (now : Moment) :
    Balanced ⟨(statementsOf text.toList).toArray, file, library, settings⟩
      (fresh file text library settings now) :=
  ⟨rfl, rfl, .openCode 0, rfl, rfl, Nat.zero_le _, sound_fresh .., rfl⟩

theorem Balanced.reaches {j : Job} (h : Balanced j a) (hab : a.Reaches b) : Balanced j b :=
  hab.induction (fun _ _ hx hy => hx.step hy) h

/-- **A run keeps the stacks balanced.** -/
theorem Reaches.balanced {file text : String} {library : Library} {settings : Settings} {now : Moment}
    (h : (fresh file text library settings now).Reaches a) :
    Balanced ⟨(statementsOf text.toList).toArray, file, library, settings⟩ a :=
  (balanced_fresh ..).reaches h

end Runs

end AssemblerIndex.Assembly
