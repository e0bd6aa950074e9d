import AssemblerIndex.Proofs.Assembly.Symbols

/-!
# What the processing of a statement does

The operations of `Stays` are put together to those of a whole statement.  A statement either works in
the innermost scope and says where the listing goes on, or it enters the body of a macro or a copy
member; `Executed` lists what there is.
-/

namespace AssemblerIndex.Assembly

/-! ### Branches -/

/-- In open code a sequence symbol is entered under its name, unless there is one of that name. -/
theorem exists_addSequenceSymbol {x : Context} (hx : x.calls = []) (s : SequenceSymbol) :
    ∃ t, x.addSequenceSymbol s =
        .ok { x with openCode := { x.openCode with sequenceSymbols := t } } ∧
      ∀ n, t.find? n = if x.openCode.sequenceSymbols.find? s.name = none ∧ n = s.name then some s
        else x.openCode.sequenceSymbols.find? n := by
  have hm : x.isInMacro = false := by simp [Context.isInMacro, hx]
  unfold Context.addSequenceSymbol
  rw [if_neg (by simp [hm])]
  split
  · rename_i hc
    refine ⟨x.openCode.sequenceSymbols, rfl, fun n => (if_neg fun h => ?_).symm⟩
    simp [Table.contains, h.1] at hc
  · rename_i hc
    refine ⟨_, rfl, fun n => ?_⟩
    have hs : x.openCode.sequenceSymbols.find? s.name = none := by simpa [Table.contains] using hc
    simp [hs]

/-- Labels are only noted in open code. -/
theorem holds_noteLabel {a : Assembly} (ha : a.context.calls = []) (file : String) (index : Nat)
    (s : Statement) : a.Holds (a.noteLabel file index s) := by
  unfold noteLabel
  split
  · exact .refl _
  · rename_i name pos _
    refine (spares_meet a [name]).toHolds.trans ?_
    have hm : (a.meet [name]).context.calls = [] := ha
    obtain ⟨t, hx, -⟩ := exists_addSequenceSymbol hm ⟨name, ⟨file, pos⟩, index⟩
    rw [attempt_of_ok (f := (·.addSequenceSymbol _)) hx]
    exact
      { control := rfl, library := rfl, settings := rfl, file := rfl, branchLimit := rfl
        members := rfl, base := fun _ => rfl, sources := rfl, levels := rfl
        definitions := rfl, callers := rfl
        openCode := fun h => absurd hm h, breaches := rfl, names := fun _ => id
        sound := fun ha => ha.of_names rfl fun _ => id
        counter := by rw [scope_of_nil hm, scope_of_nil (by exact hm)] }

theorem holds_seek {a : Assembly} (ha : a.context.calls = []) (file target : String) (depth : Int)
    (index : Nat) (ss : List Statement) : a.Holds (a.seek file target depth index ss).1 := by
  induction ss generalizing a depth index with
  | nil => exact .refl _
  | cons s rest ih =>
    unfold seek
    dsimp only
    split
    · exact ih ha _ _
    · have h := holds_noteLabel ha file index s
      split
      · exact h
      · exact h.trans (ih (h.calls_eq_nil ha) _ _)

theorem holds_target? {a : Assembly} {p : Activation} (ha : p.definition? = none → a.context.calls = [])
    (name : String) : a.Holds (a.target? p name).1 := by
  unfold target?
  split
  · exact .refl _
  · rename_i hp
    dsimp only
    split
    · exact .refl _
    · exact holds_level (l := ⟨.lookahead, false⟩) (s := a.context.sources) rfl
        (holds_seek (a := a.mapContext (·.pushLevel .lookahead)) (ha hp) ..)

/-- Where a branch goes, and what the branch counter has become. -/
theorem branch_cases {a : Assembly} {p : Activation} (ha : p.definition? = none → a.context.calls = [])
    {target : String} {b : Assembly} {flow : Flow} (h : a.branch p target = (b, flow)) :
    (flow = .next ∧ a.Holds b) ∨ ∃ a', a.Holds a' ∧ b = a'.mapContext (·.countBranch) ∧
      ((∃ i, flow = .jump i ∧ ¬ b.context.scope.branchCounter < 0) ∨
        flow = .exit ∧ b.context.scope.branchCounter < 0) := by
  unfold branch at h
  dsimp only at h
  have ht := (spares_meet a [Text.upper target]).toHolds.trans
    (holds_target? (a := a.meet [Text.upper target]) ha (Text.upper target))
  split at h
  · rename_i a' i ht'
    rw [ht'] at ht
    split at h
    · rename_i hc
      obtain ⟨rfl, rfl⟩ := Prod.mk.inj h
      exact .inr ⟨a', ht, rfl, .inr ⟨rfl, hc⟩⟩
    · rename_i hc
      obtain ⟨rfl, rfl⟩ := Prod.mk.inj h
      exact .inr ⟨a', ht, rfl, .inl ⟨i, rfl, hc⟩⟩
  · rename_i a' ht'
    rw [ht'] at ht
    obtain ⟨rfl, rfl⟩ := Prod.mk.inj h
    exact .inl ⟨rfl, ht⟩

theorem counter_countBranch (x : Context) :
    x.countBranch.scope.branchCounter = x.scope.branchCounter - 1 :=
  congrArg _ (scope_mapScope ..)

theorem stays_countBranch (a : Assembly) : a.Stays (a.mapContext (·.countBranch)) :=
  stays_mapScope a _

theorem stays_setBranchCounter (a : Assembly) (n : Int32) :
    a.Stays (a.mapContext (·.setBranchCounter n)) := stays_mapScope a _

/-! ### Calls and copies -/

/-- The assembly inside of a further call. -/
def called (a : Assembly) (c : Call) : Assembly := a.mapContext fun x => { x with calls := c :: x.calls }

/-- The assembly inside of a further copy member. -/
def opened (a : Assembly) (m : CopyMember) : Assembly :=
  a.mapContext (·.mapSource fun s => { s with copyStack := { member := m } :: s.copyStack })

theorem exists_enterMacro {x : Context} {name : String} {d : MacroDefinition}
    (hd : x.macros.find? name = some d) (label : Option MacroData) (args : List Argument) :
    ∃ c ns v, x.enterMacro name label args =
        .ok { x with calls := c :: x.calls, names := ns, visited := v, callCount := x.callCount + 1 } ∧
      c.invocation.definition = d ∧ c.scope.branchCounter = x.branchLimit ∧
      ∀ n ∈ x.names, n ∈ ns := by
  unfold Context.enterMacro
  rw [hd]
  dsimp only
  generalize hc : ({ invocation := d.call label args, scope := .start x.branchLimit x.systemGlobals } : Call)
    = c
  have hscope (s : Scope) : (Context.callScope { x with calls := c :: x.calls } s).branchCounter =
      s.branchCounter := rfl
  generalize Context.callScope { x with calls := c :: x.calls } = f at hscope ⊢
  rw [mapScope_of_cons rfl]
  generalize hy : Context.meet _ _ = y
  obtain ⟨v, hv, -⟩ := exists_visit y d.location.file
  have same : y = { x with calls := { c with scope := f c.scope } :: x.calls, names := y.names } := by
    rw [← hy]
    rfl
  have names : ∀ n ∈ x.names, n ∈ y.names := by
    intro n hn
    rw [← hy]
    simp [Context.meet, Std.TreeSet.mem_insertMany_list, hn]
  rw [hv, same]
  subst hc
  exact ⟨_, _, v, rfl, rfl, hscope _, names⟩

/-- A macro that is in the table is entered, unless the calls are nested too deeply already. -/
theorem callMacro_cases {a b : Assembly} {d : MacroDefinition} {s : Statement} {flow : Flow}
    (hd : a.context.macros.find? d.name = some d) (h : a.callMacro d s = (b, flow)) :
    (flow = .next ∧ a.Spares b) ∨
      flow = .enter (.macroBody d) ∧ a.context.depth ≤ a.settings.maxNesting.toNat ∧
        ∃ a' c, a.Spares a' ∧ b = a'.called c ∧ c.invocation.definition = d ∧
          c.scope.branchCounter = a.context.branchLimit := by
  unfold callMacro at h
  split at h
  · obtain ⟨rfl, rfl⟩ := Prod.mk.inj h
    exact .inl ⟨rfl, .refl _⟩
  · rename_i hdepth
    dsimp only at h
    generalize s.operands.map (fun o => Argument.ofText o.text) = args at h
    have hm := spares_meet a (args.filterMap (·.keyword))
    obtain ⟨c, ns, v, hx, hc, hb, hn⟩ :=
      exists_enterMacro (x := (a.meet (args.filterMap (·.keyword))).context) hd (labelData? s) args
    rw [hx] at h
    obtain ⟨rfl, rfl⟩ := Prod.mk.inj h
    refine .inr ⟨?_, by omega, { (a.meet (args.filterMap (·.keyword))) with context :=
      { (a.meet (args.filterMap (·.keyword))).context with
        names := ns, visited := v, callCount := a.context.callCount + 1 } }, c,
      hm.trans (.of_same rfl rfl hn fun ha => ha.of_names rfl hn), rfl, hc, hb⟩
    simp [Context.invocation?, hc]

theorem openCopyMembers_of_stays {a b : Assembly} (h : a.Stays b) :
    b.context.openCopyMembers = a.context.openCopyMembers := by
  have names (l : List CopyCursor) : l.reverse.map (·.member.name) =
      ((l.map (·.member)).map (·.name)).reverse := by simp
  unfold Context.openCopyMembers
  rw [names, names, h.members, h.sources]

/-- A copy member that the library holds is opened, unless it is open already. -/
theorem copy_cases {a b : Assembly} (ha : a.Sound) {s : Statement} {flow : Flow}
    (h : a.copy s = (b, flow)) :
    (flow = .next ∧ a.Spares b) ∨ ∃ a' m found, flow = .enter (.copyMember m) ∧ a.Spares a' ∧
      b = a'.opened m ∧ m.name ∉ a.context.openCopyMembers ∧
      a.library.find? m.name = some found ∧ m = found.copyMember m.name ∧ ∃ t, m.name = Text.upper t := by
  unfold copy at h
  split at h
  · rename_i c cs _ _ _
    have hname : String.ofList (Text.upperChars (c :: cs)) = Text.upper (String.ofList (c :: cs)) := by
      rw [Text.upper, String.toList_ofList]
    generalize String.ofList (Text.upperChars (c :: cs)) = name at h hname
    have hs := spares_copyMember? a name
    have hm := @find?_of_copyMember? a ha name
    split at h
    · rename_i a' he
      rw [he] at hs
      obtain ⟨rfl, rfl⟩ := Prod.mk.inj h
      exact .inl ⟨rfl, hs⟩
    · rename_i a' m he
      rw [he] at hs hm
      obtain ⟨rfl, hf⟩ := hm rfl
      split at h
      · obtain ⟨rfl, rfl⟩ := Prod.mk.inj h
        exact .inl ⟨rfl, hs⟩
      · rename_i hopen
        unfold Context.enterCopy at h
        rw [hf] at h
        obtain ⟨rfl, rfl⟩ := Prod.mk.inj h
        obtain ⟨found, hl, hmem⟩ := (hs.sound ha).copyMember hf
        refine .inr ⟨a', m, found, rfl, hs, rfl, ?_, hs.library ▸ hl, hmem, _, hname⟩
        rw [← openCopyMembers_of_stays hs.toStays]
        simpa using hopen
  · obtain ⟨rfl, rfl⟩ := Prod.mk.inj h
    exact .inl ⟨rfl, .refl _⟩

/-! ### Statements -/

/-- What a statement of the listing of `p` comes to that is executed in the state `a`.  The scopes are as
they were when a call is entered, since nothing is assigned on the way there. -/
inductive Executed (a : Assembly) (p : Activation) (opcode : String) : Assembly → Flow → Prop
  | next {b : Assembly} (h : a.Keeps b) : Executed a p opcode b .next
  | counter {b : Assembly} (h : a.Keeps b) (n : Int32) (isCounter : opcode = "ACTR") :
    Executed a p opcode (b.mapContext (·.setBranchCounter n)) .next
  | branch {a' b : Assembly} {flow : Flow} (h : a.Keeps a') (target : String)
    (hb : a'.branch p target = (b, flow)) (isBranch : opcode = "AGO" ∨ opcode = "AIF") :
    Executed a p opcode b flow
  | exit {b : Assembly} (h : a.Keeps b) : Executed a p opcode b .exit
  | call {b : Assembly} (h : a.Spares b) (c : Call)
    (depth : a.context.depth ≤ a.settings.maxNesting.toNat)
    (counter : c.scope.branchCounter = a.context.branchLimit) :
    Executed a p opcode (b.called c) (.enter (.macroBody c.invocation.definition))
  | copy {b : Assembly} (h : a.Spares b) (m : CopyMember) (found : LibraryMember)
    (inOpenCode : p.definition? = none) (closed : m.name ∉ a.context.openCopyMembers)
    (find : a.library.find? m.name = some found) (member : m = found.copyMember m.name) :
    Executed a p opcode (b.opened m) (.enter (.copyMember m))

theorem executed_of_follow {a b : Assembly} {p : Activation} {opcode : String}
    {target : Option String} {flow : Flow} (isBranch : opcode = "AGO" ∨ opcode = "AIF")
    (h : a.follow p target = (b, flow)) : Executed a p opcode b flow := by
  unfold follow at h
  split at h
  · exact .branch (.refl a) _ h isBranch
  · obtain ⟨rfl, rfl⟩ := Prod.mk.inj h
    exact .next (.refl a)

theorem executed_of_conditional? {a b : Assembly} {p : Activation} {s : Statement} {opcode : String}
    {flow : Flow} (h : a.conditional? p s opcode = some (b, flow)) : Executed a p opcode b flow := by
  unfold conditional? at h
  split at h
  · obtain ⟨rfl, rfl⟩ := Prod.mk.inj (Option.some.inj h)
    exact .next (keeps_declareOperands ..)
  · split at h
    · obtain ⟨rfl, rfl⟩ := Prod.mk.inj (Option.some.inj h)
      exact .next (keeps_assign ..)
    · split at h
      · exact executed_of_follow (.inl rfl) (Option.some.inj h)
      · exact executed_of_follow (.inr rfl) (Option.some.inj h)
      · obtain ⟨rfl, rfl⟩ := Prod.mk.inj (Option.some.inj h)
        exact .counter (.refl a) _ rfl
      · obtain ⟨rfl, rfl⟩ := Prod.mk.inj (Option.some.inj h)
        split
        · exact .exit (.refl a)
        · exact .next (.refl a)
      · obtain ⟨rfl, rfl⟩ := Prod.mk.inj (Option.some.inj h)
        exact .exit (.refl a)
      all_goals
        first
        | obtain ⟨rfl, rfl⟩ := Prod.mk.inj (Option.some.inj h)
          exact .next (.refl a)
        | simp at h

/-- A statement that enters no listing stays where it is. -/
theorem stays_of_executed {a b : Assembly} {p : Activation} {opcode : String} {flow : Flow}
    (h : Executed a p opcode b flow) (ha : p.definition? = none → a.context.calls = [])
    (hflow : ∀ l, flow ≠ .enter l) : a.Stays b := by
  cases h with
  | next hy => exact hy.toStays
  | counter hy n _ => exact hy.toStays.trans (stays_setBranchCounter ..)
  | exit hy => exact hy.toStays
  | branch hy target hb _ =>
    refine hy.toStays.trans ?_
    rcases branch_cases (fun hp => hy.calls_eq_nil (ha hp)) hb with ⟨-, hz⟩ | ⟨z, hz, rfl, -⟩
    · exact hz.toStays
    · exact hz.toStays.trans (stays_countBranch z)
  | call _ c => exact absurd rfl (hflow _)
  | copy _ m => exact absurd rfl (hflow _)

/-- What is executed under no operation code can be taken for that of any. -/
theorem Executed.of_spares {a a' b : Assembly} {p : Activation} {opcode : String} {flow : Flow}
    (ha : a.Spares a') (h : Executed a' p "" b flow) : Executed a p opcode b flow := by
  cases h with
  | next h => exact .next (ha.toKeeps.trans h)
  | counter h n isCounter => exact absurd isCounter (by decide)
  | branch h target hb isBranch => exact absurd isBranch (by decide)
  | exit h => exact .exit (ha.toKeeps.trans h)
  | call h c depth counter =>
    refine .call (ha.trans h) c ?_ (counter.trans ha.branchLimit)
    rwa [Context.depth, ha.calls, ha.settings] at depth
  | copy h m found inOpenCode closed find member =>
    refine .copy (ha.trans h) m found inOpenCode ?_ (ha.library ▸ find) member
    rwa [openCopyMembers_of_stays ha.toStays] at closed

theorem executed_of_processSubstituted {a b : Assembly} {p : Activation} {s : Statement}
    {opcode : String} (ha : a.Sound) {flow : Flow}
    (h : a.processSubstituted p s = .ok (b, flow)) : Executed a p opcode b flow := by
  rcases effect_of_processSubstituted h with ⟨-, rfl, rfl⟩ | ⟨-, h⟩
  · exact .next (.refl _)
  have hm := spares_meet a [s.opcode]
  generalize a.meet [s.opcode] = a₁ at h hm
  generalize a₁.context.operation s.opcode = op at h
  refine .of_spares hm ?_
  have hq := spares_macro? a₁ op
  cases h with
  | removed => exact .next (.refl _)
  | copyInMacro => exact .next (.refl _)
  | copy _ inOpenCode h =>
    rcases copy_cases (hm.sound ha) h with ⟨rfl, hb⟩ | ⟨a', m, found, rfl, hb, rfl, hopen, hfind, hmem, -⟩
    · exact .next hb.toKeeps
    · exact .copy hb m found inOpenCode hopen hfind hmem
  | finishInMacro => exact .next (.refl _)
  | finish => exact .exit (.refl _)
  | callMacro _ hd h =>
    rcases callMacro_cases (find?_of_macro? (hm.sound ha) hd) h with
      ⟨rfl, hb⟩ | ⟨rfl, hdepth, a', c, hb, rfl, rfl, hc⟩
    · exact .next (hq.toKeeps.trans hb.toKeeps)
    · exact .of_spares hq (.call hb c hdepth hc)
  | ordinary _ _ ho => exact .next (hq.toKeeps.trans (spares_ordinary ho).toKeeps)

/-- A statement is noted, if it is one of open code, and then executed. -/
theorem holds_prepare {a : Assembly} {p : Activation} (ha : p.definition? = none → a.context.calls = [])
    (s : Statement) : a.Holds (a.prepare p s) := by
  unfold prepare
  refine .trans ?_ (spares_meet ..).toHolds
  split
  · exact .refl _
  · rename_i hp
    unfold noteStatement
    dsimp only
    have hl := holds_noteLabel (ha (by simpa using hp)) p.file p.index s
    have hm := spares_macro? (a.noteLabel p.file p.index s) s.opcode
    generalize (a.noteLabel p.file p.index s).macro? s.opcode = r at hm ⊢
    obtain ⟨a', callee⟩ := r
    refine hl.trans (hm.trans ((spares_meet a' ((s.occurrences callee).map (·.name))).trans ?_)).toHolds
    exact .of_same rfl rfl (fun _ => id) fun h => h.of_names rfl fun _ => id

/-- What the processing of a statement comes to. -/
theorem executed_of_process {a b : Assembly} {p : Activation} {s : Statement}
    (ha : p.definition? = none → a.context.calls = []) (hs : a.Sound) {flow : Flow}
    (h : a.process p s = .ok (b, flow)) :
    Executed (a.prepare p s) p ((a.prepare p s).context.operation s.opcode) b flow := by
  have hp := holds_prepare ha s
  rcases process_cases h with hr | ⟨-, h⟩
  · exact executed_of_conditional? hr
  · exact executed_of_processSubstituted (hp.sound hs) h

end AssemblerIndex.Assembly
