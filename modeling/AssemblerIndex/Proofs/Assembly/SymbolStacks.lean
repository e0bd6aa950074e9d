import AssemblerIndex.Proofs.Assembly.Marking

/-!
# The stacks of symbols

Between two steps the position, the cursors and the calls of all listings below the innermost one stand at the
statements that are being executed there, and the next step begins by moving the innermost one to its own statement.
So whatever that statement defines gets the stack that stands for all of them.

* `Oriented` — what holds between two steps;
* `Executing` — what holds while a statement is executed; whatever becomes of the statement, the assembly is oriented
  behind it;
* `DefinedBy` — a symbol is the label of a statement, and its stack stands for what is being executed with it;
* `Oriented.step` — a step keeps the assembly oriented and defines symbols by the statement that it executes;
* `symbol_stacks_end_at_definitions` — **the stack of every symbol ends at the statement that defined it**.
-/

namespace AssemblerIndex.Assembly

/-- The position, the cursors and the calls of the assembly stand at the statements of the listings. -/
def Tracked (j : Job) (control : List Activation) (a : Assembly) : Prop :=
  Tracks j control a.context.base.location a.context.base.copyStack (a.context.calls.map (·.invocation))

/-- What holds between two steps: below the innermost listing all is up to date, and the macros are traced. -/
structure Oriented (j : Job) (a : Assembly) : Prop where
  ready : Ready j a.control a.context.base.location a.context.base.copyStack (a.context.calls.map (·.invocation))
  macros : ∀ {n d}, a.context.macros.find? n = some d → d.Traced j

/-- What holds while a statement of the innermost listing is executed. -/
structure Executing (j : Job) (p : Activation) (outer : List Activation) (s : Statement) (x : Assembly) : Prop where
  balanced : Balanced j x
  control : x.control = p :: outer
  statement : p.statement? = some s
  tracked : Tracked j (p :: outer.map (·.back)) x
  informed : Informed (NestedStatement.Traced j) x

/-- The symbol is the label of the statement of the innermost listing, and its stack stands for all that is being
executed with that statement. -/
structure DefinedBy (j : Job) (p : Activation) (outer : List Activation) (s : Statement) (r : Symbol) : Prop where
  executed : p.statement? = some s
  label : ∃ l, s.label = some l ∧ r.location = ⟨p.file, l.span.start⟩
  leads : Leads j (executing (p :: outer)) r.stack

/-- From `x` to `b` the statement defines all symbols that are new. -/
def Defines (j : Job) (p : Activation) (outer : List Activation) (s : Statement) (x b : Assembly) : Prop :=
  ∀ r ∈ b.context.symbols.symbols, r ∈ x.context.symbols.symbols ∨ DefinedBy j p outer s r

/-! ### Moving to a statement, and leaving it -/

/-- The macros and the symbols. -/
def lore (a : Assembly) := (a.context.macros, a.context.symbols)

section

variable {a : Assembly} {p : Activation}

/-- From `a` to `b` nothing changes but the listings, what the assembler knows of them, and the failures. -/
def Shifts (a b : Assembly) : Prop := ∃ control calls base sources failures,
  b = { a with control, failures, context := { a.context with calls, base, sources } }

theorem Shifts.refl (a : Assembly) : a.Shifts a := ⟨_, _, _, _, _, rfl⟩

theorem Shifts.trans {a b c : Assembly} (h : a.Shifts b) (h' : b.Shifts c) : a.Shifts c := by
  obtain ⟨_, _, _, _, _, rfl⟩ := h
  obtain ⟨_, _, _, _, _, rfl⟩ := h'
  exact ⟨_, _, _, _, _, rfl⟩

theorem Shifts.lore {a b : Assembly} (h : a.Shifts b) : b.lore = a.lore := by
  obtain ⟨_, _, _, _, _, rfl⟩ := h
  rfl

theorem shifts_leave (a : Assembly) : a.Shifts a.leave := by
  unfold leave
  split
  · exact .refl a
  · rename_i p outer _
    unfold attempt
    split
    · rename_i x hx
      cases hl : p.listing with
      | openCode statements f =>
        rw [hl] at hx
        exact Except.ok.inj hx ▸ ⟨_, _, _, _, _, rfl⟩
      | copyMember m =>
        rw [hl] at hx
        have hx : a.context.leaveCopy = .ok x := hx
        unfold Context.leaveCopy Context.mapSource at hx
        split at hx
        · obtain rfl := Except.ok.inj hx
          split <;> exact ⟨_, _, _, _, _, rfl⟩
        · cases hx
      | macroBody d =>
        rw [hl] at hx
        have hx : a.context.leaveMacro = .ok x := hx
        unfold Context.leaveMacro at hx
        split at hx
        · exact Except.ok.inj hx ▸ ⟨_, _, _, _, _, rfl⟩
        · cases hx
    · exact ⟨_, _, _, _, _, rfl⟩

theorem shifts_proceed (a : Assembly) (p : Activation) (outer : List Activation) (flow : Flow) :
    a.Shifts (a.proceed p outer flow) := by
  cases flow with
  | next => exact ⟨_, _, _, _, _, rfl⟩
  | jump i => exact ⟨_, _, _, _, _, rfl⟩
  | enter l => exact ⟨_, _, _, _, _, rfl⟩
  | exit =>
    unfold proceed
    dsimp only
    split
    · exact shifts_leave a
    · generalize a.control = l
      induction l generalizing a with
      | nil => exact .refl a
      | cons q rest ih => exact (shifts_leave a).trans (ih a.leave)

theorem shifts_moveTo (a : Assembly) (p : Activation) (s : Statement) : a.Shifts (a.moveTo p s) := by
  unfold moveTo mapContext
  dsimp only
  split
  · unfold Context.setMacroStatement
    split <;> exact ⟨_, _, _, _, _, rfl⟩
  · unfold Context.track Context.setPosition Context.setIndices Context.mapSource
    cases a.context.source.copyStack <;> cases a.context.sources <;> exact ⟨_, _, _, _, _, rfl⟩

theorem lore_leave (a : Assembly) : a.leave.lore = a.lore := (shifts_leave a).lore

theorem lore_proceed (a : Assembly) (p : Activation) (outer : List Activation) (flow : Flow) :
    (a.proceed p outer flow).lore = a.lore := (shifts_proceed ..).lore

theorem lore_moveTo (a : Assembly) (p : Activation) (s : Statement) : (a.moveTo p s).lore = a.lore :=
  (shifts_moveTo ..).lore

theorem moveTo_of_openCode (hp : p.definition? = none) (hs : a.context.sources = [])
    (hc : a.context.base.copyStack = []) (s : Statement) :
    a.moveTo p s = { a with context := { a.context with base := { a.context.base with
      location := ⟨a.context.base.location.file, s.position⟩
      beginIndex := p.index, endIndex := p.index + 1, endLine := s.span.stop.line } } } := by
  have hsource : a.context.source.copyStack = [] := by rw [source_of_nil hs, hc]
  unfold moveTo mapContext Context.track
  dsimp only
  rw [hp, hsource]
  dsimp only
  unfold Context.setIndices Context.setPosition
  rw [mapSource_of_nil hs, mapSource_of_nil (by exact hs)]
  rfl

theorem moveTo_of_copyMember (hp : p.definition? = none) (hs : a.context.sources = []) {c : CopyCursor}
    {cs : List CopyCursor} (hc : a.context.base.copyStack = c :: cs) (s : Statement) :
    a.moveTo p s = { a with context := { a.context with base := { a.context.base with
      copyStack := { c with current := p.index } :: cs } } } := by
  have hsource : a.context.source.copyStack = c :: cs := by rw [source_of_nil hs, hc]
  unfold moveTo mapContext Context.track
  dsimp only
  rw [hp, hsource]
  dsimp only
  rw [mapSource_of_nil hs]
  rfl

theorem moveTo_of_macroBody (hp : p.definition?.isSome) {c : Call} {cs : List Call} (hc : a.context.calls = c :: cs)
    (s : Statement) : a.moveTo p s = { a with context := { a.context with
      calls := { c with invocation := { c.invocation with current := p.index } } :: cs } } := by
  unfold moveTo mapContext Context.setMacroStatement
  dsimp only
  rw [hp, hc]
  rfl

end

section

variable {j : Job} {a b x y : Assembly} {p : Activation} {outer : List Activation} {s : Statement}

/-- When a listing is left, the one below it goes on behind the statement that it was executing. -/
theorem Oriented.leave (h : Oriented j a) (hb : Balanced j a) : Oriented j a.leave := by
  have hmacros : a.leave.context.macros = a.context.macros := congrArg Prod.fst (lore_leave a)
  refine ⟨?_, fun hd => h.macros (hmacros ▸ hd)⟩
  cases hc : a.control with
  | nil =>
    rw [control_leave, hc]
    exact .finished
  | cons p outer =>
    have hready := h.ready
    rw [hc] at hready
    cases hp : p.definition? with
    | none =>
      rw [leave_of_openCode hb hc hp]
      dsimp only
      generalize a.context.base.copyStack = cs, a.context.calls.map (·.invocation) = is at hready ⊢
      cases hready with
      | openCode i file => exact .finished
      | copy i n h find => exact h.ready_outer
      | call i h traced => cases hp
    | some d =>
      rw [leave_of_macroBody hb hc (by rw [hp]; rfl)]
      dsimp only
      rw [List.map_tail]
      generalize a.context.base.copyStack = cs, a.context.calls.map (·.invocation) = is at hready ⊢
      cases hready with
      | openCode i file => cases hp
      | copy i n h find => cases hp
      | call i h traced => exact h.ready_outer

/-- A statement that is moved to is up to date, and with it all listings. -/
theorem Oriented.tracked_moveTo (h : Oriented j a) (hb : Balanced j a) (hc : a.control = p :: outer)
    (hs : p.statement? = some s) : Tracked j (p :: outer.map (·.back)) (a.moveTo p s) := by
  have hready := h.ready
  unfold Tracked
  rw [hc] at hready
  generalize hl : a.context.base.location = l, hcs : a.context.base.copyStack = cs,
    his : a.context.calls.map (·.invocation) = is at hready
  cases hready with
  | openCode i file =>
    rw [moveTo_of_openCode rfl hb.sources hcs]
    dsimp only
    rw [hcs, his, hl, file]
    exact .openCode hs
  | copy i n h find =>
    rw [moveTo_of_copyMember rfl hb.sources hcs]
    dsimp only
    rw [hl, his]
    exact .copy h find (by simpa [Activation.statement?, Activation.statements, LibraryMember.copyMember] using hs)
  | call i h traced =>
    obtain ⟨c, calls, hcalls, rfl, rfl⟩ := List.map_eq_cons_iff.1 his
    rw [moveTo_of_macroBody rfl hcalls]
    dsimp only
    rw [hl, hcs]
    exact .call (c := { c.invocation with current := i }) h traced hs

theorem Oriented.executing (h : Oriented j a) (hb : Balanced j a) (hc : a.control = p :: outer)
    (hs : p.statement? = some s) : Executing j p outer s (a.moveTo p s) where
  balanced := hb.of_stays (keeps_moveTo hb hc s).toStays
  control := (keeps_moveTo hb hc s).control.trans hc
  statement := hs
  tracked := h.tracked_moveTo hb hc hs
  informed :=
    have ha : Informed (NestedStatement.Traced j) a := ⟨hb.sound, hb.library ▸ inherent_traced j, h.macros⟩
    ha.of_stays (keeps_moveTo hb hc s).toStays (congrArg Prod.fst (lore_moveTo a p s))

/-! ### Executing a statement -/

theorem Executing.tracked_of_marks (h : Executing j p outer s x) (hm : Marks j p.file s x y) :
    Tracked j (p :: outer.map (·.back)) y := by
  unfold Tracked
  rw [hm.base, hm.calls]
  exact h.tracked

theorem Executing.of_marks (h : Executing j p outer s x) (hs : x.Stays y) (hm : Marks j p.file s x y) :
    Executing j p outer s y where
  balanced := h.balanced.of_stays hs
  control := hs.control.trans h.control
  statement := h.statement
  tracked := h.tracked_of_marks hm
  informed := hm.informed h.informed

theorem Executing.oriented (h : Executing j p outer s x) : Oriented j x := by
  refine ⟨?_, h.informed.macros⟩
  rw [h.control]
  exact Tracks.ready h.tracked p.index

/-- What the statement defines gets the stack that stands for all that is being executed. -/
theorem Executing.defines (h : Executing j p outer s x) (hm : Marks j p.file s x y) : Defines j p outer s x y := by
  intro r hr
  refine (hm.symbols r hr).imp_right fun ⟨hstack, hlabel⟩ => ⟨h.statement, hlabel, ?_⟩
  rw [hstack]
  unfold Context.stack
  rw [h.balanced.sources, List.map_reverse, List.reverse_nil]
  exact h.tracked.leads

theorem Defines.of_symbols (h : Defines j p outer s x y) (hb : b.context.symbols = y.context.symbols) :
    Defines j p outer s x b := fun r hr => h r (hb ▸ hr)

/-- Wherever processing goes on behind a statement that entered nothing, the assembly is oriented. -/
theorem Executing.proceed (h : Executing j p outer s y) {flow : Flow} (inside : ∀ l, flow ≠ .enter l) :
    Oriented j (y.proceed p outer flow) := by
  have hmacros : (y.proceed p outer flow).context.macros = y.context.macros :=
    congrArg Prod.fst (lore_proceed y p outer flow)
  refine ⟨?_, fun hd => h.informed.macros (hmacros ▸ hd)⟩
  cases flow with
  | next => exact Tracks.ready h.tracked _
  | jump i => exact Tracks.ready h.tracked i
  | enter l => exact absurd rfl (inside l)
  | exit =>
    unfold Assembly.proceed
    dsimp only
    split
    · exact (h.oriented.leave h.balanced).ready
    · rw [(h.balanced.leaveAll y.control).2, List.drop_length]
      exact .finished

/-- A macro that is entered stands on top of the statement that calls it. -/
theorem Executing.proceed_called (h : Executing j p outer s x) (hm : Marks j p.file s x y) {c : Call}
    (traced : c.invocation.definition.Traced j) :
    Oriented j ((y.called c).proceed p outer (.enter (.macroBody c.invocation.definition))) :=
  ⟨.call 0 (h.tracked_of_marks hm) traced, (hm.informed h.informed).macros⟩

/-- A copy member that is entered stands on top of the statement that names it. -/
theorem Executing.proceed_opened (h : Executing j p outer s x) (hm : Marks j p.file s x y)
    (inOpenCode : p.definition? = none) {name : String} {found : LibraryMember}
    (find : j.library.find? name = some found) :
    Oriented j ((y.opened (found.copyMember name)).proceed p outer (.enter (.copyMember (found.copyMember name)))) := by
  have hnil : y.context.calls.map (·.invocation) = [] := by
    rw [hm.calls, h.balanced.calls_eq_nil h.control inOpenCode]
    rfl
  have htracked := h.tracked_of_marks hm
  unfold Tracked at htracked
  rw [hnil] at htracked
  rw [opened_of_nil (hm.sources.trans h.balanced.sources)]
  refine ⟨?_, (hm.informed h.informed).macros⟩
  dsimp only [Assembly.proceed]
  rw [hnil]
  exact .copy 0 0 htracked find

/-- Behind a statement that was processed the assembly is oriented, and the statement defines what is new. -/
theorem Executing.process (h : Executing j p outer s x) {flow : Flow} (hr : x.process p s = .ok (y, flow)) :
    Oriented j (y.proceed p outer flow) ∧ Defines j p outer s x (y.proceed p outer flow) := by
  have hcalls (hd : p.definition? = none) := h.balanced.calls_eq_nil h.control hd
  have hsymbols : (y.proceed p outer flow).context.symbols = y.context.symbols :=
    congrArg Prod.snd (lore_proceed y p outer flow)
  cases went_process h.informed h.balanced.library hcalls hr with
  | on hm inside =>
    have hprepare := holds_prepare hcalls s
    have hexecuted := executed_of_process hcalls h.balanced.sound hr
    have hs := hprepare.toStays.trans
      (stays_of_executed hexecuted (fun hd => hprepare.calls_eq_nil (hcalls hd)) inside)
    exact ⟨(h.of_marks hs hm).proceed inside, (h.defines hm).of_symbols hsymbols⟩
  | called hm c traced => exact ⟨h.proceed_called hm traced, (h.defines hm).of_symbols hsymbols⟩
  | opened hm inOpenCode find =>
    refine ⟨h.proceed_opened hm inOpenCode find, (h.defines hm).of_symbols (hsymbols.trans ?_)⟩
    rw [opened_of_nil (hm.sources.trans h.balanced.sources)]

/-! ### Definitions of macros -/

theorem symbols_define (a : Assembly) (items : List NestedStatement) (isExternal : Bool) :
    (a.define items isExternal).1.context.symbols = a.context.symbols := by
  cases hname : definedName? items with
  | none => rw [define_of_none hname]
  | some name =>
    obtain ⟨b, r, hloads, -, -, hdefine⟩ := define_of_some hname a isExternal
    have hregister : (b.register r).1.context.symbols = b.context.symbols := by
      unfold register Context.addMacro
      dsimp only
      split <;> rfl
    rw [hdefine, hregister, hloads.frame]

/-- Reading a definition moves nothing and defines no symbol. -/
theorem marks_readDefinition (hitems : ∀ n ∈ nestedStatements p, n.Traced j) (a : Assembly) :
    ∃ y, a.Spares y ∧ Marks j p.file s a y ∧ ∀ outer, a.readDefinition p outer =
      y.proceed p outer (.jump (p.index + (throughMend 0 (nestedStatements p)).length)) := by
  have htraced : ∀ n ∈ throughMend 0 (nestedStatements p), n.Traced j := by
    intro n hn
    rw [throughMend_eq_take] at hn
    exact hitems n (List.mem_of_mem_take hn)
  unfold readDefinition
  dsimp only
  split
  · exact ⟨_, spares_define .., .of_informed (spares_define ..) (·.define htraced false) (symbols_define ..),
      fun _ => rfl⟩
  · have hspares := spares_level (l := ⟨.macroDefinition, false⟩) (s := a.context.sources) rfl
      (spares_define (a.mapContext (·.pushLevel .macroDefinition)) (throughMend 0 (nestedStatements p)) false)
    refine ⟨_, hspares, .of_informed hspares (fun ha => ?_) ?_, fun _ => rfl⟩
    · have hpush : Informed (NestedStatement.Traced j) (a.mapContext (·.pushLevel .macroDefinition)) :=
        ⟨ha.sound.of_names rfl fun _ => id, ha.inherent, ha.macros⟩
      refine ⟨hspares.sound ha.sound, hspares.library ▸ ha.inherent, fun hd => ?_⟩
      rw [macros_popLevel] at hd
      exact (hpush.define htraced false).macros hd
    · have hpop (b : Assembly) : (b.attempt Context.popLevel).context.symbols = b.context.symbols := by
        unfold attempt Context.popLevel
        cases b.context.levels <;> rfl
      rw [hpop, symbols_define]
      rfl

theorem Executing.readDefinition (h : Executing j p outer s x) :
    Oriented j (x.readDefinition p outer) ∧ Defines j p outer s x (x.readDefinition p outer) := by
  have hready := h.oriented.ready
  rw [h.control] at hready
  obtain ⟨y, hspares, hm, he⟩ := marks_readDefinition hready.traced x
  rw [he]
  exact ⟨(h.of_marks hspares.toStays hm).proceed nofun,
    (h.defines hm).of_symbols (congrArg Prod.snd (lore_proceed y ..))⟩

/-! ### Steps -/

/-- **A step keeps the assembly oriented, and the statement that it executes defines all symbols that are new.** -/
theorem Oriented.step (h : Oriented j a) (hb : Balanced j a) (hs : a.step = .ok b) :
    Oriented j b ∧ ∀ r ∈ b.context.symbols.symbols, r ∈ a.context.symbols.symbols ∨
      ∃ p outer s, a.control = p :: outer ∧ DefinedBy j p outer s r := by
  have hleave (x : Assembly) : x.leave.context.symbols = x.context.symbols := congrArg Prod.snd (lore_leave x)
  have hmove (p : Activation) (s : Statement) : (a.moveTo p s).context.symbols = a.context.symbols :=
    congrArg Prod.snd (lore_moveTo a p s)
  have hdefines {b : Assembly} {p : Activation} {outer : List Activation} {s : Statement} (hc : a.control = p :: outer)
      (hd : Defines j p outer s (a.moveTo p s) b) :
      ∀ r ∈ b.context.symbols.symbols, r ∈ a.context.symbols.symbols ∨
        ∃ p outer s, a.control = p :: outer ∧ DefinedBy j p outer s r := by
    intro r hr
    have hr := hd r hr
    rw [hmove] at hr
    exact hr.imp_right fun hr => ⟨p, outer, s, hc, hr⟩
  cases effect_of_step hs with
  | finished => exact ⟨h, fun _ => .inl⟩
  | behind =>
    refine ⟨h.leave hb, fun r hr => .inl ?_⟩
    rwa [hleave] at hr
  | definition hc hstatement =>
    have hx := h.executing hb hc hstatement
    exact ⟨hx.readDefinition.1, hdefines hc hx.readDefinition.2⟩
  | mend hc hstatement =>
    have hx := h.executing hb hc hstatement
    refine ⟨hx.oriented.leave hx.balanced, fun r hr => .inl ?_⟩
    rwa [hleave, hmove] at hr
  | executed hc hstatement _ _ hr =>
    obtain ⟨ho, hd⟩ := (h.executing hb hc hstatement).process hr
    exact ⟨ho, hdefines hc hd⟩

end

/-! ### Runs -/

theorem oriented_fresh (file text : String) (library : Library) (settings : Settings) (now : Moment) :
    Oriented ⟨(statementsOf text.toList).toArray, file, library, settings⟩
      (fresh file text library settings now) :=
  ⟨.openCode 0 rfl, fun hd => by cases hd⟩

/-- **A run keeps the assembly oriented.** -/
theorem Reaches.oriented {file text : String} {library : Library} {settings : Settings} {now : Moment} {a : Assembly}
    (h : (fresh file text library settings now).Reaches a) :
    Oriented ⟨(statementsOf text.toList).toArray, file, library, settings⟩ a := by
  have hboth := h.induction (P := fun x => Oriented ⟨(statementsOf text.toList).toArray, file, library, settings⟩ x ∧
      Balanced ⟨(statementsOf text.toList).toArray, file, library, settings⟩ x)
    (fun _ _ hx hy => ⟨(hx.1.step hx.2 hy).1, hx.2.step hy⟩) ⟨oriented_fresh .., balanced_fresh ..⟩
  exact hboth.1

/-- A symbol that a run has come to was defined by a step of it. -/
theorem exists_defining_step {a b : Assembly} (h : a.Reaches b) {r : Symbol} (hr : r ∈ b.context.symbols.symbols)
    (hnew : r ∉ a.context.symbols.symbols) :
    ∃ x y, a.Reaches x ∧ x.step = .ok y ∧ y.Reaches b ∧ r ∉ x.context.symbols.symbols ∧
      r ∈ y.context.symbols.symbols := by
  obtain ⟨n, hn⟩ := h
  induction n generalizing a with
  | zero => exact absurd (Except.ok.inj hn ▸ hr) hnew
  | succ n ih =>
    obtain ⟨y, hy, hn⟩ := exists_step_of_run hn
    by_cases hmem : r ∈ y.context.symbols.symbols
    · exact ⟨a, y, .refl a, hy, ⟨n, hn⟩, hnew, hmem⟩
    · obtain ⟨x, z, hx, hxz, hz, h1, h2⟩ := ih hmem hn
      exact ⟨x, z, (reaches_of_step hy).trans hx, hxz, hz, h1, h2⟩

/-- **The stack of every symbol ends at the statement that defined it.**  A symbol that is there at any point of a run
was defined by one step of it, from `b` to `c`.  The copy members that are open in `b` and the calls are those among its
listings, and the stack stands for the statements that are executed in them: one frame of open code, one of each copy
member, and for each macro those of the statement of its body, all from the outermost to the innermost (`Leads`).  So it
begins in open code of the file, at the statement of open code that is being executed, and it ends at the statement `s`
of the innermost listing: that one is labelled, the symbol lies where its label starts, and the last frame stands at the
position of the statement in the same file. -/
theorem symbol_stacks_end_at_definitions {file text : String} {library : Library} {settings : Settings} {now : Moment}
    {a : Assembly} (reached : (fresh file text library settings now).Reaches a) :
    let j : Job := ⟨(statementsOf text.toList).toArray, file, library, settings⟩
    ∀ r ∈ a.context.symbols.symbols, ∃ b c p outer s l,
      ((fresh file text library settings now).Reaches b ∧ b.step = .ok c ∧ c.Reaches a ∧
        r ∉ b.context.symbols.symbols ∧ r ∈ c.context.symbols.symbols) ∧
      (b.control = p :: outer ∧ p.statement? = some s ∧ Written j p.file s) ∧
      (b.context.openCopyMembers = (membersIn b.control).reverse ∧ b.context.calls.length = callsIn b.control) ∧
      Leads j (executing b.control) r.stack ∧
      (∃ i t, (executing b.control).getLast? = some ⟨.openCode j.statements file, i⟩ ∧ j.statements[i]? = some t ∧
        r.stack.head? = some ⟨.openCode, none, ⟨file, t.position⟩⟩) ∧
      (s.label = some l ∧ r.location = ⟨p.file, l.span.start⟩) ∧
      ∃ f, r.stack.getLast? = some f ∧ f.location = ⟨r.location.file, s.position⟩ := by
  intro j r hr
  obtain ⟨b, c, hb, hbc, hc, hold, hnew⟩ := exists_defining_step reached hr (Array.not_mem_empty r)
  obtain ⟨p, outer, s, hcontrol, hs, ⟨l, hl, hlocation⟩, hleads⟩ :=
    ((hb.oriented.step hb.balanced hbc).2 r hnew).resolve_left hold
  obtain ⟨hwritten, f, hf, hlast⟩ := hleads.getLast? hs
  have hcalls := hb.balanced.nested.length_eq.1
  rw [List.length_map] at hcalls
  refine ⟨b, c, p, outer, s, l, ⟨hb, hbc, hc, hold, hnew⟩, ⟨hcontrol, hs, hwritten⟩,
    ⟨hb.balanced.openCopyMembers, hcalls⟩, ?_, ?_, ⟨hl, hlocation⟩, f, hf, ?_⟩
  · rw [hcontrol]
    exact hleads
  · rw [hcontrol]
    exact hleads.head?
  · rw [hlast, hlocation]

/-- A macro with a copied body, and a call of it from a copy member. -/
def copiedCallText : String :=
  "         MACRO\n         M\n         COPY  INNER\n         MEND\n         COPY  OUTER\n"

/-- The copy member that holds the call, and the one that holds the body. -/
def copiedCallLibrary : Library :=
  .ofMembers [("OUTER", ⟨"outer", "*\n         M\n"⟩), ("INNER", ⟨"inner", "*\nLAB      DS    F\n"⟩)]

theorem symbol_stack_of_copied_call :
    let j : Job := ⟨(statementsOf copiedCallText.toList).toArray, "S", copiedCallLibrary, {}⟩
    ∃ (a b : Assembly) (r : Symbol) (p : Activation) (outer : List Activation) (s : Statement),
      (fresh "S" copiedCallText copiedCallLibrary {} default).Reaches a ∧ r ∈ a.context.symbols.symbols ∧
      r.location = ⟨"inner", ⟨1, 0⟩⟩ ∧
      r.stack = [⟨.openCode, none, ⟨"S", ⟨4, 9⟩⟩⟩, ⟨.copy, some "OUTER", ⟨"outer", ⟨1, 9⟩⟩⟩,
        ⟨.macroBody, some "M", ⟨"S", ⟨2, 9⟩⟩⟩, ⟨.copy, some "INNER", ⟨"inner", ⟨1, 9⟩⟩⟩] ∧
      b.control = p :: outer ∧ p.statement? = some s ∧ Leads j (executing b.control) r.stack ∧ p.file = "inner" ∧
      s.position = ⟨1, 9⟩ := by
  intro j
  have hrun : ((fresh "S" copiedCallText copiedCallLibrary {} default).run 9).toOption.any fun a =>
      a.context.symbols.symbols.toList.any fun r => decide (r.location = ⟨"inner", ⟨1, 0⟩⟩ ∧
        r.stack = [⟨.openCode, none, ⟨"S", ⟨4, 9⟩⟩⟩, ⟨.copy, some "OUTER", ⟨"outer", ⟨1, 9⟩⟩⟩,
          ⟨.macroBody, some "M", ⟨"S", ⟨2, 9⟩⟩⟩, ⟨.copy, some "INNER", ⟨"inner", ⟨1, 9⟩⟩⟩]) := by
    decide +kernel
  obtain ⟨a, ha, hrun⟩ := exists_of_any hrun
  obtain ⟨r, hr, hfound⟩ := List.any_eq_true.1 hrun
  obtain ⟨hlocation, hstack⟩ := of_decide_eq_true hfound
  have hr := Array.mem_toList_iff.1 hr
  have reached : (fresh "S" copiedCallText copiedCallLibrary {} default).Reaches a := ⟨9, ha⟩
  obtain ⟨b, c, p, outer, s, l, -, ⟨hcontrol, hs, -⟩, -, hleads, -, ⟨-, hplace⟩, f, hf, hlast⟩ :=
    symbol_stacks_end_at_definitions reached r hr
  refine ⟨a, b, r, p, outer, s, reached, hr, hlocation, hstack, hcontrol, hs, hleads, ?_, ?_⟩
  · rw [hlocation] at hplace
    exact (congrArg Location.file hplace).symm
  · rw [hstack] at hf
    obtain rfl := Option.some.inj hf
    exact (congrArg Location.pos hlast).symm

end AssemblerIndex.Assembly
