import AssemblerIndex.Proofs.Assembly.Loading
import AssemblerIndex.Proofs.Context.Operations
import Mathlib.Data.List.Basic

/-!
# The stacks stay in order

The stacks of scopes, sources and levels are changed by different operations, and only a mark on a level says whether
its end takes a source away.  After any operations, failed ones among them, the stacks still belong together.

* `Operation.after`, `run` — the state behind an operation or a list of operations, whether they fail or not;
* `reading` — the sources, the levels and the copy members, which most operations leave alone;
* `Moved` — what an operation may do to sources, levels and copy members;
* `InOrder` — what holds of the stacks in one state;
* `StandsSince` — the operation that pushed an entry of a stack;
* `stacks_in_order` — **the stacks are in order behind any operations, and a source goes with the level it came with**.
-/

namespace AssemblerIndex.Context

/-! ### Runs -/

/-- The state behind an operation, whether it fails or not. -/
def Operation.after (op : Operation) (x : Context) : Context :=
  match op.perform x with
  | .ok _ y => y
  | .error _ y => y

/-- The state behind a list of operations. -/
def run (x : Context) (ops : List Operation) : Context := ops.foldl (fun x op => op.after x) x

@[simp] theorem run_nil (x : Context) : x.run [] = x := rfl

@[simp] theorem run_cons (x : Context) (op : Operation) (ops : List Operation) :
    x.run (op :: ops) = (op.after x).run ops := rfl

theorem run_append (x : Context) (ops ops' : List Operation) : x.run (ops ++ ops') = (x.run ops).run ops' :=
  List.foldl_append ..

/-- An operation that fails leaves the state as it was. -/
theorem after_eq (op : Operation) (x : Context) : op.after x = (op.apply x).toOption.getD x := by
  unfold Operation.after
  rw [perform_eq]
  cases op.apply x with
  | ok y => rfl
  | error e => rfl

/-- What every operation keeps holds behind any operations. -/
theorem run_induction {P : Context → Prop} {x : Context} (hx : P x)
    (hstep : ∀ (op : Operation) y, P y → P (op.after y)) (ops : List Operation) : P (x.run ops) := by
  induction ops generalizing x with
  | nil => exact hx
  | cons op ops ih => exact ih (hstep op x hx)

/-! ### Where statements are read from -/

/-- The sources, the levels of processing and the copy members. -/
def reading (x : Context) : Source × List Source × List Level × Table CopyMember :=
  (x.base, x.sources, x.levels, x.copyMembers)

section

variable {x y : Context}

@[simp] theorem reading_mapScope (x : Context) (f : Scope → Scope) : (x.mapScope f).reading = x.reading := by
  unfold mapScope
  split <;> rfl

@[simp] theorem reading_bind (x : Context) (name : String) (b : Binding) : (x.bind name b).reading = x.reading :=
  reading_mapScope ..

@[simp] theorem reading_visit (x : Context) (file : String) : (x.visit file).reading = x.reading := by
  unfold visit
  split <;> rfl

@[simp] theorem reading_meet (x : Context) (names : List String) : (x.meet names).reading = x.reading := rfl

theorem reading_declareLocal (x : Context) (name : String) (type : SetType) (isScalar : Bool) :
    (x.declareLocal name type isScalar).reading = x.reading := by
  unfold declareLocal
  split
  · rfl
  · exact reading_bind ..

theorem reading_declareGlobal (x : Context) (name : String) (type : SetType) (isScalar : Bool) :
    (x.declareGlobal name type isScalar).reading = x.reading := by
  unfold declareGlobal
  dsimp only
  rw [reading_bind]
  split <;> rfl

theorem reading_assign {name : String} {subscript : Option Nat} {v : SetValue}
    (h : x.assign? name subscript v = some y) : y.reading = x.reading := by
  unfold assign? at h
  split at h
  · obtain rfl := Option.some.inj h
    exact reading_bind ..
  · obtain ⟨s, -, rfl⟩ := Option.map_eq_some_iff.1 h
    rfl
  · obtain ⟨s, -, rfl⟩ := Option.map_eq_some_iff.1 h
    rfl
  · cases h

theorem reading_setMacroStatement (x : Context) (index : Nat) : (x.setMacroStatement index).reading = x.reading := by
  unfold setMacroStatement
  split <;> rfl

theorem reading_addSequenceSymbol {s : SequenceSymbol} (h : x.addSequenceSymbol s = .ok y) :
    y.reading = x.reading := by
  unfold addSequenceSymbol at h
  split at h
  · cases h
  · split at h
    · cases h
      rfl
    · cases h
      rfl

theorem reading_addSynonym {name target : String} (h : x.addSynonym name target = .ok y) :
    y.reading = x.reading := by
  unfold addSynonym at h
  split at h
  · cases h
    rfl
  · split at h
    · cases h
      rfl
    · cases h

theorem reading_enterMacro {name : String} {label : Option MacroData} {args : List Argument}
    (h : x.enterMacro name label args = .ok y) : y.reading = x.reading := by
  unfold enterMacro at h
  split at h
  · cases h
  · rename_i d hd
    obtain rfl := Except.ok.inj h
    have hcount (z : Context) (n : Nat) : ({ z with callCount := n } : Context).reading = z.reading := rfl
    rw [hcount, reading_visit, reading_meet, reading_mapScope]
    rfl

theorem reading_leaveMacro (h : x.leaveMacro = .ok y) : y.reading = x.reading := by
  unfold leaveMacro at h
  split at h
  · cases h
    rfl
  · cases h

end

/-! ### What an operation may do -/

/-- What an operation may do to the sources, the levels and the copy members. -/
inductive Moved (op : Operation) (x y : Context) : Prop where
  /-- sources and levels are as they were, and a copy member of a new name may have been added -/
  | aside (base : y.base = x.base) (sources : y.sources = x.sources) (levels : y.levels = x.levels)
      (members : ∀ n, y.copyMembers.find? n = x.copyMembers.find? n ∨
        x.copyMembers.find? n = none ∧ ∃ m, m.name = n ∧ y.copyMembers.find? n = some m)
  /-- the current source was changed; its copy members were open before, or they come from the table -/
  | inSource (f : Source → Source) (eq : y = x.mapSource f)
      (cursors : ∀ c ∈ (f x.source).copyStack,
        (∃ d ∈ x.source.copyStack, d.member = c.member) ∨ ∃ n, x.copyMembers.find? n = some c.member)
  | pushedLevel (kind : ProcessingKind) (eq : y = x.pushLevel kind)
  /-- no other operation pushes a source -/
  | pushedSource (kind : ProcessingKind) (file : String) (is : op = .pushSource kind file)
      (eq : y = x.pushSource kind file)
  | popped (eq : x.popLevel = .ok y)

section

variable {x y : Context} {op : Operation}

theorem Moved.of_reading (h : y.reading = x.reading) : Moved op x y := by
  simp only [reading, Prod.mk.injEq] at h
  obtain ⟨hbase, hsources, hlevels, hmembers⟩ := h
  exact .aside hbase hsources hlevels fun n => .inl (by rw [hmembers])

/-- A change of the current source that leaves its copy members alone. -/
theorem Moved.place (x : Context) {f : Source → Source} (hf : ∀ s, (f s).copyStack = s.copyStack) :
    Moved op x (x.mapSource f) := by
  refine .inSource f rfl fun c hc => ?_
  rw [hf] at hc
  exact .inl ⟨c, hc, rfl⟩

theorem Moved.addCopyMember (x : Context) (m : CopyMember) : Moved op x (x.addCopyMember m) := by
  obtain ⟨v, t, heq, -, hfind⟩ := Assembly.exists_addCopyMember x m
  rw [heq]
  refine .aside rfl rfl rfl fun n => ?_
  show t.find? n = _ ∨ _ ∧ ∃ m, m.name = n ∧ t.find? n = some m
  rw [hfind n]
  by_cases h : x.copyMembers.find? m.name = none ∧ n = m.name
  · rw [if_pos h]
    obtain ⟨hnone, rfl⟩ := h
    exact .inr ⟨hnone, m, rfl, rfl⟩
  · rw [if_neg h]
    exact .inl rfl

theorem Moved.enterCopy {name : String} (h : x.enterCopy name = .ok y) : Moved op x y := by
  unfold Context.enterCopy at h
  split at h
  · rename_i m hm
    cases h
    refine .inSource _ rfl fun c hc => ?_
    rcases List.mem_cons.1 hc with rfl | hc
    · exact .inr ⟨name, hm⟩
    · exact .inl ⟨c, hc, rfl⟩
  · cases h

theorem Moved.leaveCopy (h : x.leaveCopy = .ok y) : Moved op x y := by
  unfold Context.leaveCopy at h
  split at h
  · rename_i c cs hstack
    cases h
    refine .inSource _ rfl fun d hd => .inl ⟨d, ?_, rfl⟩
    rw [hstack]
    exact List.mem_cons_of_mem c hd
  · cases h

theorem Moved.setCursor (x : Context) (level index : Nat) : Moved op x (x.setCursor level index) := by
  refine .inSource _ rfl fun c hc => .inl ?_
  rw [List.mem_reverse] at hc
  obtain ⟨i, hi, hget⟩ := List.mem_iff_getElem.1 hc
  rw [List.getElem_modify] at hget
  rw [List.length_modify] at hi
  refine ⟨x.source.copyStack.reverse[i], List.mem_reverse.1 (List.getElem_mem hi), ?_⟩
  split at hget
  · rw [← hget]
  · rw [← hget]

theorem member_of_cursors {fs : List CopyFrame} {cs : List CopyCursor} (h : x.cursors fs = .ok cs) :
    ∀ c ∈ cs, ∃ n, x.copyMembers.find? n = some c.member := by
  induction fs generalizing cs with
  | nil =>
    cases h
    rintro c ⟨⟩
  | cons f fs ih =>
    unfold cursors at h
    split at h
    · rename_i m hm
      cases hrest : x.cursors fs with
      | error e =>
        rw [hrest] at h
        cases h
      | ok ds =>
        rw [hrest] at h
        cases h
        intro c hc
        rcases List.mem_cons.1 hc with rfl | hc
        · exact ⟨f.member, hm⟩
        · exact ih hrest c hc
    · cases h

theorem Moved.restore {p : Snapshot} (h : x.restore p = .ok y) : Moved op x y := by
  unfold Context.restore at h
  split at h
  · split at h
    · rename_i cs hcs
      cases h
      refine .inSource _ rfl fun c hc => .inr ?_
      exact member_of_cursors hcs c (List.mem_reverse.1 hc)
    · cases h
  · cases h

/-- Each operation that succeeds moves the sources, the levels and the copy members in one of the ways. -/
theorem moved_apply (h : op.apply x = .ok y) : Moved op x y := by
  cases op with
  | addSequenceSymbol s => exact .of_reading (reading_addSequenceSymbol h)
  | addSynonym name target => exact .of_reading (reading_addSynonym h)
  | enterMacro name label args => exact .of_reading (reading_enterMacro h)
  | leaveMacro => exact .of_reading (reading_leaveMacro h)
  | enterCopy name => exact .enterCopy h
  | leaveCopy => exact .leaveCopy h
  | popLevel => exact .popped h
  | restore p => exact .restore h
  | meet names =>
    cases h
    exact .of_reading (reading_meet ..)
  | declareLocal name type isScalar =>
    cases h
    exact .of_reading (reading_declareLocal ..)
  | declareGlobal name type isScalar =>
    cases h
    exact .of_reading (reading_declareGlobal ..)
  | assign name subscript v =>
    cases h
    cases ha : x.assign? name subscript v with
    | none => exact .of_reading rfl
    | some z => exact .of_reading (reading_assign ha)
  | setSymbols symbols =>
    cases h
    exact .of_reading rfl
  | setBranchCounter n =>
    cases h
    exact .of_reading (reading_mapScope ..)
  | countBranch =>
    cases h
    exact .of_reading (reading_mapScope ..)
  | removeSynonym name =>
    cases h
    exact .of_reading rfl
  | addMacro d =>
    cases h
    exact .of_reading rfl
  | setMacroStatement index =>
    cases h
    exact .of_reading (reading_setMacroStatement ..)
  | addCopyMember m =>
    cases h
    exact .addCopyMember x m
  | setCursor level index =>
    cases h
    exact .setCursor x level index
  | pushLevel kind =>
    cases h
    exact .pushedLevel kind rfl
  | pushSource kind file =>
    cases h
    exact .pushedSource kind file rfl rfl
  | setPosition p =>
    cases h
    exact .place x fun _ => rfl
  | setIndices beginIndex endIndex endLine =>
    cases h
    exact .place x fun _ => rfl

/-- Each operation, failed or not, moves the sources, the levels and the copy members in one of the ways. -/
theorem moved_after (op : Operation) (x : Context) : Moved op x (op.after x) := by
  rw [after_eq]
  cases h : op.apply x with
  | ok y => exact moved_apply h
  | error e => exact .of_reading rfl

end

/-! ### What holds in one state -/

/-- What the operations have to keep: the sources match the levels, and the cursors match the copy members. -/
structure Matched (x : Context) : Prop where
  /-- there are as many sources as levels that own one -/
  sources : x.sourceStack.length = x.levelStack.countP (·.ownsSource)
  /-- a copy member is entered under its name -/
  members : ∀ n m, x.copyMembers.find? n = some m → m.name = n
  /-- a cursor stands in the member that is entered under its name -/
  cursors : ∀ s ∈ x.sourceStack, ∀ c ∈ s.copyStack, x.copyMembers.find? c.member.name = some c.member

/-- The stacks of a state are in order. -/
structure InOrder (x : Context) : Prop extends Matched x where
  /-- the outermost scope is that of open code, and the others belong to macro calls -/
  scopes : ∃ s rest, x.scopeStack = (none, s) :: rest ∧ ∀ e ∈ rest, e.1.isSome = true
  /-- the outermost level owns a source -/
  levels : ∃ l rest, x.levelStack = l :: rest ∧ l.ownsSource = true
  /-- the processing stack begins with the outermost source -/
  stack : ∃ s rest frames, x.sourceStack = s :: rest ∧ x.stack = ⟨.openCode, none, s.location⟩ :: frames
  /-- the current scope is the innermost one -/
  scope : x.scopeStack.getLast? = some (x.invocation?, x.scope)
  /-- the current source is the innermost one -/
  source : x.sourceStack.getLast? = some x.source
  /-- what statements are processed for is told by the innermost level -/
  kind : x.levelStack.getLast?.map (·.kind) = some x.kind

section

variable {x y : Context}

theorem Matched.inOrder (h : x.Matched) : x.InOrder where
  toMatched := h
  scopes := by
    refine ⟨_, _, rfl, fun e he => ?_⟩
    obtain ⟨c, -, rfl⟩ := List.mem_map.1 he
    rfl
  levels := ⟨_, _, rfl, rfl⟩
  stack := ⟨_, _, _, rfl, rfl⟩
  scope := by
    unfold scopeStack Context.scope invocation?
    cases x.calls with
    | nil => rfl
    | cons c cs => simp [List.getLast?_cons]
  source := by
    unfold sourceStack Context.source
    cases x.sources with
    | nil => rfl
    | cons s ss => simp [List.getLast?_cons]
  kind := by
    unfold levelStack Context.kind
    cases x.levels with
    | nil => rfl
    | cons l ls => simp [List.getLast?_cons]

/-! ### What the operations do to the stacks -/

theorem levelStack_pushLevel (x : Context) (kind : ProcessingKind) :
    (x.pushLevel kind).levelStack = x.levelStack ++ [⟨kind, false⟩] := by
  simp [levelStack, pushLevel]

theorem levelStack_pushSource (x : Context) (kind : ProcessingKind) (file : String) :
    (x.pushSource kind file).levelStack = x.levelStack ++ [⟨kind, true⟩] := by
  simp [levelStack, pushSource]

theorem sourceStack_pushSource (x : Context) (kind : ProcessingKind) (file : String) :
    (x.pushSource kind file).sourceStack = x.sourceStack ++ [.start file] := by
  simp [sourceStack, pushSource]

theorem source_mapSource (x : Context) (f : Source → Source) : (x.mapSource f).source = f x.source := by
  unfold mapSource source
  cases x.sources with
  | nil => rfl
  | cons s ss => rfl

theorem levels_mapSource (x : Context) (f : Source → Source) : (x.mapSource f).levels = x.levels := by
  unfold mapSource
  split <;> rfl

theorem levelStack_mapSource (x : Context) (f : Source → Source) : (x.mapSource f).levelStack = x.levelStack := by
  rw [levelStack, levelStack, levels_mapSource]

/-- A change of the current source is one of the innermost entry. -/
theorem sourceStack_mapSource (x : Context) (f : Source → Source) :
    (x.mapSource f).sourceStack = x.sourceStack.dropLast ++ [f x.source] := by
  unfold mapSource sourceStack source
  cases x.sources with
  | nil => rfl
  | cons s ss => simp [List.dropLast_cons_of_ne_nil]

theorem copyMembers_mapSource (x : Context) (f : Source → Source) :
    (x.mapSource f).copyMembers = x.copyMembers := by
  unfold mapSource
  split <;> rfl

theorem popLevel_eq_ok (h : x.popLevel = .ok y) :
    ∃ l ls, x.levels = l :: ls ∧
      y = { x with levels := ls, sources := if l.ownsSource then x.sources.tail else x.sources } := by
  unfold popLevel at h
  split at h
  · rename_i l ls hlevels
    exact ⟨l, ls, hlevels, (Except.ok.inj h).symm⟩
  · cases h

theorem levelStack_popLevel (h : x.popLevel = .ok y) : ∃ l, x.levelStack = y.levelStack ++ [l] := by
  obtain ⟨l, ls, hlevels, rfl⟩ := popLevel_eq_ok h
  exact ⟨l, by simp [levelStack, hlevels]⟩

theorem copyMembers_popLevel (h : x.popLevel = .ok y) : y.copyMembers = x.copyMembers := by
  obtain ⟨l, ls, -, rfl⟩ := popLevel_eq_ok h
  rfl

end

section

variable {x y : Context}

/-- A cursor of the current source stands in the member that is entered under its name. -/
theorem Matched.source (h : x.Matched) :
    ∀ c ∈ x.source.copyStack, x.copyMembers.find? c.member.name = some c.member :=
  h.cursors x.source (List.mem_of_getLast? h.inOrder.source)

/-- The end of a level takes the innermost level off, and the innermost source if the level owns one. -/
theorem Matched.stacks_popLevel (h : x.Matched) (hpop : x.popLevel = .ok y) :
    ∃ l, x.levelStack = y.levelStack ++ [l] ∧
      y.sourceStack = if l.ownsSource then x.sourceStack.dropLast else x.sourceStack := by
  have hcount := h.sources
  obtain ⟨l, ls, hlevels, rfl⟩ := Context.popLevel_eq_ok hpop
  refine ⟨l, by simp [levelStack, hlevels], ?_⟩
  cases hl : l.ownsSource with
  | false => rfl
  | true =>
    -- beneath the level there is the one of open code, so there is a source beneath that of the level
    cases hsources : x.sources with
    | nil => simp [levelStack, hlevels, hsources, hl] at hcount
    | cons s ss => simp [sourceStack, hsources, List.dropLast_cons_of_ne_nil]

theorem Matched.popLevel (h : x.Matched) (hpop : x.popLevel = .ok y) : y.Matched := by
  obtain ⟨l, hlevels, hsources⟩ := h.stacks_popLevel hpop
  have hmembers := copyMembers_popLevel hpop
  have hcount := h.sources
  rw [hlevels, List.countP_append, List.countP_singleton] at hcount
  refine ⟨?_, ?_, ?_⟩
  · rw [hsources]
    cases hl : l.ownsSource with
    | true =>
      rw [hl, if_pos rfl] at hcount
      rw [if_pos rfl, List.length_dropLast, hcount, Nat.add_sub_cancel]
    | false =>
      rw [hl] at hcount
      exact hcount
  · rw [hmembers]
    exact h.members
  · intro s hs
    rw [hmembers]
    rw [hsources] at hs
    refine h.cursors s ?_
    split at hs
    · exact List.dropLast_subset _ hs
    · exact hs

/-- A copy member that is in the table stays there. -/
theorem Moved.copyMember {op : Operation} (h : Moved op x y) {n : String} {m : CopyMember}
    (hm : x.copyMembers.find? n = some m) : y.copyMembers.find? n = some m := by
  cases h with
  | aside hbase hsources hlevels hmembers =>
    rcases hmembers n with hsame | ⟨hnone, -⟩
    · rw [hsame, hm]
    · rw [hnone] at hm
      cases hm
  | inSource f heq hcursors =>
    rw [heq, copyMembers_mapSource]
    exact hm
  | pushedLevel kind heq =>
    rw [heq]
    exact hm
  | pushedSource kind file his heq =>
    rw [heq]
    exact hm
  | popped hpop =>
    rw [copyMembers_popLevel hpop]
    exact hm

theorem Matched.moved {op : Operation} (h : x.Matched) (hmove : Moved op x y) : y.Matched := by
  have hstay : ∀ s ∈ x.sourceStack, ∀ c ∈ s.copyStack, y.copyMembers.find? c.member.name = some c.member :=
    fun s hs c hc => hmove.copyMember (h.cursors s hs c hc)
  cases hmove with
  | aside hbase hsources hlevels hmembers =>
    have hsource : y.sourceStack = x.sourceStack := by rw [sourceStack, sourceStack, hbase, hsources]
    have hlevel : y.levelStack = x.levelStack := by rw [levelStack, levelStack, hlevels]
    refine ⟨?_, ?_, ?_⟩
    · rw [hsource, hlevel]
      exact h.sources
    · intro n m hm
      rcases hmembers n with hsame | ⟨-, m', hname, hnew⟩
      · exact h.members n m (hsame ▸ hm)
      · rw [hnew] at hm
        cases hm
        exact hname
    · rw [hsource]
      exact hstay
  | inSource f heq hcursors =>
    subst heq
    refine ⟨?_, ?_, ?_⟩
    · rw [levelStack_mapSource, ← h.sources, sourceStack_mapSource]
      simp
    · rw [copyMembers_mapSource]
      exact h.members
    · rw [sourceStack_mapSource, copyMembers_mapSource]
      intro s hs c hc
      rcases List.mem_append.1 hs with hs | hs
      · exact h.cursors s (List.dropLast_subset _ hs) c hc
      · rw [List.mem_singleton.1 hs] at hc
        rcases hcursors c hc with ⟨d, hd, hmember⟩ | ⟨n, hn⟩
        · rw [← hmember]
          exact h.source d hd
        · rw [h.members n c.member hn]
          exact hn
  | pushedLevel kind heq =>
    subst heq
    refine ⟨?_, h.members, hstay⟩
    rw [levelStack_pushLevel, List.countP_append, ← h.sources]
    rfl
  | pushedSource kind file his heq =>
    subst heq
    refine ⟨?_, h.members, ?_⟩
    · rw [levelStack_pushSource, sourceStack_pushSource, List.countP_append, List.length_append, ← h.sources]
      rfl
    · rw [sourceStack_pushSource]
      intro s hs c hc
      rcases List.mem_append.1 hs with hs | hs
      · exact h.cursors s hs c hc
      · rw [List.mem_singleton.1 hs] at hc
        cases hc
  | popped hpop => exact h.popLevel hpop

theorem Matched.start (file : String) (settings : Settings) (now : Moment) : (start file settings now).Matched := by
  refine ⟨rfl, ?_, ?_⟩
  · intro n m hm
    cases hm
  · intro s hs c hc
    rw [List.mem_singleton.1 hs] at hc
    cases hc

theorem Matched.run (h : x.Matched) (ops : List Operation) : (x.run ops).Matched :=
  run_induction h (fun op y hy => hy.moved (moved_after op y)) ops

end

end AssemblerIndex.Context
