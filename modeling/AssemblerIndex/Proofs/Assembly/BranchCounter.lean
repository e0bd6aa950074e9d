import AssemblerIndex.Proofs.Assembly.Branches
import AssemblerIndex.Proofs.Assembly.Termination
import AssemblerIndex.Proofs.Context.Operations

/-!
# The branch counter

Every scope has a branch counter of its own, which only the statements that are executed in this scope turn: an `ACTR`
sets it, and a branch to an existing label lowers it before it is tested.  So the branches that the counter still
allows and those that were attempted since it was set make up what it was set to.

* `Context.counters` — the branch counters of the scopes, outermost first;
* `assigned?`, `attempted?` — the next statement sets the counter, or it branches to an existing label;
* `Turns` — what a step does to the counters; `turns_of_step` says so of every step;
* `step_of_attempted` — a branch lands on its label, or it ends the scope;
* `Counted` — how many branches a scope has attempted since its counter was set;
* `branches_counted` — **the counter allows as many branches as the word it was set to**, and the next one ends the
  scope; `branchesLeft_ofInt` says when this word allows as many as the number does.
-/

namespace AssemblerIndex

/-! ### Counters -/

namespace Context

/-- The branch counters of the scopes, outermost first. -/
def counters (x : Context) : List Int32 := x.scopeStack.map (·.2.branchCounter)

/-- The branch counters of all scopes but the innermost. -/
def outerCounters (x : Context) : List Int32 := x.counters.dropLast

variable {x : Context}

theorem counters_of_nil (h : x.calls = []) : x.counters = [x.openCode.branchCounter] := by
  simp [counters, scopeStack, h]

theorem counters_of_cons {c : Call} {cs : List Call} (h : x.calls = c :: cs) :
    x.counters = { x with calls := cs }.counters ++ [c.scope.branchCounter] := by
  simp [counters, scopeStack, h]

theorem outerCounters_of_nil (h : x.calls = []) : x.outerCounters = [] := by
  rw [outerCounters, counters_of_nil h]
  rfl

theorem outerCounters_of_cons {c : Call} {cs : List Call} (h : x.calls = c :: cs) :
    x.outerCounters = { x with calls := cs }.counters := by
  rw [outerCounters, counters_of_cons h, List.dropLast_concat]

theorem counters_eq (x : Context) : x.counters = x.outerCounters ++ [x.scope.branchCounter] := by
  cases h : x.calls with
  | nil => rw [counters_of_nil h, outerCounters_of_nil h, Assembly.scope_of_nil h, List.nil_append]
  | cons c cs => rw [counters_of_cons h, outerCounters_of_cons h, Assembly.scope_of_cons h]

theorem length_counters (x : Context) : x.counters.length = x.depth := by
  simp [counters, depth]

theorem length_outerCounters (x : Context) : x.outerCounters.length + 1 = x.depth := by
  rw [outerCounters, List.length_dropLast, length_counters]
  exact Nat.succ_pred_eq_of_pos (Nat.succ_pos _)

theorem getElem?_counters (x : Context) {d : Nat} (hd : d + 1 = x.depth) :
    x.counters[d]? = some x.scope.branchCounter := by
  obtain rfl : d = x.outerCounters.length := Nat.succ.inj (hd.trans x.length_outerCounters.symm)
  rw [counters_eq, List.getElem?_concat_length]

end Context

namespace Assembly

section Counters

variable {a b : Assembly}

/-- What works in the innermost scope leaves the other counters alone. -/
theorem Stays.outerCounters (h : a.Stays b) : b.context.outerCounters = a.context.outerCounters := by
  cases ha : a.context.calls with
  | nil => rw [Context.outerCounters_of_nil ha, Context.outerCounters_of_nil (h.calls_eq_nil ha)]
  | cons c cs =>
    have hne : a.context.calls ≠ [] := by simp [ha]
    obtain ⟨c', cs', hb⟩ := List.exists_cons_of_ne_nil (h.calls_ne_nil hne)
    have hcallers := h.callers
    rw [ha, hb, List.tail_cons, List.tail_cons] at hcallers
    rw [Context.outerCounters_of_cons ha, Context.outerCounters_of_cons hb, hcallers]
    simp [Context.counters, Context.scopeStack, h.openCode hne]

theorem Stays.counters (h : a.Stays b) :
    b.context.counters = a.context.outerCounters ++ [b.context.scope.branchCounter] := by
  rw [Context.counters_eq, h.outerCounters]

theorem Holds.counters (h : a.Holds b) : b.context.counters = a.context.counters := by
  rw [h.toStays.counters, h.counter, ← Context.counters_eq]

end Counters

/-! ### The statements that turn a counter -/

/-- The next statement and its listing, if that statement is executed. -/
def executing? (a : Assembly) : Option (Activation × Statement) :=
  match a.control with
  | [] => none
  | p :: _ =>
    match p.statement? with
    | none => none
    | some s => if s.opcode = "MACRO" ∨ s.opcode = "MEND" ∧ p.definition?.isSome then none else some (p, s)

/-- The statement that the next one branches to: it is a branch that is taken, and its label exists. -/
def attempted? (a : Assembly) : Option Nat :=
  a.executing?.bind fun (p, s) =>
    let x := (a.moveTo p s).prepare p s
    (x.branchTarget? s).bind fun target => ((x.meet [Text.upper target]).target? p (Text.upper target)).2

/-- The word that the next statement sets the branch counter to. -/
def assigned? (a : Assembly) : Option Int32 :=
  a.executing?.bind fun (p, s) =>
    let x := (a.moveTo p s).prepare p s
    if x.context.operation s.opcode = "ACTR" then some (x.evaluate s.operandText).toWord else none

/-- The branch counter of the innermost scope behind the next statement. -/
def turned (a : Assembly) : Int32 :=
  match a.assigned?, a.attempted? with
  | some n, _ => n
  | none, some _ => a.context.scope.branchCounter - 1
  | none, none => a.context.scope.branchCounter

section Statements

variable {a b : Assembly} {p : Activation} {outer : List Activation} {s : Statement}

theorem executing?_eq_some (hc : a.control = p :: outer) (hs : p.statement? = some s) (hop : s.opcode ≠ "MACRO")
    (hm : ¬(s.opcode = "MEND" ∧ p.definition?.isSome)) : a.executing? = some (p, s) := by
  unfold executing?
  rw [hc]
  dsimp only
  rw [hs]
  exact if_neg (not_or.2 ⟨hop, hm⟩)

theorem exists_of_executing? (hc : a.control = p :: outer) {q : Activation} (h : a.executing? = some (q, s)) :
    q = p ∧ p.statement? = some s ∧ s.opcode ≠ "MACRO" ∧ ¬(s.opcode = "MEND" ∧ p.definition?.isSome) := by
  unfold executing? at h
  rw [hc] at h
  dsimp only at h
  split at h
  · cases h
  · rename_i s' hs
    split at h
    · cases h
    · rename_i hop
      cases h
      obtain ⟨hopens, hcloses⟩ := not_or.1 hop
      exact ⟨rfl, hs, hopens, hcloses⟩

theorem turned_of_not_executing (h : a.executing? = none) : a.turned = a.context.scope.branchCounter := by
  simp [turned, assigned?, attempted?, h]

theorem attempted?_eq (h : a.executing? = some (p, s)) :
    a.attempted? = (((a.moveTo p s).prepare p s).branchTarget? s).bind fun target =>
      ((((a.moveTo p s).prepare p s).meet [Text.upper target]).target? p (Text.upper target)).2 := by
  rw [attempted?, h]
  rfl

theorem assigned?_of_counter (h : a.executing? = some (p, s))
    (hop : ((a.moveTo p s).prepare p s).context.operation s.opcode = "ACTR") :
    a.assigned? = some (((a.moveTo p s).prepare p s).evaluate s.operandText).toWord := by
  rw [assigned?, h]
  exact if_pos hop

theorem assigned?_of_other (h : a.executing? = some (p, s))
    (hop : ((a.moveTo p s).prepare p s).context.operation s.opcode ≠ "ACTR") : a.assigned? = none := by
  rw [assigned?, h]
  exact if_neg hop

theorem attempted?_of_other (h : a.executing? = some (p, s))
    (hago : ((a.moveTo p s).prepare p s).context.operation s.opcode ≠ "AGO")
    (haif : ((a.moveTo p s).prepare p s).context.operation s.opcode ≠ "AIF") : a.attempted? = none := by
  have htarget : ((a.moveTo p s).prepare p s).branchTarget? s = none := by
    unfold branchTarget?
    split <;> first | contradiction | rfl
  rw [attempted?_eq h, htarget]
  rfl

/-- A statement that branches does not set the counter. -/
theorem assigned?_of_attempted {i : Nat} (hi : a.attempted? = some i) : a.assigned? = none := by
  obtain ⟨⟨p, s⟩, hexecuting, -⟩ := Option.bind_eq_some_iff.1 hi
  refine assigned?_of_other hexecuting fun hactr => ?_
  rw [attempted?_of_other hexecuting (by simp [hactr]) (by simp [hactr])] at hi
  cases hi

end Statements

/-! ### Steps -/

/-- What a step does to the counters: that of the innermost scope is turned, and then this scope may be left or a
further one entered, unless the whole run is over. -/
inductive Turns (a : Assembly) : Assembly → Prop
  | onward {b : Assembly} (further : List Int32) (hfurther : further = [] ∨ further = [a.context.branchLimit])
    (h : b.context.counters = a.context.outerCounters ++ a.turned :: further) : Turns a b
  | left {b : Assembly} (h : b.context.counters = a.context.outerCounters) : Turns a b
  | finished {b : Assembly} (h : b.isFinished) : Turns a b

section Steps

variable {j : Job} {a b x y : Assembly} {p : Activation} {outer : List Activation} {s : Statement} {flow : Flow}

theorem process_of_counter (h : (a.prepare p s).context.operation s.opcode = "ACTR") :
    a.process p s = .ok ((a.prepare p s).mapContext
      (·.setBranchCounter ((a.prepare p s).evaluate s.operandText).toWord), .next) := by
  have hactr : (a.prepare p s).conditional? p s "ACTR" = some ((a.prepare p s).mapContext
      (·.setBranchCounter ((a.prepare p s).evaluate s.operandText).toWord), .next) := rfl
  unfold process
  dsimp only
  rw [h, hactr]

/-- The scope stays, and its counter is turned. -/
theorem Turns.stay (h : a.Stays y) (hcounter : y.context.scope.branchCounter = a.turned)
    (hb : b.context.counters = y.context.counters) : Turns a b :=
  .onward [] (.inl rfl) (by rw [hb, h.counters, hcounter])

/-- Leaving a listing leaves its scope as well, if it is the body of a macro. -/
theorem Turns.leave (h : a.Stays y) (hb : Balanced j y) (hc : y.control = p :: outer)
    (hcounter : p.definition? = none → y.context.scope.branchCounter = a.turned) : Turns a y.leave := by
  cases hp : p.definition? with
  | none =>
    rw [leave_of_openCode hb hc hp]
    exact .stay h (hcounter hp) rfl
  | some d =>
    have hp : p.definition?.isSome := by rw [hp]; rfl
    obtain ⟨c, cs, hcalls, -⟩ := hb.exists_call hc hp
    rw [leave_of_macroBody hb hc hp]
    refine .left ?_
    rw [← h.outerCounters, Context.outerCounters_of_cons hcalls, hcalls]
    rfl

/-- An exit leaves the scope, or the run is over. -/
theorem Turns.exit (h : a.Stays y) (hb : Balanced j y) (hc : y.control = p :: outer) :
    Turns a (y.proceed p outer .exit) := by
  unfold proceed
  dsimp only
  split
  · rename_i hp
    refine .leave h hb hc fun hnone => ?_
    rw [hnone] at hp
    cases hp
  · have hempty := (hb.leaveAll y.control).2
    rw [List.drop_length] at hempty
    exact .finished (List.isEmpty_iff.2 hempty)

/-- A statement that turns no counter may enter a scope or leave it. -/
theorem turns_of_executed (h : a.Holds x) (hb : Balanced j x) (hc : x.control = p :: outer) {opcode : String}
    (hquiet : a.turned = a.context.scope.branchCounter) (hactr : opcode ≠ "ACTR") (hago : opcode ≠ "AGO")
    (haif : opcode ≠ "AIF") (he : Executed x p opcode y flow) : Turns a (y.proceed p outer flow) := by
  cases he with
  | next hy =>
    have hay := h.trans hy.toHolds
    exact .stay hay.toStays (hay.counter.trans hquiet.symm) rfl
  | counter _ _ isCounter => exact absurd isCounter hactr
  | branch _ _ _ isBranch => exact (isBranch.elim hago haif).elim
  | exit hy => exact .exit (h.toStays.trans hy.toStays) (hb.of_stays hy.toStays) (hy.control.trans hc)
  | @call y hy c depth counter =>
    have hay := h.trans hy.toHolds
    refine .onward [a.context.branchLimit] (.inr rfl) ?_
    show Context.counters { y.context with calls := c :: y.context.calls } = _
    rw [Context.counters_of_cons rfl, counter, h.branchLimit]
    show y.context.counters ++ _ = _
    rw [hay.toStays.counters, hay.counter, hquiet, List.append_assoc]
    rfl
  | copy hy m found hopen closed find member =>
    have hay := h.trans hy.toHolds
    have hopened := opened_of_nil (hy.sources.trans hb.sources) m
    refine .stay hay.toStays (hay.counter.trans hquiet.symm) ?_
    rw [proceed, hopened]
    rfl

/-- A branch lowers the counter if its label exists, and goes there unless the counter has come below zero. -/
theorem follow_branchTarget? (h : Balanced j a) (hc : a.control = p :: outer)
    (hexecuting : a.executing? = some (p, s)) :
    (a.attempted? = none ∧ ∃ z, a.Holds z ∧
        ((a.moveTo p s).prepare p s).follow p (((a.moveTo p s).prepare p s).branchTarget? s) = (z, .next)) ∨
      ∃ i z, a.attempted? = some i ∧ a.Holds z ∧
        ((a.moveTo p s).prepare p s).follow p (((a.moveTo p s).prepare p s).branchTarget? s) =
          (z.mapContext (·.countBranch), if a.context.scope.branchCounter - 1 < 0 then .exit else .jump i) := by
  have hx := holds_moveTo_prepare h hc s
  have hattempted := attempted?_eq hexecuting
  generalize (a.moveTo p s).prepare p s = x at hx hattempted ⊢
  cases htarget : x.branchTarget? s with
  | none =>
    rw [htarget] at hattempted
    exact .inl ⟨hattempted, x, hx, rfl⟩
  | some target =>
    have hmet := hx.trans (spares_meet x [Text.upper target]).toHolds
    have hz := hmet.trans (holds_target? (p := p) (fun hp => hmet.calls_eq_nil (h.calls_eq_nil hc hp))
      (Text.upper target))
    rw [htarget] at hattempted
    change a.attempted? = ((x.meet [Text.upper target]).target? p (Text.upper target)).2 at hattempted
    show _ ∧ (∃ z, _ ∧ x.branch p target = _) ∨ ∃ i z, _ ∧ _ ∧ x.branch p target = _
    unfold branch
    dsimp only
    generalize (x.meet [Text.upper target]).target? p (Text.upper target) = r at hz hattempted ⊢
    obtain ⟨z, found⟩ := r
    cases found with
    | none => exact .inl ⟨hattempted, z, hz, rfl⟩
    | some i =>
      have hcounter : (z.mapContext (·.countBranch)).context.scope.branchCounter = a.context.scope.branchCounter - 1 :=
        (counter_countBranch z.context).trans (congrArg (· - 1) hz.counter)
      refine .inr ⟨i, z, hattempted, hz, ?_⟩
      dsimp only
      rw [hcounter]
      split <;> rfl

/-- A branch turns the counter, if its label exists, and may end the scope. -/
theorem turns_of_follow (h : Balanced j a) (hc : a.control = p :: outer) (hexecuting : a.executing? = some (p, s))
    (hassigned : a.assigned? = none)
    (hb : ((a.moveTo p s).prepare p s).follow p (((a.moveTo p s).prepare p s).branchTarget? s) = (y, flow)) :
    Turns a (y.proceed p outer flow) := by
  rcases follow_branchTarget? h hc hexecuting with ⟨hattempted, z, hz, hfollow⟩ | ⟨i, z, hattempted, hz, hfollow⟩
  · obtain ⟨rfl, rfl⟩ := Prod.mk.inj (hb.symm.trans hfollow)
    have hquiet : a.turned = a.context.scope.branchCounter := by rw [turned, hassigned, hattempted]
    exact .stay hz.toStays (hz.counter.trans hquiet.symm) rfl
  · obtain ⟨rfl, rfl⟩ := Prod.mk.inj (hb.symm.trans hfollow)
    have hcounted := hz.toStays.trans (stays_countBranch z)
    have hcounter : (z.mapContext (·.countBranch)).context.scope.branchCounter = a.turned := by
      rw [turned, hassigned, hattempted]
      exact (counter_countBranch z.context).trans (congrArg (· - 1) hz.counter)
    split
    · exact .exit hcounted (h.of_stays hcounted) (hcounted.control.trans hc)
    · exact .stay hcounted hcounter rfl

/-- **What a step does to the counters.** -/
theorem turns_of_step (h : Balanced j a) (hb : a.step = .ok b) : Turns a b := by
  cases hc : a.control with
  | nil =>
    have hfinished : a.isFinished := by rw [isFinished, hc]; rfl
    rw [step_of_isFinished hfinished] at hb
    exact Except.ok.inj hb ▸ .finished hfinished
  | cons p outer =>
    cases stepped_of_step h hc hb with
    | behind hs =>
      have hquiet := turned_of_not_executing (a := a) (by simp [executing?, hc, hs])
      exact .leave (.refl a) h hc fun _ => hquiet.symm
    | @mend s hs hop inMacro =>
      have hm := keeps_moveTo h hc s
      refine .leave hm.toStays (h.of_stays hm.toStays) (hm.control.trans hc) fun hnone => ?_
      rw [hnone] at inMacro
      cases inMacro
    | definition hs hop hy =>
      have hquiet := turned_of_not_executing (a := a) (by simp [executing?, hc, hs, hop])
      have hay := (keeps_moveTo h hc _).toHolds.trans hy.toHolds
      exact .stay hay.toStays (hay.counter.trans hquiet.symm) rfl
    | @executed s y flow hs hop hm run he =>
      have hexecuting := executing?_eq_some hc hs hop hm
      have hx := holds_moveTo_prepare h hc s
      by_cases hactr : ((a.moveTo p s).prepare p s).context.operation s.opcode = "ACTR"
      · rw [process_of_counter hactr] at run
        obtain ⟨rfl, rfl⟩ := Prod.mk.inj (Except.ok.inj run)
        have hturned : a.turned = (((a.moveTo p s).prepare p s).evaluate s.operandText).toWord := by
          rw [turned, assigned?_of_counter hexecuting hactr]
        refine .stay (hx.toStays.trans (stays_setBranchCounter ..)) ?_ rfl
        rw [hturned]
        exact congrArg Scope.branchCounter (scope_mapScope ..)
      · have hassigned := assigned?_of_other hexecuting hactr
        by_cases hbranch : ((a.moveTo p s).prepare p s).context.operation s.opcode = "AGO" ∨
            ((a.moveTo p s).prepare p s).context.operation s.opcode = "AIF"
        · rw [process_of_branch hbranch] at run
          exact turns_of_follow h hc hexecuting hassigned (Except.ok.inj run)
        · obtain ⟨hago, haif⟩ := not_or.1 hbranch
          have hquiet : a.turned = a.context.scope.branchCounter := by
            rw [turned, hassigned, attempted?_of_other hexecuting hago haif]
          exact turns_of_executed hx (h.of_stays hx.toStays) (hx.control.trans hc) hquiet hactr hago haif he

/-- The run goes on at a label of the same listing. -/
def LandsAt (p : Activation) (outer : List Activation) (i : Nat) (b : Assembly) : Prop :=
  b.control = { p with index := i } :: outer

/-- The scope that the listing belongs to has ended: the caller goes on, or the run is over. -/
def EndsScope (a : Assembly) (p : Activation) (outer : List Activation) (b : Assembly) : Prop :=
  if p.definition?.isSome then b.control = outer ∧ b.context.depth + 1 = a.context.depth else b.isFinished

theorem endsScope_exit (h : a.Stays y) (hb : Balanced j y) (hc : y.control = p :: outer) :
    a.EndsScope p outer (y.proceed p outer .exit) := by
  unfold EndsScope proceed
  dsimp only
  split
  · rename_i hp
    obtain ⟨c, cs, hcalls, -⟩ := hb.exists_call hc hp
    have hdepth := h.depth
    rw [leave_of_macroBody hb hc hp, ← hdepth]
    refine ⟨rfl, ?_⟩
    simp [Context.depth, hcalls]
  · have hempty := (hb.leaveAll y.control).2
    rw [List.drop_length] at hempty
    exact List.isEmpty_iff.2 hempty

theorem exists_control_of_attempted {i : Nat} (hi : a.attempted? = some i) : ∃ p outer, a.control = p :: outer := by
  cases hc : a.control with
  | nil => simp [attempted?, executing?, hc] at hi
  | cons p outer => exact ⟨p, outer, rfl⟩

/-- **A branch to an existing label** lands there if the counter still allows it, and ends the scope otherwise. -/
theorem step_of_attempted (h : Balanced j a) (hc : a.control = p :: outer) {i : Nat} (hi : a.attempted? = some i) :
    ∃ b, a.step = .ok b ∧ (¬a.context.scope.branchCounter - 1 < 0 → LandsAt p outer i b) ∧
      (a.context.scope.branchCounter - 1 < 0 → a.EndsScope p outer b) := by
  obtain ⟨⟨q, s⟩, hexecuting, -⟩ := Option.bind_eq_some_iff.1 hi
  obtain ⟨rfl, hs, hop, hm⟩ := exists_of_executing? hc hexecuting
  have hbranch : ((a.moveTo q s).prepare q s).context.operation s.opcode = "AGO" ∨
      ((a.moveTo q s).prepare q s).context.operation s.opcode = "AIF" := by
    by_contra hother
    obtain ⟨hago, haif⟩ := not_or.1 hother
    rw [attempted?_of_other hexecuting hago haif] at hi
    cases hi
  rw [step_of_executed hc hs hop hm, process_of_branch hbranch]
  rcases follow_branchTarget? h hc hexecuting with ⟨hnone, -⟩ | ⟨i', z, hattempted, hz, hfollow⟩
  · rw [hnone] at hi
    cases hi
  · obtain rfl : i' = i := Option.some.inj (hattempted.symm.trans hi)
    have hcounted := hz.toStays.trans (stays_countBranch z)
    rw [hfollow]
    refine ⟨_, rfl, fun hleft => ?_, fun hspent => ?_⟩
    · dsimp only
      rw [if_neg hleft]
      exact rfl
    · dsimp only
      rw [if_pos hspent]
      exact endsScope_exit hcounted (h.of_stays hcounted) (hcounted.control.trans hc)

end Steps

/-! ### Words and numbers -/

/-- A branch that the counter allows is one less that it allows. -/
theorem branchesLeft_eq_zero_iff {n : Int32} : branchesLeft n = 0 ↔ n - 1 < 0 := by
  rw [branchesLeft, Int32.lt_iff_toInt_lt, Int32.toInt_zero]
  omega

/-- A counter that is set to a word allows as many branches as the word says, but for the least word. -/
theorem branchesLeft_ofInt {n : Int} (h : -2147483648 ≤ n) :
    (branchesLeft (Int32.ofInt n) : Int) = max n 0 ↔ n ≠ -2147483648 ∧ n ≤ 2147483648 := by
  have hword : (Int32.ofInt n - 1).toInt = (n - 1).bmod 4294967296 := by
    rw [show (1 : Int32) = Int32.ofInt 1 from rfl, ← Int32.ofInt_sub, Int32.toInt_ofInt]
  rw [branchesLeft, hword, Int.bmod]
  split <;> omega

/-! ### Runs -/

/-- The scope with the number, counted from the outermost one, is open, and the run is not over. -/
def IsOpen (a : Assembly) (d : Nat) : Prop := d < a.context.depth ∧ ¬a.isFinished

/-- In the run from `a₀` to `a` the branch counter of the scope with the number `d` was last set to `n`, when the scope
was entered or by an `ACTR` that was executed in it, and `k` branches to existing labels were attempted in it since. -/
inductive Counted (a₀ : Assembly) : Nat → Int → Nat → Assembly → Prop
  | start : Counted a₀ 0 a₀.settings.branchLimit 0 a₀
  | entered {a b : Assembly} (reached : a₀.Reaches a) (hb : a.step = .ok b) (isOpen : b.IsOpen a.context.depth) :
    Counted a₀ a.context.depth a₀.settings.branchLimit 0 b
  | assigned {a b : Assembly} {d k : Nat} {n : Int} (h : Counted a₀ d n k a) (hb : a.step = .ok b) (isOpen : b.IsOpen d)
    (inside : d + 1 = a.context.depth) {v : Int32} (hv : a.assigned? = some v) : Counted a₀ d v.toInt 0 b
  | attempted {a b : Assembly} {d k : Nat} {n : Int} (h : Counted a₀ d n k a) (hb : a.step = .ok b)
    (isOpen : b.IsOpen d) (inside : d + 1 = a.context.depth) {i : Nat} (hi : a.attempted? = some i) :
    Counted a₀ d n (k + 1) b
  | other {a b : Assembly} {d k : Nat} {n : Int} (h : Counted a₀ d n k a) (hb : a.step = .ok b) (isOpen : b.IsOpen d)
    (quiet : d + 1 = a.context.depth → a.assigned? = none ∧ a.attempted? = none) : Counted a₀ d n k b

section Runs

variable {j : Job} {a b : Assembly} {d : Nat}

theorem IsOpen.lt_length (h : b.IsOpen d) : d < b.context.counters.length := by
  rw [Context.length_counters]
  exact h.1

/-- The counters of the scopes around the innermost one stay. -/
theorem Turns.getElem?_around (h : Turns a b) (isOpen : b.IsOpen d) (hd : d + 1 < a.context.depth) :
    b.context.counters[d]? = a.context.counters[d]? := by
  have hlt : d < a.context.outerCounters.length := by
    have := a.context.length_outerCounters
    omega
  rw [Context.counters_eq a.context, List.getElem?_append_left hlt]
  cases h with
  | onward further _ h => rw [h, List.getElem?_append_left hlt]
  | left h => rw [h]
  | finished h => exact absurd h isOpen.2

/-- The counter of the innermost scope is turned, if the scope stays. -/
theorem Turns.getElem?_inside (h : Turns a b) (isOpen : b.IsOpen d) (hd : d + 1 = a.context.depth) :
    b.context.counters[d]? = some a.turned := by
  obtain rfl : d = a.context.outerCounters.length := by
    have := a.context.length_outerCounters
    omega
  cases h with
  | onward further _ h => rw [h, List.getElem?_append_right (Nat.le_refl _), Nat.sub_self, List.getElem?_cons_zero]
  | left h =>
    have hlt := isOpen.lt_length
    rw [h] at hlt
    exact absurd hlt (Nat.lt_irrefl _)
  | finished h => exact absurd h isOpen.2

/-- A scope that is entered has the counter of the settings. -/
theorem Turns.getElem?_entered (h : Turns a b) (isOpen : b.IsOpen a.context.depth) :
    b.context.counters[a.context.depth]? = some a.context.branchLimit := by
  have hlt := isOpen.lt_length
  have houter := a.context.length_outerCounters
  cases h with
  | onward further hfurther h =>
    rcases hfurther with rfl | rfl
    · rw [h, List.length_append, List.length_singleton, houter] at hlt
      exact absurd hlt (Nat.lt_irrefl _)
    · rw [h, ← houter, List.getElem?_append_right (Nat.le_succ _), Nat.succ_sub (Nat.le_refl _), Nat.sub_self]
      rfl
  | left h =>
    rw [h] at hlt
    omega
  | finished h => exact absurd h isOpen.2

/-- No step enters more than one scope. -/
theorem Turns.le_depth (h : Turns a b) (isOpen : b.IsOpen d) : d ≤ a.context.depth := by
  have hlt := isOpen.lt_length
  have houter := a.context.length_outerCounters
  cases h with
  | onward further hfurther h =>
    rw [h, List.length_append, List.length_cons] at hlt
    rcases hfurther with rfl | rfl
    · rw [List.length_nil] at hlt
      omega
    · rw [List.length_singleton] at hlt
      omega
  | left h =>
    rw [h] at hlt
    omega
  | finished h => exact absurd h isOpen.2

theorem branchLimit_leave (h : Balanced j a) : a.leave.context.branchLimit = a.context.branchLimit := by
  cases hc : a.control with
  | nil =>
    unfold leave
    rw [hc]
  | cons p outer =>
    cases hp : p.definition? with
    | none => rw [leave_of_openCode h hc hp]
    | some _ => rw [leave_of_macroBody h hc (by rw [hp]; rfl)]

theorem branchLimit_leaveAll (h : Balanced j a) (l : List Activation) :
    (l.foldl (fun a _ => a.leave) a).context.branchLimit = a.context.branchLimit := by
  induction l generalizing a with
  | nil => rfl
  | cons p rest ih => exact (ih h.leave).trans (branchLimit_leave h)

/-- What scopes start with stays the same. -/
theorem branchLimit_of_step (h : Balanced j a) (hb : a.step = .ok b) :
    b.context.branchLimit = a.context.branchLimit := by
  cases hc : a.control with
  | nil =>
    rw [step_of_isFinished (by rw [isFinished, hc]; rfl)] at hb
    rw [Except.ok.inj hb]
  | cons p outer =>
    cases moved_of_step h hc hb with
    | left hy _ => exact (branchLimit_leave (h.of_stays hy)).trans hy.branchLimit
    | ended hy _ => exact (branchLimit_leaveAll (h.of_stays hy) _).trans hy.branchLimit
    | onward hy _ _ => exact hy.branchLimit
    | @jump y i hy _ _ => exact (stays_countBranch y).branchLimit.trans hy.branchLimit
    | @counter y n hy _ => exact (stays_setBranchCounter y n).branchLimit.trans hy.branchLimit
    | called hy _ _ _ => exact hy.branchLimit
    | opened hy _ _ _ _ _ =>
      rw [opened_of_nil (hy.sources.trans h.sources)]
      exact hy.branchLimit

/-- A scope that has ended is open no more. -/
theorem EndsScope.not_isOpen {p : Activation} {outer : List Activation} (h : a.EndsScope p outer b)
    (hd : d + 1 = a.context.depth) : ¬b.IsOpen d := by
  rintro ⟨hdepth, hfinished⟩
  unfold EndsScope at h
  split at h
  · omega
  · exact hfinished h

end Runs

section Fresh

variable {file text : String} {library : Library} {settings : Settings} {now : Moment} {a : Assembly} {d k : Nat}
  {n : Int}

theorem Reaches.branchLimit (h : (fresh file text library settings now).Reaches a) :
    a.context.branchLimit = Int32.ofInt settings.branchLimit :=
  h.inductionAlong (P := fun x => x.context.branchLimit = Int32.ofInt settings.branchLimit)
    (fun _ _ reached hx hy => (branchLimit_of_step reached.balanced hy).trans hx) rfl

/-- What is counted: the scope stands, and the branches that are left and those attempted make up what the counter was
set to. -/
structure Account (a₀ : Assembly) (d : Nat) (n : Int) (k : Nat) (a : Assembly) : Prop where
  reached : a₀.Reaches a
  stands : d < a.context.depth
  balance : ∃ c, a.context.counters[d]? = some c ∧ branchesLeft c + k = branchesLeft (Int32.ofInt n)

theorem Counted.account (h : Counted (fresh file text library settings now) d n k a) :
    Account (fresh file text library settings now) d n k a := by
  induction h with
  | start => exact ⟨.refl _, Nat.one_pos, _, rfl, rfl⟩
  | entered reached hb isOpen =>
    have hturns := turns_of_step reached.balanced hb
    refine ⟨reached.trans (reaches_of_step hb), isOpen.1, _, hturns.getElem?_entered isOpen, ?_⟩
    rw [reached.branchLimit]
    rfl
  | @assigned a b d k n h hb isOpen inside v hv ih =>
    have hturns := turns_of_step ih.reached.balanced hb
    have hturned : a.turned = v := by rw [turned, hv]
    refine ⟨ih.reached.trans (reaches_of_step hb), isOpen.1, _, hturns.getElem?_inside isOpen inside, ?_⟩
    rw [hturned, Int32.ofInt_toInt]
    rfl
  | @attempted a b d k n h hb isOpen inside i hi ih =>
    have hbalanced := ih.reached.balanced
    have hturns := turns_of_step hbalanced hb
    have hturned : a.turned = a.context.scope.branchCounter - 1 := by rw [turned, assigned?_of_attempted hi, hi]
    obtain ⟨c, hc, hbalance⟩ := ih.balance
    obtain rfl := Option.some.inj ((a.context.getElem?_counters inside).symm.trans hc)
    -- the scope would have ended
    have hleft : ¬a.context.scope.branchCounter - 1 < 0 := by
      intro hspent
      obtain ⟨p, outer, hcontrol⟩ := exists_control_of_attempted hi
      obtain ⟨b', hb', -, hends⟩ := step_of_attempted hbalanced hcontrol hi
      obtain rfl := Except.ok.inj (hb.symm.trans hb')
      exact (hends hspent).not_isOpen inside isOpen
    refine ⟨ih.reached.trans (reaches_of_step hb), isOpen.1, _, hturns.getElem?_inside isOpen inside, ?_⟩
    have hone := branchesLeft_sub_one hleft
    rw [hturned]
    omega
  | @other a b d k n h hb isOpen quiet ih =>
    have hturns := turns_of_step ih.reached.balanced hb
    obtain ⟨c, hc, hbalance⟩ := ih.balance
    refine ⟨ih.reached.trans (reaches_of_step hb), isOpen.1, c, ?_, hbalance⟩
    rcases Nat.lt_or_eq_of_le ih.stands with haround | hinside
    · rw [hturns.getElem?_around isOpen haround, hc]
    · obtain ⟨hassigned, hattempted⟩ := quiet hinside
      have hturned : a.turned = a.context.scope.branchCounter := by rw [turned, hassigned, hattempted]
      rw [hturns.getElem?_inside isOpen hinside, hturned, ← hc, a.context.getElem?_counters hinside]

theorem Counted.le (hlimit : 0 ≤ settings.branchLimit) (h : Counted (fresh file text library settings now) d n k a) :
    -2147483648 ≤ n := by
  induction h with
  | start => exact Int.le_trans (by decide) hlimit
  | entered => exact Int.le_trans (by decide) hlimit
  | assigned _ _ _ _ _ _ => exact Int32.minValue_le_toInt _
  | attempted _ _ _ _ _ ih => exact ih
  | other _ _ _ _ ih => exact ih

/-- Every step goes on counting in the scopes that stay open. -/
theorem Counted.step {b : Assembly} (h : Counted (fresh file text library settings now) d n k a) (hb : a.step = .ok b)
    (isOpen : b.IsOpen d) : ∃ n k, Counted (fresh file text library settings now) d n k b := by
  by_cases inside : d + 1 = a.context.depth
  · cases hv : a.assigned? with
    | some v => exact ⟨_, _, h.assigned hb isOpen inside hv⟩
    | none =>
      cases hi : a.attempted? with
      | some i => exact ⟨_, _, h.attempted hb isOpen inside hi⟩
      | none => exact ⟨_, _, h.other hb isOpen fun _ => ⟨hv, hi⟩⟩
  · exact ⟨_, _, h.other hb isOpen fun hd => absurd hd inside⟩

/-- In every scope that is open the branches have been counted. -/
theorem exists_counted (h : (fresh file text library settings now).Reaches a) (isOpen : a.IsOpen d) :
    ∃ n k, Counted (fresh file text library settings now) d n k a := by
  refine h.inductionAlong (P := fun x => ∀ d, x.IsOpen d → ∃ n k, Counted (fresh file text library settings now) d n k x)
    (fun x y reached hx hy d isOpen => ?_) ?_ d isOpen
  · have hfinished : ¬x.isFinished := by
      intro hfinished
      rw [step_of_isFinished hfinished] at hy
      exact isOpen.2 (Except.ok.inj hy ▸ hfinished)
    rcases Nat.lt_or_eq_of_le ((turns_of_step reached.balanced hy).le_depth isOpen) with hd | rfl
    · obtain ⟨n, k, h⟩ := hx d ⟨hd, hfinished⟩
      exact h.step hy isOpen
    · exact ⟨_, _, .entered reached hy isOpen⟩
  · rintro d ⟨hd, -⟩
    obtain rfl : d = 0 := Nat.lt_one_iff.1 hd
    exact ⟨_, _, .start⟩

/-- **The branch counter bounds branching.**  In every scope that is open the branches to existing labels are counted
since the counter was set to `n`, by the settings or by an `ACTR` of this scope.  As many of them land on their labels
as the word of `n` allows, and the next one ends the scope.  These are `n`, and none for a negative `n`, unless `n` is
the least word or beyond the words. -/
theorem branches_counted (json : String) (settings : Settings) (usable : Settings.parse json = .ok settings)
    (file text : String) (library : Library) (now : Moment) :
    let a₀ := fresh file text library settings now
    (∀ a d, a₀.Reaches a → a.IsOpen d → ∃ n k, Counted a₀ d n k a) ∧
      ∀ a d n k, Counted a₀ d n k a →
        k ≤ branchesLeft (Int32.ofInt n) ∧
          (∀ p outer i, a.control = p :: outer → d + 1 = a.context.depth → a.attempted? = some i →
            ∃ b, a.step = .ok b ∧ (k < branchesLeft (Int32.ofInt n) → LandsAt p outer i b) ∧
              (k = branchesLeft (Int32.ofInt n) → a.EndsScope p outer b)) ∧
          ((branchesLeft (Int32.ofInt n) : Int) = max n 0 ↔ n ≠ -2147483648 ∧ n ≤ 2147483648) := by
  intro a₀
  refine ⟨fun a d h isOpen => exists_counted h isOpen, fun a d n k h => ?_⟩
  have hlimit : 0 ≤ settings.branchLimit := (Settings.isUsable_of_parse usable).2
  obtain ⟨hreached, -, c, hc, hbalance⟩ := h.account
  refine ⟨by omega, fun p outer i hcontrol inside hi => ?_, branchesLeft_ofInt (h.le hlimit)⟩
  obtain rfl := Option.some.inj ((a.context.getElem?_counters inside).symm.trans hc)
  obtain ⟨b, hb, hlands, hends⟩ := step_of_attempted hreached.balanced hcontrol hi
  refine ⟨b, hb, fun hleft => hlands fun hspent => ?_, fun hspent => hends ?_⟩
  · have hzero := branchesLeft_eq_zero_iff.2 hspent
    omega
  · exact branchesLeft_eq_zero_iff.1 (by omega)

/-- The assembly of a text whose second statement branches to itself, as often as the first one allows. -/
def loopingOnce : Assembly := fresh "S" " ACTR 1\n.T AGO .T\n" .empty {} default

theorem branches_counted_of_loop :
    Settings.parse "\x7b\x7d" = .ok {} ∧ ∃ a b c, loopingOnce.step = .ok a ∧ a.step = .ok b ∧ b.step = .ok c ∧
      Counted loopingOnce 0 1 0 a ∧ Counted loopingOnce 0 1 1 b ∧ b.control.map (·.index) = [1] ∧ c.isFinished := by
  have usable : Settings.parse "\x7b\x7d" = .ok {} := by decide +kernel
  have hset : loopingOnce.assigned? = some 1 := by decide +kernel
  have hrun : loopingOnce.step.toOption.any fun a => !a.isFinished && a.attempted? == some 1 &&
      a.control.length == 1 && a.context.depth == 1 && a.step.toOption.any fun b =>
        !b.isFinished && b.attempted? == some 1 && b.context.depth == 1 := by decide +kernel
  obtain ⟨a, ha, hrun⟩ := exists_of_any hrun
  simp only [Bool.and_eq_true, Bool.not_eq_true', beq_iff_eq] at hrun
  obtain ⟨⟨⟨⟨hafinished, haattempted⟩, halength⟩, hadepth⟩, hrun⟩ := hrun
  obtain ⟨b, hb, hrun⟩ := exists_of_any hrun
  simp only [Bool.and_eq_true, Bool.not_eq_true', beq_iff_eq] at hrun
  obtain ⟨⟨hbfinished, hbattempted⟩, hbdepth⟩ := hrun
  have haopen : a.IsOpen 0 := ⟨by omega, by simp [hafinished]⟩
  have hbopen : b.IsOpen 0 := ⟨by omega, by simp [hbfinished]⟩
  have hacounted : Counted loopingOnce 0 1 0 a := Counted.start.assigned ha haopen rfl hset
  have hbcounted : Counted loopingOnce 0 1 1 b := hacounted.attempted hb hbopen (by omega) haattempted
  have hone : branchesLeft (Int32.ofInt 1) = 1 := by decide +kernel
  obtain ⟨p, outer, hp⟩ := exists_control_of_attempted haattempted
  obtain ⟨q, outer', hq⟩ := exists_control_of_attempted hbattempted
  obtain ⟨b', hb', hlands, -⟩ := ((branches_counted "\x7b\x7d" {} usable "S" _ _ _).2 a 0 1 0 hacounted).2.1 p outer 1
    hp (by omega) haattempted
  obtain ⟨c, hc, -, hends⟩ := ((branches_counted "\x7b\x7d" {} usable "S" _ _ _).2 b 0 1 1 hbcounted).2.1 q outer' 1
    hq (by omega) hbattempted
  obtain rfl := Except.ok.inj (hb.symm.trans hb')
  refine ⟨usable, a, b, c, ha, hb, hc, hacounted, hbcounted, ?_, ?_⟩
  · have houter : outer = [] := by
      rw [hp, List.length_cons] at halength
      exact List.length_eq_zero_iff.1 (by omega)
    have hcontrol : b.control = _ := hlands (by omega)
    rw [hcontrol, houter]
    rfl
  · have hended := hends hone.symm
    unfold EndsScope at hended
    split at hended
    · have hpos : c.context.depth = c.context.calls.length + 1 := rfl
      omega
    · exact hended

/-- **A setting beyond the words allows the branches of the word that it is cut to**: the first branch of this run ends
it, although its settings allow more than four thousand million, and the statement at its label is not reached. -/
theorem no_branch_allowed_by_setting_beyond_words :
    let settings : Settings := { branchLimit := 4294967296 }
    let a := fresh "S" " AGO .T\nA EQU 1\n.T ANOP\nB EQU 2\n" .empty settings default
    Settings.parse "\x7b\"hlasm\":\x7b\"actr\":4294967296\x7d\x7d" = .ok settings ∧ Counted a 0 4294967296 0 a ∧
      a.attempted? = some 2 ∧ ∃ b, a.step = .ok b ∧ b.isFinished ∧ b.context.symbols.find? "B" = none := by
  intro settings a
  have hrun : a.step.toOption.any fun b => b.isFinished && (b.context.symbols.find? "B").isNone := by decide +kernel
  obtain ⟨b, hb, hrun⟩ := exists_of_any hrun
  rw [Bool.and_eq_true] at hrun
  exact ⟨by decide +kernel, .start, by decide +kernel, b, hb, hrun.1, Option.isNone_iff_eq_none.1 hrun.2⟩

end Fresh

end Assembly

end AssemblerIndex
