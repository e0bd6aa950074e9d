import AssemblerIndex.Proofs.Assembly.CopyDepth
import AssemblerIndex.Proofs.Assembly.Frames
import AssemblerIndex.Proofs.Library

/-!
# Termination

As long as no statement sets the branch counter, a run comes to its end.  Three numbers count down.
Within a listing every step goes to a later statement, unless it branches; a branch lowers the counter
of the scope, which it must not take below zero; and a call or a copy enters a listing of a lower rank,
since the calls are nested to a limited depth and no copy member is opened twice.  `ends_of_listing` is
the induction on the rank of a listing, the counter of its scope and the statements left in it, and
`Balanced.ends` goes on through the listings below it.
-/

namespace AssemblerIndex.Assembly

/-! ### Ends of runs -/

/-- A run from `a` comes to a state with the property `P`, unless it faults. -/
def Ends (a : Assembly) (P : Assembly → Prop) : Prop :=
  ∃ n, (∃ e, a.run n = .error e) ∨ ∃ b, a.run n = .ok b ∧ P b

section Ends

variable {a b : Assembly} {P Q : Assembly → Prop}

theorem Ends.here (h : P a) : a.Ends P := ⟨0, .inr ⟨a, rfl, h⟩⟩

theorem Ends.of_error {e : AssemblyFault} (h : a.step = .error e) : a.Ends P := by
  refine ⟨1, .inl ⟨e, ?_⟩⟩
  rw [run_succ, h]
  rfl

theorem Ends.of_reaches (h : a.Reaches b) (hb : b.Ends P) : a.Ends P := by
  obtain ⟨m, hm⟩ := h
  obtain ⟨n, hn⟩ := hb
  have e : a.run (m + n) = b.run n := by
    rw [run_add, hm]
    rfl
  refine ⟨m + n, ?_⟩
  rw [e]
  exact hn

theorem Ends.bind (h : a.Ends P) (hb : ∀ b, a.Reaches b → P b → b.Ends Q) : a.Ends Q := by
  obtain ⟨n, ⟨e, he⟩ | ⟨b, hn, hp⟩⟩ := h
  · exact ⟨n, .inl ⟨e, he⟩⟩
  · exact .of_reaches ⟨n, hn⟩ (hb b ⟨n, hn⟩ hp)

theorem Ends.mono (h : a.Ends P) (hb : ∀ b, P b → Q b) : a.Ends Q :=
  h.bind fun b _ hp => .here (hb b hp)

/-- Behind a call the frames are those from before it. -/
theorem Ends.of_above {j : Job} {x : Assembly} {below : List Activation} (h : Above x below a)
    (hb : Balanced j a) (he : a.Ends fun b => b.control.length ≤ below.length) :
    a.Ends fun b => b.control = below ∧ SameFrames x b := by
  obtain ⟨n, ⟨e, he⟩ | ⟨b, hn, hc⟩⟩ := he
  · exact ⟨n, .inl ⟨e, he⟩⟩
  · rcases h.run hb hn with ⟨hab, -⟩ | ⟨k, w, -, hw, -, hcontrol, hf, -⟩
    · exact absurd hab.length_lt (Nat.not_lt.2 hc)
    · exact ⟨k, .inr ⟨w, hw, hcontrol, hf⟩⟩

end Ends

/-! ### What counts down -/

/-- The number of branches that a counter allows.  The least word allows them all, since one less is the
greatest word. -/
def branchesLeft (n : Int32) : Nat := ((n - 1).toInt + 1).toNat

theorem branchesLeft_sub_one {n : Int32} (h : ¬ n - 1 < 0) : branchesLeft (n - 1) + 1 = branchesLeft n := by
  have h0 : 0 ≤ (n - 1).toInt := by
    have := Int32.le_iff_toInt_le.1 (Int32.not_lt.1 h)
    simpa using this
  unfold branchesLeft
  generalize n - 1 = m at h0 ⊢
  have hm : (m - 1).toInt = m.toInt - 1 := by
    have h1 := m.toInt_lt
    rw [Int32.toInt_sub]
    refine Int.bmod_eq_of_le ?_ ?_ <;> simp <;> omega
  omega

/-- How many further listings can be entered: the calls that may still be nested, and the copy members
with names in `names` that are not open. -/
def rank (names : Finset String) (maxNesting : Nat) (control : List Activation) : Nat :=
  (maxNesting - callsIn control) + (names.filter (· ∉ membersIn control)).card

theorem rank_at_index (names : Finset String) (n i : Nat) (p : Activation) (outer : List Activation) :
    rank names n ({ p with index := i } :: outer) = rank names n (p :: outer) := rfl

section Entering

variable {j : Job} {a : Assembly} {p : Activation} {outer : List Activation}

/-- A call enters a listing of a lower rank. -/
theorem rank_called_lt (names : Finset String) (hb : Balanced j a) (hc : a.control = p :: outer)
    (depth : a.context.depth ≤ j.settings.maxNesting.toNat) (d : MacroDefinition) :
    rank names j.settings.maxNesting.toNat
        ({ listing := .macroBody d } :: { p with index := p.index + 1 } :: outer) <
      rank names j.settings.maxNesting.toNat a.control := by
  have hl := hb.nested.length_eq.1
  rw [List.length_map] at hl
  have h1 : callsIn ({ listing := .macroBody d } :: { p with index := p.index + 1 } :: outer) =
      callsIn a.control + 1 := by
    rw [hc]
    exact List.countP_cons_of_pos rfl
  have h2 : membersIn ({ listing := .macroBody d } :: { p with index := p.index + 1 } :: outer) =
      membersIn a.control := by
    rw [hc]
    rfl
  unfold Context.depth at depth
  unfold rank
  rw [h1, h2]
  omega

/-- A copy enters a listing of a lower rank. -/
theorem rank_opened_lt {names : Finset String} (hb : Balanced j a) (hc : a.control = p :: outer) {m : CopyMember}
    (hm : m.name ∈ names) (closed : m.name ∉ a.context.openCopyMembers) :
    rank names j.settings.maxNesting.toNat
        ({ listing := .copyMember m } :: { p with index := p.index + 1 } :: outer) <
      rank names j.settings.maxNesting.toNat a.control := by
  have h1 : callsIn ({ listing := .copyMember m } :: { p with index := p.index + 1 } :: outer) =
      callsIn a.control := by
    rw [hc]
    rfl
  have h2 : membersIn ({ listing := .copyMember m } :: { p with index := p.index + 1 } :: outer) =
      m.name :: membersIn a.control := by
    rw [hc]
    rfl
  rw [hb.openCopyMembers, List.mem_reverse] at closed
  have := card_filter_lt hm closed
  unfold rank
  rw [h1, h2]
  omega

/-- Behind the entry of a call the processing is within it. -/
theorem above_called (a : Assembly) (p : Activation) (outer : List Activation) (c : Call) :
    Above a ({ p with index := p.index + 1 } :: outer)
      ((a.called c).proceed p outer (.enter (.macroBody c.invocation.definition))) :=
  ⟨⟨[{ listing := .macroBody c.invocation.definition }], rfl, by simp, by simp [Activation.definition?],
    [c], rfl, rfl⟩, rfl, rfl, rfl, rfl⟩

theorem scope_opened (h : a.context.sources = []) (m : CopyMember) (p : Activation)
    (outer : List Activation) (l : Listing) :
    ((a.opened m).proceed p outer (.enter l)).context.scope = a.context.scope := by
  rw [opened_of_nil h]
  rfl

end Entering

/-! ### The induction -/

/-- The statement that is processed next is one of those left. -/
theorem index_lt_size {p : Activation} (h : p.statement? ≠ none) : p.index < p.statements.size := by
  by_contra hge
  exact h (Array.getElem?_eq_none (by omega))

/-- The listing has been left, or the whole run is over; a listing of open code leaves no more branches
than there were. -/
def Left (z : Assembly) (q : Activation) (outer : List Activation) (w : Assembly) : Prop :=
  w.isFinished ∨ w.control = outer ∧ (q.definition? = none →
    branchesLeft w.context.scope.branchCounter ≤ branchesLeft z.context.scope.branchCounter)

theorem Left.of_le {z z' w : Assembly} {q : Activation} {outer : List Activation} {i : Nat}
    (h : Left z' { q with index := i } outer w)
    (hle : branchesLeft z'.context.scope.branchCounter ≤ branchesLeft z.context.scope.branchCounter) :
    Left z q outer w := by
  rcases h with hf | ⟨hc, hw⟩
  · exact .inl hf
  · exact .inr ⟨hc, fun hq => (hw hq).trans hle⟩

/-- **The processing of a listing comes to its end**, or the whole run does, if no statement sets the
branch counter.  The induction is on the rank, then on the branches left, then on the statements left. -/
theorem ends_of_listing {j : Job} {names : Finset String}
    (finite : ∀ n f, j.library.find? n = some f → n ∈ names) (k m r : Nat) :
    ∀ {z : Assembly} {q : Activation} {outer : List Activation}, Balanced j z →
      z.control = q :: outer → (∀ y, z.Reaches y → y.executed? ≠ some "ACTR") →
      rank names j.settings.maxNesting.toNat z.control < k →
      branchesLeft z.context.scope.branchCounter < m →
      q.statements.size - q.index < r → z.Ends (Left z q outer) := by
  induction k generalizing m r with
  | zero => exact fun _ _ _ h => absurd h (Nat.not_lt_zero _)
  | succ k ihk =>
    induction m generalizing r with
    | zero => exact fun _ _ _ _ h => absurd h (Nat.not_lt_zero _)
    | succ m ihm =>
      induction r with
      | zero => exact fun _ _ _ _ _ h => absurd h (Nat.not_lt_zero _)
      | succ r ihr =>
        intro z q outer hb hc hz hk hm hr
        -- the listing goes on with a later statement, and no more branches are left than before
        have later {w : Assembly} {i : Nat} (hw : z.Reaches w)
            (hcw : w.control = { q with index := i } :: outer) (hi : q.index < i)
            (inside : q.statement? ≠ none)
            (hle : branchesLeft w.context.scope.branchCounter ≤
              branchesLeft z.context.scope.branchCounter) : w.Ends (Left z q outer) := by
          have hsize : ({ q with index := i } : Activation).statements.size - i < r := by
            have := index_lt_size inside
            change q.statements.size - i < r
            omega
          have hbw := hw.induction (fun _ _ hx hy => Balanced.step hx hy) hb
          have hkw : rank names j.settings.maxNesting.toNat w.control < k + 1 := by
            rw [hcw, rank_at_index, ← hc]
            exact hk
          exact (ihr hbw hcw (fun y hy => hz y (hw.trans hy)) hkw (by omega) hsize).mono
            fun _ h => h.of_le hle
        cases hstep : z.step with
        | error e => exact .of_error hstep
        | ok z' =>
          have hreach := reaches_of_step hstep
          have hz' (y : Assembly) (hy : z'.Reaches y) := hz y (hreach.trans hy)
          have hb' := hb.step hstep
          refine .of_reaches hreach ?_
          cases moved_of_step hb hc hstep with
          | @left y hy atEnd =>
            refine .here (.inr ⟨?_, fun hq => ?_⟩)
            · rw [control_leave, hy.control, hc]
              rfl
            · rcases atEnd with hmacro | ⟨rfl, -⟩
              · rw [hq] at hmacro
                simp at hmacro
              · rw [leave_of_openCode hb hc hq]
                exact Nat.le_refl _
          | @ended y hy _ =>
            have := ((hb.of_stays hy).leaveAll y.control).2
            rw [List.drop_length] at this
            exact .here (.inl (List.isEmpty_iff.2 this))
          | @onward y i hy inside hi =>
            exact later hreach rfl hi inside (Nat.le_of_eq (congrArg _ hy.counter))
          | @jump y i hy inside counted =>
            have hlt : branchesLeft y.context.countBranch.scope.branchCounter <
                branchesLeft z.context.scope.branchCounter := by
              have counted : ¬ y.context.countBranch.scope.branchCounter < 0 := counted
              rw [counter_countBranch, hy.counter] at counted ⊢
              exact Nat.lt_of_succ_le (Nat.le_of_eq (branchesLeft_sub_one counted))
            have hkw : rank names j.settings.maxNesting.toNat ({ q with index := i } :: outer) < k + 1 := by
              rw [rank_at_index, ← hc]
              exact hk
            exact (ihm _ hb' rfl hz' hkw (Nat.lt_of_lt_of_le hlt (Nat.le_of_lt_succ hm))
              (Nat.lt_succ_self _)).mono fun _ h => h.of_le (Nat.le_of_lt hlt)
          | counter _ isCounter => exact absurd isCounter (hz z (.refl z))
          | @called y c hy inside depth limit =>
            have hrank := rank_called_lt names hb hc depth c.invocation.definition
            have he := ihk _ _ hb' rfl hz' (Nat.lt_of_lt_of_le hrank (Nat.le_of_lt_succ hk))
              (Nat.lt_succ_self _) (Nat.lt_succ_self _)
            refine (Ends.of_above (above_called y q outer c) hb' (he.mono ?_)).bind ?_
            · rintro w (hf | ⟨hcw, -⟩)
              · rw [List.isEmpty_iff.1 hf]
                exact Nat.zero_le _
              · rw [hcw]
            · intro w hw ⟨hcw, hf⟩
              refine later (hreach.trans hw) hcw (Nat.lt_succ_self _) inside ?_
              rw [hf.scope, hy.counter]
          | @opened y m' found hy inside inOpenCode closed find member =>
            have hrank := rank_opened_lt hb hc (finite _ _ find) closed
            have he := ihk _ _ hb' rfl hz' (Nat.lt_of_lt_of_le hrank (Nat.le_of_lt_succ hk))
              (Nat.lt_succ_self _) (Nat.lt_succ_self _)
            refine he.bind ?_
            rintro w hw (hf | ⟨hcw, hle⟩)
            · exact .here (.inl hf)
            · refine later (hreach.trans hw) hcw (Nat.lt_succ_self _) inside ((hle rfl).trans ?_)
              rw [scope_opened (hy.sources.trans hb.sources), hy.counter]

/-- **A run from any point comes to its end** if no statement sets the branch counter from there on: one
listing after the other is left. -/
theorem Balanced.ends {j : Job} {names : Finset String}
    (finite : ∀ n f, j.library.find? n = some f → n ∈ names) {a : Assembly} (hb : Balanced j a)
    (noCounter : ∀ y, a.Reaches y → y.executed? ≠ some "ACTR") : a.Ends (·.isFinished) := by
  induction hc : a.control generalizing a with
  | nil => exact .here (List.isEmpty_iff.2 hc)
  | cons q outer ih =>
    refine (ends_of_listing finite _ _ _ hb hc noCounter (Nat.lt_succ_self _) (Nat.lt_succ_self _)
      (Nat.lt_succ_self _)).bind ?_
    rintro w hw (hf | ⟨hcw, -⟩)
    · exact .here hf
    · exact ih (hb.reaches hw) (fun y hy => noCounter y (hw.trans hy)) hcw

/-- **Every assembly terminates** in which no statement sets the branch counter: for any text, any library
in memory and any settings that can be used, the run comes to its end.  At every step the scopes are not
nested more deeply than the settings allow, no copy member is open twice, and no definition is read short
of a copy member. -/
theorem run_ends_within_bounds (json : String) (settings : Settings)
    (usable : Settings.parse json = .ok settings) (file text : String)
    (members : List (String × LibraryMember)) (now : Moment)
    (noCounter : ∀ a, (fresh file text (.ofMembers members) settings now).Reaches a →
      a.executed? ≠ some "ACTR") :
    (fresh file text (.ofMembers members) settings now).Ends (·.isFinished) ∧
      ∀ a, (fresh file text (.ofMembers members) settings now).Reaches a →
        (a.context.depth : Int) ≤ settings.maxNesting + 1 ∧ a.context.openCopyMembers.Nodup ∧
        ∀ b, a.Stays b → ∀ depth ≥ b.copyDepth, ∀ opening prototype rest,
          b.readTo depth opening prototype rest = b.read opening prototype rest := by
  refine ⟨?_, fun a ha => ?_⟩
  · obtain ⟨names, finite⟩ := Library.exists_names members
    exact (balanced_fresh file text (.ofMembers members) settings now).ends finite noCounter
  · have hb := ha.balanced
    refine ⟨?_, ?_, fun b hab depth hd opening prototype rest => ?_⟩
    · have hdepth : a.context.calls.length ≤ settings.maxNesting.toNat := hb.depth
      have := (Settings.isUsable_of_parse usable).1
      unfold Context.depth
      omega
    · rw [openCopyMembers_of_nil hb.sources, List.map_reverse, List.nodup_reverse]
      have := hb.nested.nodup
      rwa [List.map_map] at this
    · exact readTo_eq (hab.sound hb.sound) hd opening prototype rest

/-- The assembly of an open code that copies a member, which copies itself. -/
def cyclicCopy : Assembly :=
  fresh "S" " COPY M\n" (.ofMembers [("M", ⟨"m", " COPY M\n"⟩)]) {} default

theorem run_ends_of_cyclic_copy :
    Settings.parse "\x7b\x7d" = .ok {} ∧ (∀ a, cyclicCopy.Reaches a → a.executed? ≠ some "ACTR") ∧
      cyclicCopy.Ends (·.isFinished) := by
  have usable : Settings.parse "\x7b\x7d" = .ok {} := by decide +kernel
  have first : (List.range 5).all fun n => (cyclicCopy.run n).toOption.any fun a =>
      decide (a.executed? ≠ some "ACTR") := by decide +kernel
  have last : (cyclicCopy.run 4).toOption.any isFinished := by decide +kernel
  have noCounter : ∀ a, cyclicCopy.Reaches a → a.executed? ≠ some "ACTR" := fun a ha => by
    simpa using all_of_reaches first last ha
  exact ⟨usable, noCounter, (run_ends_within_bounds _ _ usable _ _ _ _ noCounter).1⟩

end AssemblerIndex.Assembly
