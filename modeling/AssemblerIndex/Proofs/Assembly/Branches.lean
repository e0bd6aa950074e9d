import AssemblerIndex.Proofs.Assembly.Labels

/-!
# Where branches land

A branch in open code goes to a label that is in the table or that a search finds.  Both agree with the
listing if a search never sees a label within a block (`Hides`): then every label outside of the blocks is
in the table once the processing or a search has passed it, and no other label ever gets there (`Mapped`).
So a branch lands on the label of that name outside of the blocks, in front of it or behind it
(`branch_lands_on_label`).
-/

namespace AssemblerIndex

/-- The statement at `k` carries the sequence symbol and lies outside of all blocks. -/
def Carries (l : List Statement) (name : String) (k : Nat) : Prop :=
  Outside l k ∧ labelAt? l k = some name

theorem exists_of_labelAt? {l : List Statement} {name : String} {k : Nat} (h : labelAt? l k = some name) :
    ∃ s, l[k]? = some s := by
  unfold labelAt? at h
  cases hs : l[k]? with
  | none => simp [hs] at h
  | some s => exact ⟨s, rfl⟩

theorem Carries.lt_length {l : List Statement} {name : String} {k : Nat} (h : Carries l name k) :
    k < l.length := by
  obtain ⟨s, hs⟩ := exists_of_labelAt? h.2
  exact (List.getElem?_eq_some_iff.1 hs).1

theorem carries_iff {l : List Statement} {name : String} {k : Nat} :
    (labelAt? l k = some name ∧ openBefore l k = 0 ∧ l[k]?.all (·.opcode ≠ "MACRO")) ↔
      Carries l name k := by
  unfold Carries
  rw [and_comm]
  refine and_congr_left fun h => ?_
  obtain ⟨s, hs⟩ := exists_of_labelAt? h
  rw [outside_iff hs, hs]
  simp

instance (l : List Statement) (name : String) (k : Nat) : Decidable (Carries l name k) :=
  decidable_of_iff _ carries_iff

/-- The labels outside of all blocks in front of `i` are in the table. -/
def Passed (t : Table SequenceSymbol) (l : List Statement) (i : Nat) : Prop :=
  ∀ k n, k < i → Carries l n k → t.find? n ≠ none

namespace Assembly

/-- A search that starts behind a statement outside of all blocks sees no label within one. -/
def Hides (l : List Statement) : Prop :=
  ∀ i k, Outside l i → Sees l 0 (i + 1) k → labelAt? l k ≠ none → Outside l k

/-- A listing hides the labels within its blocks if each `MEND` closes a block and none that closes an
outermost block is labelled. -/
theorem hides_of_closesUnlabelled {l : List Statement} (h : ClosesUnlabelled l) : Hides l := by
  intro i k ho hk hlabel
  have hsome : ∃ s, l[k]? = some s := by
    cases hs : l[k]? with
    | none => simp [labelAt?, hs] at hlabel
    | some s => exact ⟨s, rfl⟩
  obtain ⟨s, hs⟩ := hsome
  have hlt := (List.getElem?_eq_some_iff.1 hs).1
  have hik : i + 1 ≤ k := hk.1
  have htop : openBefore l (i + 1) = 0 := by
    obtain ⟨h0, hm⟩ := (outside_iff (List.getElem?_eq_getElem (by omega))).1 ho
    have hend : l[i].opcode ≠ "MEND" := fun he => by
      have := (h i (by omega) he).1
      omega
    rw [openBefore_succ (List.getElem?_eq_getElem (by omega)), h0, openBehind, if_neg hm, if_neg hend]
  have hseen : (openBefore l (k + 1) : Int) ≤ 0 := by
    have hcount := foldl_openDefinitions_eq h (i + 1) (k + 1 - (i + 1)) (by omega)
    rw [htop, show i + 1 + (k + 1 - (i + 1)) = k + 1 by omega] at hcount
    rw [← hcount, show k + 1 - (i + 1) = k - (i + 1) + 1 by omega]
    exact hk.2
  rw [openBefore_succ hs] at hseen
  have hmacro : s.opcode ≠ "MACRO" := fun he => by
    rw [openBehind, if_pos he] at hseen
    omega
  refine (outside_iff hs).2 ⟨?_, hmacro⟩
  rw [openBehind, if_neg hmacro] at hseen
  by_cases hend : s.opcode = "MEND"
  · -- it would close an outermost block, but it is labelled
    have hget : l[k] = s := (List.getElem?_eq_some_iff.1 hs).2
    obtain ⟨h1, h2⟩ := h k hlt (hget ▸ hend)
    rw [if_pos hend] at hseen
    rw [labelAt?_of_getElem? hs, ← hget, h2 (by omega)] at hlabel
    simp at hlabel
  · rw [if_neg hend] at hseen
    omega

/-- The run from `a` comes to a listing of open code, at some place of it. -/
def Opens (a : Assembly) (p : Activation) : Prop :=
  ∃ b, a.Reaches b ∧ p ∈ b.control ∧ p.definition? = none

/-- Each listing of open code has a file of its own, and it hides the labels within its blocks. -/
structure Clear (a : Assembly) : Prop where
  apart : ∀ {p q}, a.Opens p → a.Opens q → p.file = q.file → p.statements = q.statements
  hides : ∀ {p}, a.Opens p → Hides p.statements.toList

/-- The labels of a name that lie outside of all blocks stand in one file, and a search recognizes them;
letters beyond ASCII may keep it from that. -/
structure Unambiguous (a : Assembly) (name : String) : Prop where
  file : ∀ {p q k m}, a.Opens p → a.Opens q → Carries p.statements.toList name k →
    Carries q.statements.toList name m → p.file = q.file
  ascii : ∀ {p k s}, a.Opens p → Carries p.statements.toList name k →
    p.statements.toList[k]? = some s → s.hasLabel name

/-- The entry is that of a label outside of all blocks, and so are those of the labels in front of it. -/
def Entered (a : Assembly) (t : Table SequenceSymbol) (n : String) (e : SequenceSymbol) : Prop :=
  ∃ p, a.Opens p ∧ e.location.file = p.file ∧ Carries p.statements.toList n e.offset ∧
    Passed t p.statements.toList (e.offset + 1)

/-- Between two steps of the run from `a₀` the table agrees with the listings. -/
structure Mapped (a₀ a : Assembly) : Prop where
  entry : ∀ {n e}, a.openLabels.find? n = some e → a₀.Entered a.openLabels n e
  place : ∀ p ∈ a.control, p.definition? = none →
    AtTop p.statements.toList p.index ∧ Passed a.openLabels p.statements.toList p.index

/-- The table agrees with the listings, and the labels of `p` in front of `i` are in it. -/
structure Agrees (a₀ : Assembly) (p : Activation) (t : Table SequenceSymbol) (i : Nat) : Prop where
  entry : ∀ {n e}, t.find? n = some e → a₀.Entered t n e
  passed : Passed t p.statements.toList i

section Tables

variable {a₀ : Assembly} {p : Activation} {file : String} {l : List Statement} {P : Nat → Prop}
  {t t' : Table SequenceSymbol} {i : Nat}

theorem passed_of_scanned (h : Scanned file l P t t') {l' : List Statement} (hi : Passed t l' i) :
    Passed t' l' i := by
  intro k n hk hn
  obtain ⟨e, he⟩ := Option.ne_none_iff_exists'.1 (hi k n hk hn)
  rw [h.mono he]
  simp

/-- The entries of labels outside of all blocks agree with the listings if the labels in front of them are
entered as well. -/
theorem entered_of_scanned (h : Scanned p.file p.statements.toList P t t') (hp : a₀.Opens p)
    (ht : ∀ {n e}, t.find? n = some e → a₀.Entered t n e)
    (hP : ∀ k, P k → labelAt? p.statements.toList k ≠ none →
      Outside p.statements.toList k ∧ Passed t' p.statements.toList (k + 1))
    {n : String} {e : SequenceSymbol} (he : t'.find? n = some e) : a₀.Entered t' n e := by
  rcases h.origin he with he | ⟨hf, hk, hn⟩
  · obtain ⟨q, hq, hqf, hc, hpassed⟩ := ht he
    exact ⟨q, hq, hqf, hc, passed_of_scanned h hpassed⟩
  · obtain ⟨ho, hpassed⟩ := hP _ hk (by rw [hn]; simp)
    exact ⟨p, hp, hf, ⟨ho, hn⟩, hpassed⟩

/-- The label of a statement that is executed is entered. -/
theorem Agrees.note (h : Agrees a₀ p t i) (hp : a₀.Opens p)
    (hs : Scanned p.file p.statements.toList (· = i) t t') (ho : Outside p.statements.toList i) :
    Agrees a₀ p t' (i + 1) := by
  have hpassed : Passed t' p.statements.toList (i + 1) := by
    intro k n hk hn
    rcases Nat.lt_succ_iff_lt_or_eq.1 hk with hlt | heq
    · exact passed_of_scanned hs h.passed k n hlt hn
    · exact hs.all heq hn.2
  refine ⟨entered_of_scanned hs hp h.entry fun k hk _ => ?_, hpassed⟩
  subst hk
  exact ⟨ho, hpassed⟩

/-- The labels that a search passes are entered. -/
theorem Agrees.search (h : Agrees a₀ p t (i + 1)) (hp : a₀.Opens p) (hh : Hides p.statements.toList)
    (ho : Outside p.statements.toList i) {stop : Nat}
    (hs : Scanned p.file p.statements.toList (fun k => Sees p.statements.toList 0 (i + 1) k ∧ k < stop)
      t t') :
    Agrees a₀ p t' (i + 1) ∧ Passed t' p.statements.toList stop := by
  have hpassed : Passed t' p.statements.toList stop := by
    intro k n hk hn
    rcases Nat.lt_or_ge i k with hlt | hge
    · have hn' := hn.2
      unfold labelAt? at hn'
      cases hk' : p.statements.toList[k]? with
      | none => simp [hk'] at hn'
      | some s => exact hs.all ⟨⟨hlt, seenAt_of_outside hn.1 hk' hlt⟩, hk⟩ hn.2
    · exact passed_of_scanned hs h.passed k n (by omega) hn
  refine ⟨⟨entered_of_scanned hs hp h.entry fun k hk hn => ?_, passed_of_scanned hs h.passed⟩, hpassed⟩
  exact ⟨hh i k ho hk.1 hn, fun m n hm hn => hpassed m n (by omega) hn⟩

end Tables

/-! ### Landing -/

section Landing

variable {a₀ a b : Assembly} {p : Activation} {target : String} {found : Option Nat}

/-- A branch lands on a label outside of all blocks, and there the table agrees with the listing. -/
theorem Agrees.land (h : Agrees a₀ p a.openLabels (p.index + 1)) (hcl : a₀.Clear) (hp : a₀.Opens p)
    (ho : Outside p.statements.toList p.index) (hd : p.definition? = none) (ha : a.context.calls = [])
    (hb : a.target? p (Text.upper target) = (b, found)) :
    Agrees a₀ p b.openLabels (p.index + 1) ∧
      (∀ {l i}, Passed a.openLabels l i → Passed b.openLabels l i) ∧
      ∀ k, found = some k → Carries p.statements.toList (Text.upper target) k ∧
        Passed b.openLabels p.statements.toList k := by
  rcases target?_cases ha hd (Text.upper target) with ⟨e, he, hf, hr⟩ | ⟨-, stop, hs, hr⟩
  · obtain ⟨rfl, rfl⟩ := Prod.mk.inj (hb.symm.trans hr)
    refine ⟨h, id, fun k hk => ?_⟩
    obtain rfl := Option.some.inj hk
    obtain ⟨q, hq, hqf, hc, hpassed⟩ := h.entry he
    rw [hcl.apart hp hq (hf.symm.trans hqf)]
    exact ⟨hc, fun m n hm hn => hpassed m n (by omega) hn⟩
  · rw [hb] at hs hr
    obtain ⟨h1, h2⟩ := h.search hp (hcl.hides hp) ho hs
    refine ⟨h1, passed_of_scanned hs, fun k hk => ?_⟩
    dsimp only at hr
    subst hk
    cases hr with
    | found seen hk label =>
      have hn := (labelAt?_of_getElem? hk).trans (sequenceLabel?_of_hasLabel label)
      exact ⟨⟨hcl.hides hp p.index k ho seen (by rw [hn]; simp), hn⟩,
        fun m n hm hn => h2 m n (by omega) hn⟩

/-- A branch that lands nowhere is one to a name that the listing has no label of. -/
theorem Agrees.not_carries (h : Agrees a₀ p a.openLabels (p.index + 1))
    (hu : a₀.Unambiguous (Text.upper target)) (hp : a₀.Opens p) (hd : p.definition? = none)
    (ha : a.context.calls = []) (hb : a.target? p (Text.upper target) = (b, none)) (k : Nat) :
    ¬ Carries p.statements.toList (Text.upper target) k := by
  intro hk
  rcases target?_cases ha hd (Text.upper target) with ⟨e, -, -, hr⟩ | ⟨hne, stop, -, hr⟩
  · simp [hr] at hb
  · rw [hb] at hr
    have hlabel := hk.2
    unfold labelAt? at hlabel
    cases hs : p.statements.toList[k]? with
    | none => simp [hs] at hlabel
    | some s =>
      rcases Nat.lt_or_ge p.index k with hlt | hge
      · -- a search would have found the label
        cases hr with
        | failed behind without =>
          exact without k s ⟨hlt, seenAt_of_outside hk.1 hs hlt⟩ hs (hu.ascii hp hk hs)
      · -- the table holds the label
        obtain ⟨e, he⟩ := Option.ne_none_iff_exists'.1 (h.passed k _ (by omega) hk)
        obtain ⟨q, hq, hqf, hc, -⟩ := h.entry he
        exact hne e he (hqf.trans (hu.file hq hp hc hk))

end Landing

/-! ### Steps -/

section Steps

variable {j : Job} {a₀ a b y : Assembly} {p : Activation} {outer : List Activation} {s : Statement}

/-- The table agrees with the listings behind a step that changes no labels. -/
theorem Mapped.of_labels (h : Mapped a₀ a) (hl : b.openLabels = a.openLabels)
    (hc : ∀ q ∈ b.control, q.definition? = none → q ∈ a.control) : Mapped a₀ b where
  entry he := hl ▸ h.entry (hl ▸ he)
  place q hq hd := hl ▸ h.place q (hc q hq hd) hd

/-- The table agrees with the listings at a place of a listing if it does so there. -/
theorem Mapped.at_index (h : Mapped a₀ a) (hc : a.control = p :: outer)
    (entry : ∀ {n e}, y.openLabels.find? n = some e → a₀.Entered y.openLabels n e)
    (mono : ∀ {l i}, Passed a.openLabels l i → Passed y.openLabels l i) {i : Nat}
    (hi : p.definition? = none → AtTop p.statements.toList i ∧ Passed y.openLabels p.statements.toList i) :
    Mapped a₀ { y with control := { p with index := i } :: outer } := by
  refine ⟨entry, fun q hq hd => ?_⟩
  rcases List.mem_cons.1 hq with rfl | hq
  · exact hi hd
  · obtain ⟨h1, h2⟩ := h.place q (hc ▸ List.mem_cons_of_mem p hq) hd
    exact ⟨h1, mono h2⟩

/-- The table agrees with the listings behind a statement of open code, if it does so at the places where
that statement can go on. -/
theorem Mapped.proceed (h : Mapped a₀ a) (hc : a.control = p :: outer) (hp : p.definition? = none)
    (ha : Agrees a₀ p y.openLabels (p.index + 1)) (ht : AtTop p.statements.toList (p.index + 1))
    (mono : ∀ {l i}, Passed a.openLabels l i → Passed y.openLabels l i) {flow : Flow}
    (exit : flow = .exit → ∃ j, Balanced j y)
    (jump : ∀ k, flow = .jump k →
      AtTop p.statements.toList k ∧ Passed y.openLabels p.statements.toList k) :
    Mapped a₀ (y.proceed p outer flow) := by
  have next := h.at_index hc ha.entry mono fun _ => ⟨ht, ha.passed⟩
  cases flow with
  | next => exact next
  | jump k => exact h.at_index hc ha.entry mono fun _ => jump k rfl
  | enter l =>
    refine ⟨ha.entry, fun q hq hd => ?_⟩
    rcases List.mem_cons.1 hq with rfl | hq
    · exact ⟨atTop_zero _, fun k n hk => absurd hk (Nat.not_lt_zero k)⟩
    · exact next.place q hq hd
  | exit =>
    obtain ⟨j, hy⟩ := exit rfl
    have heq : y.proceed p outer .exit = y.control.foldl (fun a _ => a.leave) y := by
      unfold Assembly.proceed
      exact if_neg (by rw [hp]; simp)
    obtain ⟨-, hnil⟩ := hy.leaveAll y.control
    rw [List.drop_length] at hnil
    rw [heq]
    constructor
    · intro n e he
      rw [openLabels_leaveAll hy] at he ⊢
      exact ha.entry he
    · intro q hq
      rw [hnil] at hq
      exact absurd hq List.not_mem_nil

/-- The label of a statement of open code is entered before the statement is executed. -/
theorem scanned_prepare (h : Balanced j a) (hc : a.control = p :: outer) (hp : p.definition? = none)
    (hs : p.statement? = some s) :
    Scanned p.file p.statements.toList (· = p.index) a.openLabels
      ((a.moveTo p s).prepare p s).openLabels := by
  have hm := keeps_moveTo h hc s
  have hcalls := hm.calls_eq_nil (h.calls_eq_nil hc hp)
  have hnote := scanned_noteLabel (l := p.statements.toList) hcalls p.file (k := p.index) (s := s)
    (by rw [Array.getElem?_toList]; exact hs)
  have hmacro := (spares_macro? ((a.moveTo p s).noteLabel p.file p.index s) s.opcode).labels
  have hprepare : ((a.moveTo p s).prepare p s).openLabels =
      ((a.moveTo p s).noteLabel p.file p.index s).openLabels := by
    unfold prepare
    rw [if_neg (by rw [hp]; simp)]
    exact hmacro
  rw [hprepare]
  rwa [show (a.moveTo p s).openLabels = a.openLabels from hm.labels] at hnote

/-- When a statement of open code is executed, the labels through it are in the table. -/
theorem agrees_prepare (hm : Mapped a₀ a) (hr : a₀.Reaches a) (h : Balanced j a)
    (hc : a.control = p :: outer) (hp : p.definition? = none) (hs : p.statement? = some s)
    (hop : s.opcode ≠ "MACRO") :
    Outside p.statements.toList p.index ∧
      Agrees a₀ p ((a.moveTo p s).prepare p s).openLabels (p.index + 1) := by
  have hmem : p ∈ a.control := hc ▸ List.mem_cons_self
  obtain ⟨htop, hpassed⟩ := hm.place p hmem hp
  have ho := htop.outside (by rw [Array.getElem?_toList]; exact hs) hop
  exact ⟨ho, Agrees.note ⟨hm.entry, hpassed⟩ ⟨a, hr, hmem, hp⟩ (scanned_prepare h hc hp hs) ho⟩

/-- The body of a macro has no labels of open code. -/
theorem Mapped.step_macro (hm : Mapped a₀ a) (h : Balanced j a) (hc : a.control = p :: outer)
    (hp : p.definition?.isSome) (hb : a.step = .ok b) : Mapped a₀ b := by
  obtain ⟨c, cs, hcalls, -⟩ := h.exists_call hc hp
  have hne : a.context.calls ≠ [] := by rw [hcalls]; simp
  have onward {y : Assembly} {i : Nat} (hy : a.Stays y) (hl : b.openLabels = y.openLabels)
      (hb : b.control = { p with index := i } :: outer ∨
        ∃ q : Activation, q.definition?.isSome ∧ b.control = q :: { p with index := i } :: outer) :
      Mapped a₀ b := by
    refine hm.of_labels (hl.trans (openLabels_of_stays hy hne)) fun q hq hd => ?_
    have hpi : ({ p with index := i } : Activation).definition?.isSome := hp
    have hq : q ∈ outer := by
      rcases hb with hb | ⟨q', hq', hb⟩
      · rw [hb, List.mem_cons] at hq
        refine hq.resolve_left ?_
        rintro rfl
        simp [hd] at hpi
      · rw [hb, List.mem_cons, List.mem_cons] at hq
        refine (hq.resolve_left ?_).resolve_left ?_
        · rintro rfl
          simp [hd] at hq'
        · rintro rfl
          simp [hd] at hpi
    exact hc ▸ List.mem_cons_of_mem p hq
  cases moved_of_step h hc hb with
  | left hy _ =>
    refine hm.of_labels ((openLabels_leave (h.of_stays hy)).trans (openLabels_of_stays hy hne))
      fun q hq _ => ?_
    rw [control_leave, hy.control] at hq
    exact List.mem_of_mem_tail hq
  | ended _ inOpenCode => simp [inOpenCode] at hp
  | onward hy _ _ => exact onward hy.toStays rfl (.inl rfl)
  | jump hy _ _ => exact onward hy.toStays (openLabels_countBranch _) (.inl rfl)
  | counter hy _ => exact onward hy.toStays (openLabels_setBranchCounter ..) (.inl rfl)
  | called hy _ _ _ => exact onward hy.toStays rfl (.inr ⟨_, rfl, rfl⟩)
  | opened _ _ inOpenCode _ _ _ => simp [inOpenCode] at hp

/-- **A statement of open code keeps the table in agreement with the listings.** -/
theorem Mapped.step_openCode (hm : Mapped a₀ a) (hcl : a₀.Clear) (hr : a₀.Reaches a) (h : Balanced j a)
    (hc : a.control = p :: outer) (hp : p.definition? = none) (hb : a.step = .ok b) : Mapped a₀ b := by
  have hmem : p ∈ a.control := hc ▸ List.mem_cons_self
  have hopen : a₀.Opens p := ⟨a, hr, hmem, hp⟩
  obtain ⟨htop, hpassed⟩ := hm.place p hmem hp
  cases stepped_of_step h hc hb with
  | behind hs =>
    refine hm.of_labels (openLabels_leave h) fun q hq _ => ?_
    rw [control_leave] at hq
    exact List.mem_of_mem_tail hq
  | mend hs hs' inMacro => simp [hp] at inMacro
  | @definition s b' hs hs' hy =>
    have hl : b'.openLabels = a.openLabels := hy.labels.trans (keeps_moveTo h hc s).labels
    have hget : p.statements.toList[p.index]? = some s := by
      rw [Array.getElem?_toList]
      exact hs
    have hend : p.index + (throughMend 0 (nestedStatements p)).length =
        blockEnd p.statements.toList p.index := by
      have hnested : (nestedStatements p).map (·.statement) = p.statements.toList.drop p.index := by
        unfold nestedStatements
        rw [hp]
        dsimp only
        rw [List.map_map]
        exact List.map_id _
      rw [length_throughMend, hnested]
      rfl
    rw [hend]
    refine hm.at_index hc (fun he => hl ▸ hm.entry (hl ▸ he)) (fun hi => hl ▸ hi) fun _ =>
      ⟨htop.blockEnd hget hs', fun k n hk hn => ?_⟩
    rw [hl]
    rcases Nat.lt_or_ge k p.index with hlt | hge
    · exact hpassed k n hlt hn
    · -- the labels of the block lie within it
      have := hn.1 p.index s hget hs' hge
      omega
  | @executed s b' flow hs hop hmend run he =>
    have hget : p.statements.toList[p.index]? = some s := by
      rw [Array.getElem?_toList]
      exact hs
    obtain ⟨ho, hag⟩ := agrees_prepare hm hr h hc hp hs hop
    have hscan := scanned_prepare h hc hp hs
    have hx := holds_moveTo_prepare h hc s
    have hbal := h.of_stays hx.toStays
    have hcalls := hx.calls_eq_nil (h.calls_eq_nil hc hp)
    generalize (a.moveTo p s).prepare p s = x at hag hscan hx hbal hcalls he
    have onward {y : Assembly} {flow : Flow} (hl : y.openLabels = x.openLabels)
        (exit : flow = .exit → ∃ j, Balanced j y) (jump : ∀ k, flow ≠ .jump k) :
        Mapped a₀ (y.proceed p outer flow) := by
      refine hm.proceed hc hp (hl ▸ hag) (htop.succ hget hop) (fun hi => ?_) exit
        fun k hk => absurd hk (jump k)
      rw [hl]
      exact passed_of_scanned hscan hi
    cases he with
    | next hy => exact onward hy.labels nofun nofun
    | counter hy n _ => exact onward ((openLabels_setBranchCounter ..).trans hy.labels) nofun nofun
    | exit hy => exact onward hy.labels (fun _ => ⟨j, hbal.of_stays hy.toStays⟩) nofun
    | call hy c _ _ => exact onward hy.labels nofun nofun
    | copy hy m found _ _ _ _ =>
      have hopened := opened_of_nil (hy.sources.trans hbal.sources) m
      exact onward ((congrArg openLabels hopened).trans hy.labels) nofun nofun
    | @branch y b' flow hy target hbr _ =>
      have hl : (y.meet [Text.upper target]).openLabels = x.openLabels := hy.labels
      have hycalls : (y.meet [Text.upper target]).context.calls = [] := hy.calls_eq_nil hcalls
      have hymeet := hy.toHolds.trans (spares_meet y [Text.upper target]).toHolds
      have hyt := hymeet.trans (holds_target? (a := y.meet [Text.upper target]) (p := p)
        (fun _ => hycalls) (Text.upper target))
      unfold Assembly.branch at hbr
      dsimp only at hbr
      generalize hr' : (y.meet [Text.upper target]).target? p (Text.upper target) = r at hbr hyt
      obtain ⟨z, found⟩ := r
      obtain ⟨h1, h2, h3⟩ := Agrees.land (hl ▸ hag) hcl hopen ho hp hycalls hr'
      have mono {l i} (hi : Passed a.openLabels l i) : Passed z.openLabels l i :=
        h2 (hl ▸ passed_of_scanned hscan hi)
      cases found with
      | none =>
        obtain ⟨rfl, rfl⟩ := Prod.mk.inj hbr
        exact hm.proceed hc hp h1 (htop.succ hget hop) mono nofun nofun
      | some k =>
        have hz : (z.mapContext (·.countBranch)).openLabels = z.openLabels := openLabels_countBranch z
        dsimp only at hbr
        split at hbr
        · obtain ⟨rfl, rfl⟩ := Prod.mk.inj hbr
          exact hm.proceed hc hp (hz ▸ h1) (htop.succ hget hop) (fun hi => hz ▸ mono hi)
            (fun _ => ⟨j, hbal.of_stays (hyt.toStays.trans (stays_countBranch z))⟩) nofun
        · obtain ⟨rfl, rfl⟩ := Prod.mk.inj hbr
          refine hm.proceed hc hp (hz ▸ h1) (htop.succ hget hop) (fun hi => hz ▸ mono hi) nofun
            fun i hi => ?_
          obtain rfl := Flow.jump.inj hi
          obtain ⟨hc', hp'⟩ := h3 k rfl
          exact ⟨hc'.1.atTop, hz ▸ hp'⟩

/-- **One step keeps the table in agreement with the listings.** -/
theorem Mapped.step (hm : Mapped a₀ a) (hcl : a₀.Clear) (hr : a₀.Reaches a) (h : Balanced j a)
    (hb : a.step = .ok b) : Mapped a₀ b := by
  cases hc : a.control with
  | nil =>
    unfold Assembly.step at hb
    rw [hc] at hb
    exact Except.ok.inj hb ▸ hm
  | cons p outer =>
    cases hp : p.definition? with
    | none => exact hm.step_openCode hcl hr h hc hp hb
    | some d => exact hm.step_macro h hc (by rw [hp]; rfl) hb

/-- A statement that is executed in the state `a` is a branch to the target, and it is taken. -/
inductive TakesBranch (a : Assembly) (s : Statement) (target : String) : Prop
  | always (isAgo : a.context.operation s.opcode = "AGO") (h : a.alwaysTarget? s.operands = some target)
  | onTrue (isAif : a.context.operation s.opcode = "AIF") (h : a.trueTarget? s.operands = some target)

/-- The target of a statement that is executed in the state `x`, if it is a branch that is taken. -/
def branchTarget? (x : Assembly) (s : Statement) : Option String :=
  match x.context.operation s.opcode with
  | "AGO" => x.alwaysTarget? s.operands
  | "AIF" => x.trueTarget? s.operands
  | _ => none

theorem TakesBranch.branchTarget? {target : String} (h : TakesBranch a s target) : a.branchTarget? s = some target := by
  unfold Assembly.branchTarget?
  cases h with
  | always isAgo h =>
    rw [isAgo]
    exact h
  | onTrue isAif h =>
    rw [isAif]
    exact h

theorem process_of_branch (h : (a.prepare p s).context.operation s.opcode = "AGO" ∨
      (a.prepare p s).context.operation s.opcode = "AIF") :
    a.process p s = .ok ((a.prepare p s).follow p ((a.prepare p s).branchTarget? s)) := by
  have ago : (a.prepare p s).conditional? p s "AGO" =
      some ((a.prepare p s).follow p ((a.prepare p s).alwaysTarget? s.operands)) := rfl
  have aif : (a.prepare p s).conditional? p s "AIF" =
      some ((a.prepare p s).follow p ((a.prepare p s).trueTarget? s.operands)) := rfl
  unfold process branchTarget?
  dsimp only
  rcases h with h | h
  · rw [h, ago]
    rfl
  · rw [h, aif]
    rfl

theorem process_of_takesBranch {target : String} (h : TakesBranch (a.prepare p s) s target) :
    a.process p s = .ok ((a.prepare p s).branch p target) := by
  have hbranch : (a.prepare p s).context.operation s.opcode = "AGO" ∨
      (a.prepare p s).context.operation s.opcode = "AIF" := by
    cases h with
    | always isAgo _ => exact .inl isAgo
    | onTrue isAif _ => exact .inr isAif
  rw [process_of_branch hbranch, h.branchTarget?]
  rfl

end Steps

/-! ### Runs -/

theorem sub_one_nonneg {n : Int32} (h : 0 < n) : ¬ n - 1 < 0 := by
  have h1 := Int32.lt_iff_toInt_lt.1 h
  have h2 := n.toInt_lt
  rw [Int32.lt_iff_toInt_lt, Int32.toInt_sub, Int.bmod_eq_of_le]
  all_goals
    simp at h1 h2 ⊢
    omega

section Runs

variable {file text : String} {library : Library} {settings : Settings} {now : Moment}

/-- The listings that a run comes to are the open code and members of the library. -/
theorem Opens.cases {p : Activation} (h : (fresh file text library settings now).Opens p) :
    (p.statements = (statementsOf text.toList).toArray ∧ p.file = file) ∨
      ∃ name found, library.find? name = some found ∧
        p.statements = (statementsOf found.text.toList).toArray ∧ p.file = found.uri := by
  obtain ⟨b, hb, hp, hd⟩ := h
  have hn := hb.balanced.nested
  generalize b.context.calls.map (·.invocation.definition) = ds at hn
  generalize b.context.base.copyStack.map (·.member) = ms at hn
  generalize b.control = control at hp hn
  induction hn with
  | finished => exact absurd hp List.not_mem_nil
  | openCode i =>
    obtain rfl := List.mem_singleton.1 hp
    exact .inl ⟨rfl, rfl⟩
  | @copy outer ms m found i ne h closed find member ih =>
    rcases List.mem_cons.1 hp with rfl | hp
    · exact .inr ⟨m.name, found, find, by rw [member]; rfl, by rw [member]; rfl⟩
    · exact ih hp
  | @call outer ds ms d i ne h ih =>
    rcases List.mem_cons.1 hp with rfl | hp
    · simp [Activation.definition?] at hd
    · exact ih hp

/-- **A run keeps the table in agreement with the listings.** -/
theorem Reaches.mapped {a : Assembly} (h : (fresh file text library settings now).Reaches a)
    (hcl : (fresh file text library settings now).Clear) :
    Mapped (fresh file text library settings now) a := by
  have start : Mapped (fresh file text library settings now) (fresh file text library settings now) := by
    refine ⟨nofun, fun q hq _ => ?_⟩
    obtain rfl := List.mem_singleton.1 hq
    exact ⟨atTop_zero _, fun k n hk => absurd hk (Nat.not_lt_zero k)⟩
  exact h.inductionAlong (P := Mapped (fresh file text library settings now))
    (fun _ _ reached hm hy => hm.step hcl reached reached.balanced hy) start

/-- **A taken branch of open code lands on the statement that carries the label outside of all blocks**, in
front of it or behind it; without such a statement the listing goes on. -/
theorem branch_lands_on_label {a : Assembly} {p : Activation} {outer : List Activation} {s : Statement}
    {target : String} (clear : (fresh file text library settings now).Clear)
    (unambiguous : (fresh file text library settings now).Unambiguous (Text.upper target))
    (reached : (fresh file text library settings now).Reaches a) (hc : a.control = p :: outer)
    (inOpenCode : p.definition? = none) (hs : p.statement? = some s) (hop : s.opcode ≠ "MACRO")
    (taken : TakesBranch ((a.moveTo p s).prepare p s) s target)
    (left : 0 < a.context.scope.branchCounter) :
    ∃ b, a.step = .ok b ∧
      ((∃ k, Carries p.statements.toList (Text.upper target) k ∧
          b.control = { p with index := k } :: outer) ∨
        (∀ k, ¬ Carries p.statements.toList (Text.upper target) k) ∧
          b.control = { p with index := p.index + 1 } :: outer) := by
  have h := reached.balanced
  have hopen : (fresh file text library settings now).Opens p :=
    ⟨a, reached, hc ▸ List.mem_cons_self, inOpenCode⟩
  obtain ⟨ho, hag⟩ := agrees_prepare (reached.mapped clear) reached h hc inOpenCode hs hop
  rw [step_of_executed hc hs hop (by simp [inOpenCode]), process_of_takesBranch taken]
  have hx := (holds_moveTo_prepare h hc s).trans (spares_meet _ [Text.upper target]).toHolds
  have hcalls := hx.calls_eq_nil (h.calls_eq_nil hc inOpenCode)
  have hz := hx.trans (holds_target? (p := p) (fun _ => hcalls) (Text.upper target))
  refine ⟨_, rfl, ?_⟩
  unfold branch
  dsimp only
  generalize hr : (((a.moveTo p s).prepare p s).meet [Text.upper target]).target? p
    (Text.upper target) = r at hz
  obtain ⟨z, found⟩ := r
  have hag : Agrees (fresh file text library settings now) p
    (((a.moveTo p s).prepare p s).meet [Text.upper target]).openLabels (p.index + 1) := hag
  cases found with
  | none => exact .inr ⟨hag.not_carries unambiguous hopen inOpenCode hcalls hr, rfl⟩
  | some k =>
    obtain ⟨hk, -⟩ := (hag.land clear hopen ho inOpenCode hcalls hr).2.2 k rfl
    have hcounter : ¬ (z.mapContext (·.countBranch)).context.scope.branchCounter < 0 := by
      have hcount : (z.mapContext (·.countBranch)).context.scope.branchCounter =
          z.context.scope.branchCounter - 1 := counter_countBranch z.context
      rw [hcount, show z.context.scope.branchCounter = _ from hz.counter]
      exact sub_one_nonneg left
    dsimp only
    rw [if_neg hcounter]
    exact .inl ⟨k, hk, rfl⟩

/-- A branch over a definition in which the name of its target labels a statement as well. -/
def skippingText : String := " AGO .B\n MACRO\n FOO\n.B ANOP\n MEND\n.B ANOP"

/-- The branch in it. -/
def skippingBranch : Statement := (statementsOf skippingText.toList).headD default

theorem branch_over_definition_lands :
    ∃ b k, (fresh "S" skippingText .empty {} default).step = .ok b ∧
      Carries (statementsOf skippingText.toList) "B" k ∧ b.control.map (·.index) = [k] := by
  have listing {p : Activation} (h : (fresh "S" skippingText .empty {} default).Opens p) :
      p.statements.toList = statementsOf skippingText.toList ∧ p.file = "S" := by
    rcases h.cases with ⟨h1, h2⟩ | ⟨name, found, hf, -, -⟩
    · exact ⟨by rw [h1], h2⟩
    · exact absurd (show (none : Option LibraryMember) = some found from hf) (by simp)
  have hides {p : Activation} (h : (fresh "S" skippingText .empty {} default).Opens p) :
      Hides p.statements.toList := by
    rw [(listing h).1]
    exact hides_of_closesUnlabelled (by decide +kernel)
  have ascii {p : Activation} {k : Nat} {s : Statement}
      (h : (fresh "S" skippingText .empty {} default).Opens p)
      (hk : Carries p.statements.toList (Text.upper "B") k) (hs : p.statements.toList[k]? = some s) :
      s.hasLabel (Text.upper "B") := by
    have hall : ∀ k < (statementsOf skippingText.toList).length,
        Carries (statementsOf skippingText.toList) (Text.upper "B") k →
          (statementsOf skippingText.toList)[k]?.all (·.hasLabel (Text.upper "B")) := by decide +kernel
    rw [(listing h).1] at hk hs
    have := hall k hk.lt_length hk
    rwa [hs] at this
  obtain ⟨b, hb, ⟨k, hk, hc⟩ | ⟨hnone, -⟩⟩ := @branch_lands_on_label "S" skippingText .empty {} default
    _ _ _ skippingBranch "B"
    ⟨fun hp hq _ => Array.toList_inj.1 ((listing hp).1.trans (listing hq).1.symm), hides⟩
    ⟨fun hp hq _ _ => (listing hp).2.trans (listing hq).2.symm, ascii⟩
    (.refl (fresh "S" skippingText .empty {} default)) rfl rfl (by decide +kernel) (by decide +kernel)
    (.always (by decide +kernel) (by decide +kernel)) (by decide +kernel)
  · exact ⟨b, k, hb, hk, by rw [hc]; rfl⟩
  · exact absurd (by decide +kernel) (hnone 5)

/-- A branch to the statement that closes a definition. -/
def closingText : String := " AGO .T\n MACRO\n FOO\n.T MEND\nA EQU 1"

/-- **A search does not hide a label on the `MEND` that closes a block**: the branch lands there, although
no statement outside of the blocks has the label, and the statement behind the block is not reached. -/
theorem branch_lands_on_closing_mend :
    (∀ k, ¬ Carries (statementsOf closingText.toList) (Text.upper "T") k) ∧
      ∃ b e, (fresh "S" closingText .empty {} default).step = .ok b ∧
        b.control.map (·.index) = [3] ∧ b.step = .ok e ∧ e.isFinished ∧
        e.context.symbols.find? "A" = none := by
  constructor
  · have hall : ∀ k < (statementsOf closingText.toList).length,
        ¬ Carries (statementsOf closingText.toList) (Text.upper "T") k := by decide +kernel
    exact fun k hk => hall k hk.lt_length hk
  · have h : (fresh "S" closingText .empty {} default).step.toOption.any fun b =>
        b.control.map (·.index) == [3] && b.step.toOption.any fun e =>
          e.isFinished && (e.context.symbols.find? "A").isNone := by decide +kernel
    obtain ⟨b, hb, h⟩ := exists_of_any h
    rw [Bool.and_eq_true] at h
    obtain ⟨e, he, h'⟩ := exists_of_any h.2
    rw [Bool.and_eq_true] at h'
    exact ⟨b, e, hb, eq_of_beq h.1, he, h'.1, Option.isNone_iff_eq_none.1 h'.2⟩

end Runs

end Assembly

end AssemblerIndex
