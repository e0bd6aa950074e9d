import AssemblerIndex.Proofs.Assembly.CopySite

/-!
# Copying is inserting

The open code with a copy statement is assembled side by side with the one that has the statements of the
member in its place.  Most steps are taken together; only the copy statement, and leaving the member at its
end, are steps of the one side alone (`step_of_related`).  So both come to the same results
(`copying_is_inserting`).
-/

namespace AssemblerIndex

open Assembly

/-- The statement, which is next in the listing of `p`, resolves to the operation, as it is written or with
its variable symbols replaced. -/
def Assembly.Resolves (a : Assembly) (p : Activation) (s : Statement) (opcode : String) : Prop :=
  let x := ((a.moveTo p s).prepare p s).context
  x.operation s.opcode = opcode ∨ x.operation (s.substituted x).opcode = opcode

instance (a : Assembly) (p : Activation) (s : Statement) (opcode : String) :
    Decidable (a.Resolves p s opcode) := inferInstanceAs (Decidable (_ ∨ _))

namespace CopySite

variable (S : CopySite)

/-- The copy statement stands outside of definitions and names the member, which has no labels, no
definitions, no branches and no copy statements; and `COPY` is not redefined. -/
structure Proper : Prop where
  isCopy : S.copy.opcode = "COPY"
  unlabelled : S.copy.sequenceLabel? = none
  literal : ∀ x, S.copy.substituted x = S.copy
  operand : ∃ o rest, S.copy.operands = o :: rest ∧ o.text ≠ [] ∧
    String.ofList (Text.upperChars o.text) = S.name
  find : S.library.find? S.name = some S.found
  outside : Outside S.copying S.before.length
  plain : ∀ s ∈ S.body, s.IsPlain
  original : ∀ a, (S.assembling S.copying).Reaches a → a.context.operation "COPY" = "COPY"
  steady : ∀ a p outer s, (S.assembling S.copying).Reaches a → a.control = p :: outer →
    p.listing = .copyMember S.member → p.statement? = some s →
    ∀ opcode ∈ ["AGO", "AIF", "COPY"], ¬ a.Resolves p s opcode

/-- No other member of the library that can be copied has the file of the open code, so labels of this file
are labels of the open code. -/
def Apart : Prop :=
  ∀ n f, Text.upper n = n → S.library.find? n = some f → n ≠ S.name → f.uri ≠ S.file

/-! ### Steps -/

theorem Proper.isPlain_copy {S : CopySite} (hS : S.Proper) : S.copy.IsPlain where
  unlabelled := hS.unlabelled
  notMacro := by
    rw [hS.isCopy]
    decide
  notMend := by
    rw [hS.isCopy]
    decide

section Steps

variable {S} {a b : Assembly} {p q : Activation} {outer outer' : List Activation} {s : Statement} {i k : Nat}

theorem statement?_openCode (l : List Statement) (file : String) (i : Nat) :
    Activation.statement? ⟨.openCode l.toArray file, i⟩ = l[i]? :=
  List.getElem?_toArray ..

theorem statement?_member (S : CopySite) (k : Nat) :
    Activation.statement? ⟨.copyMember S.member, k⟩ = S.body[k]? :=
  List.getElem?_toArray ..

/-- A statement of the member leaves the sides related, wherever it stands on the right. -/
theorem executed_of_member (hS : S.Proper) (hr : (S.assembling S.copying).Reaches a)
    (h : S.pairing.Related a b) (ha : Balanced (S.job S.copying) a) (hb : Balanced (S.job S.inlined) b)
    (ca : a.control = ⟨.copyMember S.member, k⟩ :: outer) (cb : b.control = q :: outer')
    (hq : q.definition? = none) (hs : S.body[k]? = some s)
    (next : S.Along (⟨.copyMember S.member, k + 1⟩ :: outer) ({ q with index := q.index + 1 } :: outer')) :
    SameOutcome (fun u v => S.pairing.Related (u.1.proceed ⟨.copyMember S.member, k⟩ outer u.2)
        (v.1.proceed q outer' v.2))
      ((a.moveTo ⟨.copyMember S.member, k⟩ s).process ⟨.copyMember S.member, k⟩ s)
      ((b.moveTo q s).process q s) := by
  generalize hp : (⟨.copyMember S.member, k⟩ : Activation) = p at ca
  have hpd : p.definition? = none := hp ▸ rfl
  have hsteady := hS.steady a p outer s hr ca (hp ▸ rfl) (hp ▸ (statement?_member S k).trans hs)
  have hplain := hS.plain s (List.mem_of_getElem? hs)
  have hka := keeps_moveTo ha ca s
  have hkb := keeps_moveTo hb cb s
  have calls := hka.calls_eq_nil (ha.calls_eq_nil ca hpd)
  have calls' := hkb.calls_eq_nil (hb.calls_eq_nil cb hq)
  have ago := not_or.1 (hsteady "AGO" (by simp))
  have aif := not_or.1 (hsteady "AIF" (by simp))
  have copy := not_or.1 (hsteady "COPY" (by simp))
  have hl : Relabelled S.relabel ((a.moveTo p s).prepare p s).openLabels
      ((b.moveTo q s).prepare q s).openLabels := by
    rw [openLabels_prepare hpd, openLabels_prepare hq, noteLabel_of_unlabelled hplain.unlabelled,
      noteLabel_of_unlabelled hplain.unlabelled]
    exact h.labels_moveTo ha hb ca cb s
  have turn : SameOutcome (alikeness.Turn S.relabel id) _ _ :=
    Congruence.turn_of_steady (Congruence.moveTo h.rel ha hb ca cb (.inl ⟨hpd, hq⟩) s) (fixes_alikeness s) hpd hq
      calls calls' (hka.sources.trans ha.sources) (hkb.sources.trans hb.sources) hl ⟨ago.1, aif.1⟩ (.inl copy.2)
  apply Pairing.Related.executed_of_openCode ha hb ca cb hpd hq turn (hp ▸ next)
  · intro x i hx
    have hx := executed_of_process (fun _ => calls) (hka.sound ha.sound) hx
    exact absurd rfl (ne_jump_of_executed hx ⟨ago.1, aif.1⟩ i)
  · intro x m hx
    exact absurd (copy_of_process (hka.sound ha.sound) (fun _ => calls) hx).1 copy.2

/-- A step at a place of the open code other than the copy statement. -/
theorem step_of_place (hS : S.Proper) (h : S.pairing.Related a b) (ha : Balanced (S.job S.copying) a)
    (hb : Balanced (S.job S.inlined) b) (hi : i ≠ S.before.length)
    (ca : a.control = [⟨.openCode S.copying.toArray S.file, i⟩])
    (cb : b.control = [⟨.openCode S.inlined.toArray S.file, S.shift i⟩]) :
    SameOutcome S.pairing.Related a.step b.step := by
  have hs : Activation.statement? ⟨.openCode S.inlined.toArray S.file, S.shift i⟩ =
      Activation.statement? ⟨.openCode S.copying.toArray S.file, i⟩ := by
    rw [statement?_openCode, statement?_openCode, getElem?_copying hi]
  cases hp : Activation.statement? ⟨.openCode S.copying.toArray S.file, i⟩ with
  | none =>
    rw [Assembly.step_of_none ca hp, Assembly.step_of_none cb (hs.trans hp)]
    exact .ok (h.leave_of_openCode ha hb ca cb rfl rfl .finished)
  | some s =>
    have next : S.Beside [⟨.openCode S.copying.toArray S.file, i + 1⟩]
        [⟨.openCode S.inlined.toArray S.file, S.shift i + 1⟩] := by
      rw [← shift_succ hi]
      exact .openCode (i + 1)
    refine h.step_of_statement ha hb ca cb hp (hs.trans hp) (.inl ⟨rfl, rfl⟩) (fun hop => ?_) nofun ?_
    · rw [statement?_openCode] at hp
      obtain ⟨items, h1, h2, h3⟩ := throughMend_shift hS.outside hp hop hi
      have h1 : throughMend 0 (nestedStatements ⟨.openCode S.copying.toArray S.file, i⟩) = items := h1
      have h2 : throughMend 0 (nestedStatements ⟨.openCode S.inlined.toArray S.file, S.shift i⟩) = items := h2
      rw [h1, h2]
      refine ⟨List.forall₂_same.2 fun _ _ => rfl, ?_⟩
      dsimp only
      rw [← h3]
      exact .beside (.openCode (i + items.length))
    · have hm : Matching S.shift S.file ⟨.openCode S.copying.toArray S.file, i⟩
          ⟨.openCode S.inlined.toArray S.file, S.shift i⟩ :=
        ⟨rfl, rfl, rfl, rfl, rfl, facing hS.isPlain_copy hS.plain hi⟩
      have hopen : SameOpen a b := Beside.sameOpen (S := S) (by rw [ca, cb]; exact .openCode i) ha hb
      exact h.executed_of_matching (fixes_alikeness s) ha hb ca cb S.moves_shift hm hopen (.beside next)
        (fun k => .beside (.openCode k)) fun m capital => .beside (.copy m 0 capital next)

/-- A step in a copy member that is open on both sides. -/
theorem step_of_copy (hS : S.Proper) (hapart : S.Apart) (hr : (S.assembling S.copying).Reaches a)
    (h : S.pairing.Related a b) (ha : Balanced (S.job S.copying) a) (hb : Balanced (S.job S.inlined) b)
    {m : CopyMember} (ca : a.control = ⟨.copyMember m, i⟩ :: outer)
    (cb : b.control = ⟨.copyMember m, i⟩ :: outer') (capital : Text.upper m.name = m.name)
    (ho : S.Beside outer outer') : SameOutcome S.pairing.Related a.step b.step := by
  obtain ⟨found, hfind, hm⟩ := ha.nested.exists_found (m := m) (i := i) (ca ▸ List.mem_cons_self)
  have hfind : S.library.find? m.name = some found := hfind
  by_cases hname : m.name = S.name
  · -- the member of the site may have any file, since its statements neither label nor branch
    have hmember : m = S.member := by
      rw [hname, hS.find] at hfind
      rw [hm, hname, ← Option.some.inj hfind]
      rfl
    subst hmember
    cases hp : Activation.statement? ⟨.copyMember S.member, i⟩ with
    | none =>
      rw [Assembly.step_of_none ca hp, Assembly.step_of_none cb hp]
      exact .ok (h.leave_of_openCode ha hb ca cb rfl rfl (.beside ho))
    | some s =>
      refine h.step_of_statement ha hb ca cb hp hp (.inl ⟨rfl, rfl⟩)
        (fun _ => ⟨List.forall₂_same.2 fun _ _ => rfl, .beside (.copy _ _ capital ho)⟩) nofun ?_
      rw [statement?_member] at hp
      exact executed_of_member hS hr h ha hb ca cb rfl hp (.beside (.copy _ _ capital ho))
  · -- labels of another file are left where they are
    have hfile : m.location.file ≠ S.file := by
      rw [hm]
      exact hapart _ _ capital hfind hname
    have hopen : SameOpen a b := Beside.sameOpen (S := S) (by rw [ca, cb]; exact .copy m i capital ho) ha hb
    exact h.step_of_listing (f := id) ha hb ca cb rfl rfl rfl (fun _ => rfl) (fun _ => rfl) (fun _ _ => rfl)
      (S.moves_id hfile) hopen (fun s _ => fixes_alikeness s) (fun k => .beside (.copy m k capital ho))
      (fun m' capital' => .beside (.copy m' 0 capital' (.copy m (i + 1) capital ho))) (.beside ho)

/-- A step on a statement of the member, which is inserted on the right. -/
theorem step_of_inserted (hS : S.Proper) (hr : (S.assembling S.copying).Reaches a)
    (h : S.pairing.Related a b) (ha : Balanced (S.job S.copying) a) (hb : Balanced (S.job S.inlined) b)
    (hk : k < S.body.length)
    (ca : a.control = [⟨.copyMember S.member, k⟩,
      ⟨.openCode S.copying.toArray S.file, S.before.length + 1⟩])
    (cb : b.control = [⟨.openCode S.inlined.toArray S.file, S.before.length + k⟩]) :
    SameOutcome S.pairing.Related a.step b.step := by
  have hs : S.body[k]? = some S.body[k] := List.getElem?_eq_getElem hk
  generalize S.body[k] = s at hs
  have hplain := hS.plain s (List.mem_of_getElem? hs)
  have hp : Activation.statement? ⟨.copyMember S.member, k⟩ = some s := by
    rw [statement?_member, hs]
  have hq : Activation.statement? ⟨.openCode S.inlined.toArray S.file, S.before.length + k⟩ = some s := by
    rw [statement?_openCode, getElem?_body hk, hs]
  exact h.step_of_statement ha hb ca cb hp hq (.inl ⟨rfl, rfl⟩) (fun hop => absurd hop hplain.notMacro) nofun
    (executed_of_member hS hr h ha hb ca cb rfl hs (.inserted (k + 1) hk))

/-- At its end the member is left on the left side alone. -/
theorem step_of_end (h : S.pairing.Related a b) (ha : Balanced (S.job S.copying) a)
    (ca : a.control = [⟨.copyMember S.member, S.body.length⟩,
      ⟨.openCode S.copying.toArray S.file, S.before.length + 1⟩])
    (cb : b.control = [⟨.openCode S.inlined.toArray S.file, S.before.length + S.body.length⟩]) :
    ∃ a', a.step = .ok a' ∧ S.pairing.Related a' b ∧
      a'.control = [⟨.openCode S.copying.toArray S.file, S.before.length + 1⟩] := by
  have hp : Activation.statement? ⟨.copyMember S.member, S.body.length⟩ = none := by
    rw [statement?_member]
    exact List.getElem?_eq_none (Nat.le_refl _)
  have hc : a.leave.control = [⟨.openCode S.copying.toArray S.file, S.before.length + 1⟩] := by
    rw [control_leave, ca]
    rfl
  refine ⟨a.leave, Assembly.step_of_none ca hp, ⟨⟨?_, ha.leave.sound, h.rel.right⟩, ?_, ?_⟩, hc⟩
  · rw [core_leave_of_openCode ha ca rfl]
    exact h.rel.core
  · rw [openLabels_leave ha]
    exact h.labels
  · rw [hc, cb]
    have hshift : S.shift (S.before.length + 1) = S.before.length + S.body.length :=
      shift_of_lt (Nat.lt_succ_self _)
    rw [← hshift]
    exact .beside (.openCode (S.before.length + 1))

/-- Looking for a macro of the name of an instruction loads nothing. -/
theorem core_macro?_of_instruction {opcode : String} (hop : a.context.operation opcode = opcode)
    (hk : (instructionKind? opcode).isSome) : (a.macro? opcode).1.core = a.core := by
  unfold macro?
  split
  · rfl
  · have hop' : (a.meet [opcode]).context.operation opcode = opcode := hop
    dsimp only
    rw [hop', if_pos hk]
    split
    · exact core_meet ..
    · split <;> exact core_meet ..

/-- The copy statement changes nothing but what is open: `x` is the state in which the member is opened. -/
theorem Proper.process_copy (hS : S.Proper) (hr : (S.assembling S.copying).Reaches a)
    (ha : Balanced (S.job S.copying) a) (ca : a.control = [⟨.openCode S.copying.toArray S.file, i⟩]) :
    ∃ x, a.Stays x ∧ x.core = a.core ∧ x.openLabels = a.openLabels ∧
      (a.moveTo ⟨.openCode S.copying.toArray S.file, i⟩ S.copy).process
        ⟨.openCode S.copying.toArray S.file, i⟩ S.copy =
          .ok (x.opened S.member, .enter (.copyMember S.member)) := by
  generalize hp : (⟨.openCode S.copying.toArray S.file, i⟩ : Activation) = p at ca
  have hd : p.definition? = none := hp ▸ rfl
  have hk := keeps_moveTo ha ca S.copy
  have calls := hk.calls_eq_nil (ha.calls_eq_nil ca hd)
  have hprep := holds_prepare (p := p) (fun _ => calls) S.copy
  have hkc : (a.moveTo p S.copy).core = a.core := core_moveTo_of_openCode ha.sources hd S.copy
  have hop : (a.moveTo p S.copy).context.operation "COPY" = "COPY" :=
    (congrArg (·.context.operation "COPY") hkc).trans (hS.original a hr)
  have hxc : ((a.moveTo p S.copy).prepare p S.copy).core = a.core := by
    unfold prepare
    rw [if_neg (by rw [hd]; simp), core_meet, core_noteStatement, noteLabel_of_unlabelled hS.unlabelled,
      hS.isCopy, core_macro?_of_instruction hop (by decide +kernel)]
    exact hkc
  have hxl : ((a.moveTo p S.copy).prepare p S.copy).openLabels = a.openLabels := by
    rw [openLabels_prepare hd, noteLabel_of_unlabelled hS.unlabelled]
    exact hk.labels
  have hxs := hk.toStays.trans hprep.toStays
  have hxop : ((a.moveTo p S.copy).prepare p S.copy).context.operation "COPY" = "COPY" :=
    (congrArg (·.context.operation "COPY") hxc).trans (hS.original a hr)
  unfold process
  dsimp only
  rw [hS.isCopy, hS.literal]
  generalize (a.moveTo p S.copy).prepare p S.copy = x at hxc hxl hxs hxop ⊢
  have hm := spares_meet x ["COPY"]
  have hms := hxs.trans hm.toStays
  obtain ⟨o, rest, ho, hne, hname⟩ := hS.operand
  have hopen : (x.meet ["COPY"]).context.openCopyMembers = [] := by
    rw [openCopyMembers_of_stays hms, ha.openCopyMembers, ca, ← hp]
    rfl
  have hmember : (x.meet ["COPY"]).closedMember? S.name = some S.found := by
    have hl : (x.meet ["COPY"]).library = S.library := hms.library.trans ha.library
    unfold closedMember?
    rw [hl, hS.find, hopen]
    rfl
  have hcopy := copy_eq (hms.sound ha.sound) ho hne hname
  rw [hmember] at hcopy
  have hload := spares_copyMember? (x.meet ["COPY"]) S.name
  refine ⟨_, hms.trans hload.toStays, ?_, ?_, ?_⟩
  · exact (core_copyMember? ..).trans hxc
  · exact hload.labels.trans hxl
  · have hconditional : x.conditional? p S.copy "COPY" = none := rfl
    have hsubstituted : x.processSubstituted p S.copy = .ok ((x.meet ["COPY"]).copy S.copy) := by
      have hxop' : (x.meet ["COPY"]).context.operation "COPY" = "COPY" := hxop
      unfold processSubstituted
      rw [hS.isCopy]
      dsimp only
      rw [hxop', hd]
      rfl
    rw [hxop, hconditional, hsubstituted, hcopy]
    rfl

/-- The copy statement is a step of the left side alone. -/
theorem step_of_copyStatement (hS : S.Proper) (hr : (S.assembling S.copying).Reaches a)
    (h : S.pairing.Related a b) (ha : Balanced (S.job S.copying) a)
    (ca : a.control = [⟨.openCode S.copying.toArray S.file, S.before.length⟩])
    (cb : b.control = [⟨.openCode S.inlined.toArray S.file, S.before.length⟩]) :
    ∃ a', a.step = .ok a' ∧ S.pairing.Related a' b ∧ a'.control = [⟨.copyMember S.member, 0⟩,
      ⟨.openCode S.copying.toArray S.file, S.before.length + 1⟩] := by
  obtain ⟨x, hx, hxc, hxl, hprocess⟩ := hS.process_copy hr ha ca
  have hp : Activation.statement? ⟨.openCode S.copying.toArray S.file, S.before.length⟩ = some S.copy := by
    rw [statement?_openCode, getElem?_copy]
  have hstep := Assembly.step_of_statement ca hp
  rw [if_neg hS.isPlain_copy.notMacro, if_neg (fun h => hS.isPlain_copy.notMend h.1), hprocess] at hstep
  have hsources := hx.sources.trans ha.sources
  refine ⟨_, hstep, ⟨⟨?_, (ha.step hstep).sound, h.rel.right⟩, ?_, ?_⟩, rfl⟩
  · exact (core_opened hsources _).trans (hxc.trans h.rel.core)
  · have hl : (x.opened S.member).openLabels = x.openLabels := by
      rw [opened_of_nil hsources]
      rfl
    intro n
    rw [h.labels n, ← hxl, ← hl]
    rfl
  · rw [cb]
    exact .inserted 0 (Nat.zero_le _)

/-- How many steps the left side may take alone before the next step of both. -/
def lag (S : CopySite) (a : Assembly) : Nat :=
  match a.control with
  | [p] => if p.index = S.before.length then 2 else 0
  | [p, _] => if p.index = S.body.length then 1 else 0
  | _ => 0

/-- **The sides take their steps together**, apart from the copy statement and the end of the member. -/
theorem step_of_related (hS : S.Proper) (hapart : S.Apart) (hr : (S.assembling S.copying).Reaches a)
    (h : S.pairing.Related a b) (ha : Balanced (S.job S.copying) a) (hb : Balanced (S.job S.inlined) b) :
    (∃ a', a.step = .ok a' ∧ S.pairing.Related a' b ∧ S.lag a' < S.lag a) ∨ SameOutcome S.pairing.Related a.step b.step := by
  have hc := h.control
  generalize ca : a.control = control at hc
  generalize cb : b.control = control' at hc
  cases hc with
  | finished =>
    rw [step_of_isFinished (List.isEmpty_iff.2 ca), step_of_isFinished (List.isEmpty_iff.2 cb)]
    exact .inr (.ok h)
  | beside hbeside =>
    cases hbeside with
    | openCode i =>
      by_cases hi : i = S.before.length
      · subst hi
        rw [shift_of_le (Nat.le_refl _)] at cb
        obtain ⟨a', hs, h', hc⟩ := step_of_copyStatement hS hr h ha ca cb
        refine .inl ⟨a', hs, h', ?_⟩
        unfold lag
        rw [hc, ca]
        dsimp only
        rw [if_pos rfl]
        split <;> omega
      · exact .inr (step_of_place hS h ha hb hi ca cb)
    | copy m i capital ho => exact .inr (step_of_copy hS hapart hr h ha hb ca cb capital ho)
  | inserted k hk =>
    -- behind its last statement the member is still open on the left
    rcases Nat.lt_or_eq_of_le hk with hlt | rfl
    · exact .inr (step_of_inserted hS hr h ha hb hlt ca cb)
    · obtain ⟨a', hs, h', hc⟩ := step_of_end h ha ca cb
      refine .inl ⟨a', hs, h', ?_⟩
      unfold lag
      rw [hc, ca]
      dsimp only
      rw [if_pos rfl, if_neg (Nat.succ_ne_self _)]
      exact Nat.zero_lt_one
  | call d i ho => exact .inr (h.step_of_call ha hb rfl ca cb ho fun s _ => fixes_alikeness s)

end Steps

/-! ### Runs -/

/-- The two sides in the course of their runs. -/
structure Follows (a b : Assembly) : Prop extends S.pairing.Related a b where
  left : (S.assembling S.copying).Reaches a
  right : (S.assembling S.inlined).Reaches b

section Runs

variable {S}

theorem Follows.alike {a b : Assembly} (h : S.Follows a b) : Alike a b := h.rel

theorem follows_assembling : S.Follows (S.assembling S.copying) (S.assembling S.inlined) where
  rel := ⟨rfl, (S.balanced_assembling _).sound, (S.balanced_assembling _).sound⟩
  labels n := by
    show (none : Option SequenceSymbol) = (none : Option SequenceSymbol).map S.relabel
    rfl
  control := by
    have h : S.Beside _ _ := .openCode 0
    rw [shift_of_le (Nat.zero_le _)] at h
    exact .beside h
  left := .refl _
  right := .refl _

theorem simulates (hS : S.Proper) (hapart : S.Apart) : Simulates S.Follows S.lag where
  finished h := Along.isEmpty h.control
  step {a b} h _ := by
    have ha := (S.balanced_assembling S.copying).reaches h.left
    have hb := (S.balanced_assembling S.inlined).reaches h.right
    rcases step_of_related hS hapart h.left h.toRelated ha hb with ⟨a', hs, h', hlt⟩ | hs
    · exact .inl ⟨a', hs, ⟨h', h.left.trans (reaches_of_step hs), h.right⟩, hlt⟩
    · exact .inr (hs.mono fun x y hx hy h' =>
        ⟨h', h.left.trans (reaches_of_step hx), h.right.trans (reaches_of_step hy)⟩)

end Runs

end CopySite

/-- The assemblies have the same results: ordinary symbols, sections and location counters, SET symbols of
open code and global ones, macros, and the number of macro calls. -/
structure SameResults (a b : Assembly) : Prop where
  symbols : a.context.symbols.symbols.map (fun s => (s.name, s.value, s.attributes)) =
    b.context.symbols.symbols.map fun s => (s.name, s.value, s.attributes)
  sections : a.context.symbols.sections = b.context.symbols.sections
  currentSection : a.context.symbols.current = b.context.symbols.current
  setSymbols : a.context.openCode.bindings = b.context.openCode.bindings
  globals : a.context.globals = b.context.globals
  systemGlobals : a.context.systemGlobals = b.context.systemGlobals
  macros : a.context.macros = b.context.macros
  callCount : a.context.callCount = b.context.callCount

theorem Assembly.Alike.sameResults {a b : Assembly} (h : Alike a b) : SameResults a b where
  symbols := by
    have hs := congrArg (fun t : SymbolTable => t.symbols.map fun s => (s.name, s.value, s.attributes))
      h.symbols
    simpa only [SymbolTable.core, Array.map_map, Function.comp_def] using hs
  sections := congrArg (·.sections) h.symbols
  currentSection := congrArg (·.current) h.symbols
  setSymbols := congrArg (·.openCode.bindings) h.context
  globals := congrArg (·.globals) h.context
  systemGlobals := congrArg (·.systemGlobals) h.context
  macros := congrArg (·.macros) h.context
  callCount := congrArg (·.callCount) h.context

/-- **A copy statement in open code does the same as the statements of the member in its place**: the one
open code ends with a result iff the other one does, and the results are the same; so are faults. -/
theorem CopySite.copying_is_inserting (S : CopySite) (proper : S.Proper) (apart : S.Apart) :
    (∀ r, (S.assembling S.copying).Yields r →
      ∃ r', (S.assembling S.inlined).Yields r' ∧ SameOutcome SameResults r r') ∧
    (∀ r', (S.assembling S.inlined).Yields r' →
      ∃ r, (S.assembling S.copying).Yields r ∧ SameOutcome SameResults r r') := by
  have hsim := simulates proper apart
  have results {r r' : Except AssemblyFault Assembly} (h : SameOutcome S.Follows r r') :
      SameOutcome SameResults r r' := h.mono fun _ _ _ _ h => h.alike.sameResults
  constructor
  · intro r hr
    obtain ⟨r', hr', h⟩ := hsim.forward follows_assembling hr
    exact ⟨r', hr', results h⟩
  · intro r' hr'
    obtain ⟨r, hr, h⟩ := hsim.backward follows_assembling hr'
    exact ⟨r, hr, results h⟩

/-! ### Two sites -/

/-- A member that defines two symbols. -/
def pairMember : LibraryMember := ⟨"m", "X EQU 5\nY EQU 6\n"⟩

/-- A statement that copies it. -/
def pairCopy : Statement := (statementsOf " COPY M\n".toList).headD default

/-- The site of a copy of this member, with the given text behind it and further members in the library. -/
def pairSite (after : String) (others : List (String × LibraryMember)) : CopySite where
  file := "S"
  library := .ofMembers (("M", pairMember) :: others)
  settings := {}
  now := default
  before := statementsOf "A EQU 1\n".toList
  copy := pairCopy
  after := statementsOf after.toList
  name := "M"
  found := pairMember

/-- The copy member that the listing is. -/
def CopySite.member? (p : Activation) : Option CopyMember :=
  match p.listing with
  | .copyMember m => some m
  | _ => none

/-- Before this step `COPY` is not redefined, and no statement of the member branches or copies. -/
def isSteady (a : Assembly) : Bool :=
  decide (a.context.operation "COPY" = "COPY") &&
    a.control.head?.all fun p => p.statement?.all fun s => (CopySite.member? p).all fun m =>
      m.name ≠ "M" || ["AGO", "AIF", "COPY"].all fun opcode => !decide (a.Resolves p s opcode)

section Sites

variable {after : String} {others : List (String × LibraryMember)}

/-- The site is a proper one if its run says so. -/
theorem proper_pairSite {n : Nat} (find : (pairSite after others).library.find? "M" = some pairMember)
    (steady : (List.range (n + 1)).all fun k =>
      (((pairSite after others).assembling (pairSite after others).copying).run k).toOption.any isSteady)
    (ends : (((pairSite after others).assembling (pairSite after others).copying).run n).toOption.any
      isFinished) : (pairSite after others).Proper where
  isCopy := by
    show pairCopy.opcode = "COPY"
    decide +kernel
  unlabelled := by
    show pairCopy.sequenceLabel? = none
    decide +kernel
  literal x := by
    have h : (mentionsVariable pairCopy.labelText || mentionsVariable (fieldText pairCopy.instruction) ||
      mentionsVariable pairCopy.operandText) = false := by decide +kernel
    show pairCopy.substituted x = pairCopy
    unfold Statement.substituted
    dsimp only
    rw [if_neg (Bool.eq_false_iff.1 h)]
  operand := by
    have h : pairCopy.operands.map (·.text) = [['M']] := by decide +kernel
    obtain ⟨o, rest, ho, ht, -⟩ := List.map_eq_cons_iff.1 h
    refine ⟨o, rest, ho, by rw [ht]; simp, ?_⟩
    rw [ht]
    show String.ofList (Text.upperChars ['M']) = "M"
    decide +kernel
  find := find
  outside := by
    have h : pairCopy.opcode ≠ "MACRO" := by decide +kernel
    have hb : (statementsOf "A EQU 1\n".toList).foldl openBehind 0 = 0 := by decide +kernel
    refine (outside_iff CopySite.getElem?_copy).2 ⟨?_, h⟩
    unfold openBefore CopySite.copying
    rw [List.take_left]
    exact hb
  plain s hs := by
    have labels : ∀ s ∈ statementsOf pairMember.text.toList, s.sequenceLabel? = none ∧
        s.opcode ≠ "MACRO" ∧ s.opcode ≠ "MEND" := by decide +kernel
    obtain ⟨h1, h2, h3⟩ := labels s hs
    exact ⟨h1, h2, h3⟩
  original a ha := by
    have h := all_of_reaches steady ends ha
    unfold isSteady at h
    rw [Bool.and_eq_true] at h
    exact of_decide_eq_true h.1
  steady a p outer s ha hc hp hs opcode hop := by
    have h := all_of_reaches steady ends ha
    unfold isSteady at h
    have hm : CopySite.member? p = some (pairSite after others).member := by
      unfold CopySite.member?
      rw [hp]
    have hname : (pairSite after others).member.name = "M" := rfl
    rw [Bool.and_eq_true, hc, List.head?_cons, Option.all_some, hs, Option.all_some, hm, Option.all_some,
      hname, show decide ("M" ≠ "M") = false by decide, Bool.false_or] at h
    have h := List.all_eq_true.1 h.2 opcode hop
    simpa using h

end Sites

/-- A member is copied in front of a branch forward. -/
def branchingSite : CopySite := pairSite " AGO .L\nB EQU 2\n.L ANOP\n" []

theorem copy_before_branch : ∃ e e', (branchingSite.assembling branchingSite.copying).Yields (.ok e) ∧
    (branchingSite.assembling branchingSite.inlined).Yields (.ok e') ∧ SameResults e e' := by
  have ends : ((branchingSite.assembling branchingSite.copying).run 8).toOption.any isFinished := by
    decide +kernel
  have proper : branchingSite.Proper := proper_pairSite (by decide +kernel) (by decide +kernel) ends
  have apart : branchingSite.Apart := by
    intro n f _ hf _
    have hmem := branchingSite.library.mem_of_find? n f hf
    have huri : ∀ f ∈ branchingSite.library.members, f.uri ≠ branchingSite.file := by decide +kernel
    exact huri f hmem
  obtain ⟨e, he, hfin⟩ := exists_of_any ends
  obtain ⟨r', hr', h⟩ := (branchingSite.copying_is_inserting proper apart).1 _ (yields_of_run he hfin)
  cases h with
  | ok h => exact ⟨e, _, yields_of_run he hfin, hr', h⟩

/-- A member is copied in an open code whose file is that of another member. -/
def clashingSite : CopySite :=
  pairSite ".T ANOP\n COPY N\n" [("N", ⟨"S", " AGO .T\nP EQU 7\nQ EQU 8\nR EQU 9\n"⟩)]

/-- **Copying is not inserting if another member has the file of the open code**: a branch in that member
takes the label of the open code for one of its own, and the index of that label is another one. -/
theorem copying_differs_from_inserting : clashingSite.Proper ∧ ∃ e e',
    (clashingSite.assembling clashingSite.copying).Yields (.ok e) ∧
    (clashingSite.assembling clashingSite.inlined).Yields (.ok e') ∧
    (e.context.symbols.find? "Q").isSome ∧ e'.context.symbols.find? "Q" = none ∧ ¬ SameResults e e' := by
  have left : ((clashingSite.assembling clashingSite.copying).run 12).toOption.any fun e =>
      e.isFinished && ((e.context.symbols.find? "Q").isSome && e.context.symbols.symbols.size == 5) := by
    decide +kernel
  have right : ((clashingSite.assembling clashingSite.inlined).run 9).toOption.any fun e =>
      e.isFinished && ((e.context.symbols.find? "Q").isNone && e.context.symbols.symbols.size == 4) := by
    decide +kernel
  obtain ⟨e, he, h⟩ := exists_of_any left
  obtain ⟨e', he', h'⟩ := exists_of_any right
  rw [Bool.and_eq_true, Bool.and_eq_true] at h h'
  have ends : ((clashingSite.assembling clashingSite.copying).run 12).toOption.any isFinished := by
    rw [he]
    exact h.1
  refine ⟨proper_pairSite (by decide +kernel) (by decide +kernel) ends, e, e', yields_of_run he h.1,
    yields_of_run he' h'.1, h.2.1, Option.isNone_iff_eq_none.1 h'.2.1, ?_⟩
  intro hsame
  have hsize := congrArg Array.size hsame.symbols
  rw [Array.size_map, Array.size_map, eq_of_beq h.2.2, eq_of_beq h'.2.2] at hsize
  omega

end AssemblerIndex
