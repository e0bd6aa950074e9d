import AssemblerIndex.Proofs.Assembly.Congruence

/-!
# Runs of related assemblies

A `Pairing` says for a way to compare assemblies which listings belong to each other while they run side by side, and
how the labels of open code are moved.  Where the next statement is the same on both sides, so is what the step does
(`Pairing.Related.step_of_statement`); statements of open code are looked at in listings that match
(`Related.executed_of_matching`), those of macros in the bodies of twins (`Related.step_of_call`).
-/

namespace AssemblerIndex

open Assembly

namespace Congruence

variable {K : Congruence} {g : SequenceSymbol → SequenceSymbol} {f : Nat → Nat} {file : String} {a b : Assembly}
  {p q : Activation} {s : Statement} {outer outer' : List Activation} {j j' : Job}

/-! ### Turns -/

variable (K) in
/-- A statement has led from assemblies that belong to each other to such assemblies, and so do the labels. -/
structure Turn (g : SequenceSymbol → SequenceSymbol) (f : Nat → Nat) (u v : Assembly × Flow) : Prop where
  same : K.SameTurn f u v
  labels : Relabelled g u.1.openLabels v.1.openLabels

theorem branch_of_openCode (h : K.Rel a b) (hl : Relabelled g a.openLabels b.openLabels) (hg : Moves g f file)
    (hm : Matching f file p q) (ha : a.context.calls = []) (hb : b.context.calls = []) (target : String) :
    K.Turn g f (a.branch p target) (b.branch q target) := by
  generalize hname : Text.upper target = name
  have hn := meet h [name]
  obtain ⟨h1, h2⟩ := Relabelled.target? (a := a.meet [name]) (b := b.meet [name]) hl hg hm ha hb name
  have hx : K.Rel ((a.meet [name]).target? p name).1 ((b.meet [name]).target? q name).1 :=
    of_stays hn (holds_target? (a := a.meet [name]) (fun _ => ha) name).toStays
      (holds_target? (a := b.meet [name]) (fun _ => hb) name).toStays
      (core_target? (a := a.meet [name]) ha hm.left name) (core_target? (a := b.meet [name]) hb hm.right name)
  unfold Assembly.branch
  dsimp only
  rw [hname]
  generalize (a.meet [name]).target? p name = u at h1 h2 hx
  generalize (b.meet [name]).target? q name = v at h1 h2 hx
  obtain ⟨a', found⟩ := u
  obtain ⟨b', found'⟩ := v
  dsimp only at h1 h2 hx
  subst h2
  cases found with
  | none => exact ⟨⟨hx, .next⟩, h1⟩
  | some i =>
    have hlabels : Relabelled g (a'.mapContext (·.countBranch)).openLabels
        (b'.mapContext (·.countBranch)).openLabels := by
      rw [openLabels_countBranch, openLabels_countBranch]
      exact h1
    dsimp only [Option.map_some]
    rw [K.counter (countBranch hx)]
    split
    · exact ⟨⟨countBranch hx, .exit⟩, hlabels⟩
    · exact ⟨⟨countBranch hx, .jump i⟩, hlabels⟩

theorem follow_of_openCode (h : K.Rel a b) (hl : Relabelled g a.openLabels b.openLabels) (hg : Moves g f file)
    (hm : Matching f file p q) (ha : a.context.calls = []) (hb : b.context.calls = []) (target : Option String) :
    K.Turn g f (a.follow p target) (b.follow q target) := by
  cases target with
  | none => exact ⟨⟨h, .next⟩, hl⟩
  | some t => exact branch_of_openCode h hl hg hm ha hb t

/-- A statement that does not branch does the same wherever it stands in open code. -/
theorem turn_of_steady (h : K.Rel a b) (hs : K.Fixes s) (hp : p.definition? = none) (hq : q.definition? = none)
    (ha : a.context.calls = []) (hb : b.context.calls = []) (hsa : a.context.sources = [])
    (hsb : b.context.sources = []) (hl : Relabelled g (a.prepare p s).openLabels (b.prepare q s).openLabels)
    (hop : (a.prepare p s).context.operation s.opcode ≠ "AGO" ∧
      (a.prepare p s).context.operation s.opcode ≠ "AIF")
    (hcopy : (a.prepare p s).context.operation (s.substituted (a.prepare p s).context).opcode ≠ "COPY" ∨
      SameOpen a b) : SameOutcome (K.Turn g f) (a.process p s) (b.process q s) := by
  have hpq : p.definition?.isSome = q.definition?.isSome := by rw [hp, hq]
  have hpa := holds_prepare (p := p) (fun _ => ha) s
  have hpb := holds_prepare (p := q) (fun _ => hb) s
  have hop' := hop
  rw [K.operation (prepare h hpq (fun _ => ha) (fun _ => hb) s)] at hop'
  refine (process (f := f) h hpq (fun _ => ha) (fun _ => hb) hs (fun he => ?_) (.inr hcopy)).mono ?_
  · exact absurd he (not_or.2 hop)
  · rintro ⟨a', flow⟩ ⟨b', flow'⟩ hu hv hab
    have hu := executed_of_process (fun _ => ha) (K.sound h).1 hu
    have hv := executed_of_process (fun _ => hb) (K.sound h).2 hv
    refine ⟨hab, ?_⟩
    rw [openLabels_of_executed hu (fun _ => hpa.calls_eq_nil ha) (hpa.sources.trans hsa) (.inr hop),
      openLabels_of_executed hv (fun _ => hpb.calls_eq_nil hb) (hpb.sources.trans hsb) (.inr hop')]
    exact hl

/-- **A statement of open code does the same in listings that match.** -/
theorem turn_of_matching (h : K.Rel a b) (hs : K.Fixes s) (hl : Relabelled g a.openLabels b.openLabels)
    (hg : Moves g f file) (hm : Matching f file p q) (ha : a.context.calls = []) (hb : b.context.calls = [])
    (hopen : SameOpen a b) : SameOutcome (K.Turn g f) (a.process p s) (b.process q s) := by
  have hlx := hl.prepare hg hm ha hb s
  by_cases hop : (a.prepare p s).context.operation s.opcode = "AGO" ∨
      (a.prepare p s).context.operation s.opcode = "AIF"
  · have hpq : p.definition?.isSome = q.definition?.isSome := by rw [hm.left, hm.right]
    have hx := prepare h hpq (fun _ => ha) (fun _ => hb) s
    have hpa := holds_prepare (p := p) (fun _ => ha) s
    have hpb := holds_prepare (p := q) (fun _ => hb) s
    have hop' := hop
    rw [K.operation hx] at hop'
    rw [process_of_isBranch hop, process_of_isBranch hop', K.operation hx, alwaysTarget? hx hs, trueTarget? hx hs]
    exact .ok (follow_of_openCode hx hlx hg hm (hpa.calls_eq_nil ha) (hpb.calls_eq_nil hb) _)
  · exact turn_of_steady h hs hm.left hm.right ha hb hopen.left hopen.right hlx (not_or.1 hop) (.inr hopen)

/-- A statement in the bodies of twins does the same on both sides. -/
theorem turn_of_body (h : K.Rel a b) (hs : K.Fixes s) (hl : Relabelled g a.openLabels b.openLabels)
    {d d' : MacroDefinition} (hp : p.definition? = some d) (hq : q.definition? = some d') (hd : K.Twin d d')
    (ha : a.context.calls ≠ []) (hb : b.context.calls ≠ []) (hsa : a.context.sources = [])
    (hsb : b.context.sources = []) : SameOutcome (K.Turn g id) (a.process p s) (b.process q s) := by
  have inBody {x : List Call} (hn : p.definition? = none) : x = [] := by simp [hp] at hn
  have inBody' {x : List Call} (hn : q.definition? = none) : x = [] := by simp [hq] at hn
  have hpq : p.definition?.isSome = q.definition?.isSome := by rw [hp, hq]; rfl
  have hx := prepare h hpq inBody inBody' s
  refine (process h hpq inBody inBody' hs (fun _ => follow_of_body hx hp hq hd) (.inl (by rw [hp]; rfl))).mono ?_
  rintro ⟨a', flow⟩ ⟨b', flow'⟩ hu hv hab
  have hu := executed_of_process inBody (K.sound h).1 hu
  have hv := executed_of_process inBody' (K.sound h).2 hv
  have hpa := holds_prepare (a := a) (p := p) inBody s
  have hpb := holds_prepare (a := b) (p := q) inBody' s
  refine ⟨hab, ?_⟩
  dsimp only
  rw [openLabels_of_executed hu inBody (hpa.sources.trans hsa) (.inl (hpa.calls_ne_nil ha)),
    openLabels_of_executed hv inBody' (hpb.sources.trans hsb) (.inl (hpb.calls_ne_nil hb)),
    openLabels_of_stays hpa.toStays ha, openLabels_of_stays hpb.toStays hb]
  exact hl

/-! ### Around statements -/

variable (K) in
/-- Both listings are open code or copied into it, or they are the bodies of twins at the same index. -/
def SameKind (p q : Activation) : Prop :=
  p.definition? = none ∧ q.definition? = none ∨
    ∃ d d', p.definition? = some d ∧ q.definition? = some d' ∧ K.Twin d d' ∧ p.index = q.index

theorem SameKind.isSome (h : K.SameKind p q) : p.definition?.isSome = q.definition?.isSome := by
  rcases h with ⟨hp, hq⟩ | ⟨d, d', hp, hq, -⟩
  · rw [hp, hq]
  · rw [hp, hq]
    rfl

theorem moveTo (h : K.Rel a b) (ha : Balanced j a) (hb : Balanced j' b) (ca : a.control = p :: outer)
    (cb : b.control = q :: outer') (hpq : K.SameKind p q) (s : Statement) :
    K.Rel (a.moveTo p s) (b.moveTo q s) := by
  have hsa := (keeps_moveTo ha ca s).sound (K.sound h).1
  have hsb := (keeps_moveTo hb cb s).sound (K.sound h).2
  rcases hpq with ⟨hp, hq⟩ | ⟨d, d', hp, hq, -, hi⟩
  · exact K.of_core h (core_moveTo_of_openCode ha.sources hp s) (core_moveTo_of_openCode hb.sources hq s) hsa hsb
  · unfold Assembly.moveTo at hsa hsb ⊢
    rw [hp] at hsa ⊢
    rw [hq, ← hi] at hsb ⊢
    exact K.mapContext h (Context.natural_setMacroStatement p.index) hsa hsb

/-- Statements that are the same reach as far as a definition does. -/
theorem throughMend {items items' : List NestedStatement} (h : List.Forall₂ K.SameItem items items') (depth : Int) :
    List.Forall₂ K.SameItem (throughMend depth items) (throughMend depth items') := by
  induction h generalizing depth with
  | nil => exact .nil
  | @cons n n' rest rest' hn hrest ih =>
    rw [AssemblerIndex.throughMend, AssemblerIndex.throughMend, K.statement hn]
    split
    · exact .cons hn .nil
    · exact .cons hn (ih _)

/-- The same statements are read as a definition on both sides. -/
theorem readDefinition (h : K.Rel a b) (ha : Balanced j a) (hb : Balanced j' b)
    (hpq : p.definition?.isSome = q.definition?.isSome)
    (hitems : List.Forall₂ K.SameItem (AssemblerIndex.throughMend 0 (nestedStatements p))
      (AssemblerIndex.throughMend 0 (nestedStatements q))) (outer outer' : List Activation) :
    ∃ x y n, K.Rel x y ∧ a.Spares x ∧ b.Spares y ∧
      n = (AssemblerIndex.throughMend 0 (nestedStatements p)).length ∧
      a.readDefinition p outer = x.proceed p outer (.jump (p.index + n)) ∧
      b.readDefinition q outer' = y.proceed q outer' (.jump (q.index + n)) := by
  have hlength := hitems.length_eq
  unfold Assembly.readDefinition
  generalize AssemblerIndex.throughMend 0 (nestedStatements p) = items at hitems hlength ⊢
  generalize AssemblerIndex.throughMend 0 (nestedStatements q) = items' at hitems hlength ⊢
  dsimp only
  rw [← hlength]
  cases hd : p.definition? with
  | some d =>
    rw [hd] at hpq
    obtain ⟨d', hd'⟩ := Option.isSome_iff_exists.1 hpq.symm
    rw [hd']
    exact ⟨_, _, _, K.define h hitems, spares_define .., spares_define .., rfl, rfl, rfl⟩
  | none =>
    rw [hd] at hpq
    have hd' : q.definition? = none := by simpa using hpq.symm
    rw [hd']
    have level {c : Assembly} (l : List NestedStatement) : c.Spares
        (((c.mapContext (·.pushLevel .macroDefinition)).define l false).1.attempt Context.popLevel) :=
      spares_level (l := ⟨.macroDefinition, false⟩) (s := c.context.sources) rfl
        (spares_define (c.mapContext (·.pushLevel .macroDefinition)) l false)
    have pop {c : Assembly} (l : List NestedStatement) (hc : c.context.levels = [] ∧ c.context.sources = []) :
        ((c.mapContext (·.pushLevel .macroDefinition)).define l false).1.attempt Context.popLevel =
          ((c.mapContext (·.pushLevel .macroDefinition)).define l false).1.mapContext
            fun x => { x with levels := [], sources := [] } := by
      have h := attempt_popLevel (a := c) (l := ⟨.macroDefinition, false⟩) (s := c.context.sources) rfl
        (spares_define (c.mapContext (·.pushLevel .macroDefinition)) l false).toStays
      rw [hc.1, hc.2] at h
      exact h
    have pushed {c : Assembly} (hc : c.Sound) : (c.mapContext (·.pushLevel .macroDefinition)).Sound :=
      hc.of_names rfl fun _ => id
    have hx := K.define (K.mapContext h (f := (·.pushLevel .macroDefinition)) ⟨fun _ => rfl, fun _ => rfl, fun _ => rfl⟩
      (pushed (K.sound h).1) (pushed (K.sound h).2)) hitems
    refine ⟨_, _, _, ?_, level items, level items', rfl, rfl, rfl⟩
    rw [pop items ⟨ha.levels, ha.sources⟩, pop items' ⟨hb.levels, hb.sources⟩]
    exact K.mapContext hx ⟨fun _ => rfl, fun _ => rfl, fun _ => rfl⟩ ((K.sound hx).1.of_names rfl fun _ => id)
      ((K.sound hx).2.of_names rfl fun _ => id)

theorem leave_of_body (h : K.Rel a b) (ha : Balanced j a) (hb : Balanced j' b) (ca : a.control = p :: outer)
    (cb : b.control = q :: outer') (hp : p.definition?.isSome) (hq : q.definition?.isSome) :
    K.Rel a.leave b.leave := by
  have hsa := ha.leave.sound
  have hsb := hb.leave.sound
  rw [leave_of_macroBody ha ca hp] at hsa ⊢
  rw [leave_of_macroBody hb cb hq] at hsb ⊢
  have hx := K.mapContext h Context.natural_leaveCall ((K.sound h).1.of_names rfl fun _ => id)
    ((K.sound h).2.of_names rfl fun _ => id)
  exact K.of_core hx rfl rfl hsa hsb

end Congruence

/-! ### Runs side by side -/

/-- The listings of assemblies that run side by side. -/
structure Pairing (K : Congruence) where
  /-- the entry of a label on the one side that stands for a label on the other side -/
  relabel : SequenceSymbol → SequenceSymbol
  Along : List Activation → List Activation → Prop
  finished : Along [] []
  call : ∀ {d d' outer outer'} (i : Nat), K.Twin d d' → Along outer outer' →
    Along (⟨.macroBody d, i⟩ :: outer) (⟨.macroBody d', i⟩ :: outer')

namespace Pairing

variable {K : Congruence} (P : Pairing K)

/-- The two sides between steps. -/
structure Related (a b : Assembly) : Prop where
  rel : K.Rel a b
  labels : Relabelled P.relabel a.openLabels b.openLabels
  control : P.Along a.control b.control

section Flows

variable {P} {a b x y : Assembly} {j j' : Job} {p q : Activation} {outer outer' : List Activation}
  {s : Statement} {f : Nat → Nat}

theorem Related.at_control (h : K.Rel x y) (hl : Relabelled P.relabel x.openLabels y.openLabels)
    {control control' : List Activation} (hc : P.Along control control') :
    P.Related { x with control := control } { y with control := control' } :=
  ⟨K.of_core h rfl rfl ((K.sound h).1.of_names rfl fun _ => id) ((K.sound h).2.of_names rfl fun _ => id), hl, hc⟩

theorem Related.leave_of_body (h : K.Rel x y) (hl : Relabelled P.relabel x.openLabels y.openLabels)
    (hx : Balanced j x) (hy : Balanced j' y) (cx : x.control = p :: outer) (cy : y.control = q :: outer')
    (hp : p.definition?.isSome) (hq : q.definition?.isSome) (ho : P.Along outer outer') :
    P.Related x.leave y.leave := by
  refine ⟨Congruence.leave_of_body h hx hy cx cy hp hq, ?_, ?_⟩
  · rw [openLabels_leave hx, openLabels_leave hy]
    exact hl
  · rw [control_leave, control_leave, cx, cy]
    exact ho

theorem Related.leave_of_openCode (h : P.Related x y) (hx : Balanced j x) (hy : Balanced j' y)
    (cx : x.control = p :: outer) (cy : y.control = q :: outer') (hp : p.definition? = none)
    (hq : q.definition? = none) (ho : P.Along outer outer') : P.Related x.leave y.leave := by
  refine ⟨K.of_core h.rel (core_leave_of_openCode hx cx hp) (core_leave_of_openCode hy cy hq) hx.leave.sound
    hy.leave.sound, ?_, ?_⟩
  · rw [openLabels_leave hx, openLabels_leave hy]
    exact h.labels
  · rw [control_leave, control_leave, cx, cy]
    exact ho

/-- An exit from open code ends both sides. -/
theorem Related.leaveAll (h : K.Rel x y) (hl : Relabelled P.relabel x.openLabels y.openLabels)
    (hx : Balanced j x) (hy : Balanced j' y) (calls : x.context.calls = []) (calls' : y.context.calls = []) :
    P.Related (x.control.foldl (fun a _ => a.leave) x) (y.control.foldl (fun a _ => a.leave) y) := by
  refine ⟨K.of_core h (core_leaveAll hx calls _) (core_leaveAll hy calls' _) (hx.leaveAll _).1.sound
    (hy.leaveAll _).1.sound, ?_, ?_⟩
  · rw [openLabels_leaveAll hx, openLabels_leaveAll hy]
    exact hl
  · rw [(hx.leaveAll _).2, (hy.leaveAll _).2, List.drop_length, List.drop_length]
    exact P.finished

/-- The sides stay related behind a statement, if they do so for each way to go on. -/
theorem Related.proceed {u v : Assembly × Flow} (h : K.Turn P.relabel f u v)
    (next : P.Along ({ p with index := p.index + 1 } :: outer) ({ q with index := q.index + 1 } :: outer'))
    (jump : ∀ i, u.2 = .jump i →
      P.Along ({ p with index := i } :: outer) ({ q with index := f i } :: outer'))
    (enter : ∀ m, u.2 = .enter (.copyMember m) →
      P.Along ({ listing := .copyMember m } :: { p with index := p.index + 1 } :: outer)
        ({ listing := .copyMember m } :: { q with index := q.index + 1 } :: outer'))
    (exit : u.2 = .exit → v.2 = .exit → P.Related (u.1.proceed p outer .exit) (v.1.proceed q outer' .exit)) :
    P.Related (u.1.proceed p outer u.2) (v.1.proceed q outer' v.2) := by
  obtain ⟨⟨hrel, hflow⟩, hl⟩ := h
  obtain ⟨x, flow⟩ := u
  obtain ⟨y, flow'⟩ := v
  dsimp only at *
  cases hflow with
  | next => exact .at_control hrel hl next
  | jump i => exact .at_control hrel hl (jump i rfl)
  | call hd => exact .at_control hrel hl (P.call 0 hd next)
  | copy m => exact .at_control hrel hl (enter m rfl)
  | exit => exact exit rfl rfl

theorem Related.labels_moveTo (h : P.Related a b) (ha : Balanced j a) (hb : Balanced j' b)
    (ca : a.control = p :: outer) (cb : b.control = q :: outer') (s : Statement) :
    Relabelled P.relabel (a.moveTo p s).openLabels (b.moveTo q s).openLabels := by
  have h1 : (a.moveTo p s).openLabels = a.openLabels := (keeps_moveTo ha ca s).labels
  have h2 : (b.moveTo q s).openLabels = b.openLabels := (keeps_moveTo hb cb s).labels
  rw [h1, h2]
  exact h.labels

/-- Both sides take the same kind of step on the same statement. -/
theorem Related.step_of_statement (h : P.Related a b) (ha : Balanced j a) (hb : Balanced j' b)
    (ca : a.control = p :: outer) (cb : b.control = q :: outer') (hs : p.statement? = some s)
    (hs' : q.statement? = some s) (hpq : K.SameKind p q)
    (definition : s.opcode = "MACRO" →
      List.Forall₂ K.SameItem (throughMend 0 (nestedStatements p)) (throughMend 0 (nestedStatements q)) ∧
        P.Along ({ p with index := p.index + (throughMend 0 (nestedStatements p)).length } :: outer)
          ({ q with index := q.index + (throughMend 0 (nestedStatements p)).length } :: outer'))
    (mend : p.definition?.isSome → P.Along outer outer')
    (executed : SameOutcome
      (fun u v => P.Related (u.1.proceed p outer u.2) (v.1.proceed q outer' v.2))
      ((a.moveTo p s).process p s) ((b.moveTo q s).process q s)) :
    SameOutcome P.Related a.step b.step := by
  have hm := Congruence.moveTo h.rel ha hb ca cb hpq s
  have hka := keeps_moveTo ha ca s
  have hkb := keeps_moveTo hb cb s
  have hl := h.labels_moveTo ha hb ca cb s
  have hma := ha.of_stays hka.toStays
  have hmb := hb.of_stays hkb.toStays
  have hd := hpq.isSome
  rw [Assembly.step_of_statement ca hs, Assembly.step_of_statement cb hs', ← hd]
  by_cases hmacro : s.opcode = "MACRO"
  · rw [if_pos hmacro, if_pos hmacro]
    obtain ⟨hitems, hc⟩ := definition hmacro
    obtain ⟨x, y, n, hxy, hx, hy, rfl, hxe, hye⟩ := Congruence.readDefinition hm hma hmb hd hitems outer outer'
    have h1 : x.openLabels = (a.moveTo p s).openLabels := hx.labels
    have h2 : y.openLabels = (b.moveTo q s).openLabels := hy.labels
    rw [hxe, hye]
    refine .ok (.at_control hxy ?_ hc)
    rw [h1, h2]
    exact hl
  · rw [if_neg hmacro, if_neg hmacro]
    by_cases hmend : s.opcode = "MEND" ∧ p.definition?.isSome
    · rw [if_pos hmend, if_pos hmend]
      exact .ok (.leave_of_body hm hl hma hmb (hka.control.trans ca) (hkb.control.trans cb) hmend.2
        (hd ▸ hmend.2) (mend hmend.2))
    · rw [if_neg hmend, if_neg hmend]
      exact executed.map fun _ _ h => h

/-- A statement of open code leaves the sides related, if it does the same on both. -/
theorem Related.executed_of_openCode (ha : Balanced j a) (hb : Balanced j' b) (ca : a.control = p :: outer)
    (cb : b.control = q :: outer') (hp : p.definition? = none) (hq : q.definition? = none)
    (turn : SameOutcome (K.Turn P.relabel f) ((a.moveTo p s).process p s) ((b.moveTo q s).process q s))
    (next : P.Along ({ p with index := p.index + 1 } :: outer) ({ q with index := q.index + 1 } :: outer'))
    (jump : ∀ x i, (a.moveTo p s).process p s = .ok (x, .jump i) →
      P.Along ({ p with index := i } :: outer) ({ q with index := f i } :: outer'))
    (enter : ∀ x m, (a.moveTo p s).process p s = .ok (x, .enter (.copyMember m)) →
      P.Along ({ listing := .copyMember m } :: { p with index := p.index + 1 } :: outer)
        ({ listing := .copyMember m } :: { q with index := q.index + 1 } :: outer')) :
    SameOutcome (fun u v => P.Related (u.1.proceed p outer u.2) (v.1.proceed q outer' v.2))
      ((a.moveTo p s).process p s) ((b.moveTo q s).process q s) := by
  have hma := (keeps_moveTo ha ca s).toStays
  have hmb := (keeps_moveTo hb cb s).toStays
  have calls := hma.calls_eq_nil (ha.calls_eq_nil ca hp)
  have calls' := hmb.calls_eq_nil (hb.calls_eq_nil cb hq)
  refine turn.mono ?_
  rintro ⟨x, flow⟩ ⟨y, flow'⟩ hx hy h
  refine .proceed h next (fun i hi => ?_) (fun m hm => ?_) fun he he' => ?_
  · obtain rfl : flow = .jump i := hi
    exact jump x i hx
  · obtain rfl : flow = .enter (.copyMember m) := hm
    exact enter x m hx
  · obtain rfl : flow = .exit := he
    obtain rfl : flow' = .exit := he'
    have hpx := hma.trans (holds_prepare (p := p) (fun _ => calls) s).toStays
    have hpy := hmb.trans (holds_prepare (p := q) (fun _ => calls') s).toStays
    have hsx := hpx.trans (stays_of_executed (executed_of_process (fun _ => calls) (hma.sound ha.sound) hx)
      (fun _ => hpx.calls_eq_nil (ha.calls_eq_nil ca hp)) (by simp))
    have hsy := hpy.trans (stays_of_executed (executed_of_process (fun _ => calls') (hmb.sound hb.sound) hy)
      (fun _ => hpy.calls_eq_nil (hb.calls_eq_nil cb hq)) (by simp))
    have hall {z : Assembly} {r : Activation} {rest : List Activation} (hr : r.definition? = none) :
        z.proceed r rest .exit = z.control.foldl (fun a _ => a.leave) z := by
      unfold Assembly.proceed
      exact if_neg (by rw [hr]; simp)
    dsimp only
    rw [hall hp, hall hq]
    exact .leaveAll h.same.1 h.labels (ha.of_stays hsx) (hb.of_stays hsy)
      (hsx.calls_eq_nil (ha.calls_eq_nil ca hp)) (hsy.calls_eq_nil (hb.calls_eq_nil cb hq))

/-- A statement in a listing of open code leaves the sides related if the listings match. -/
theorem Related.executed_of_matching (h : P.Related a b) (hs : K.Fixes s) (ha : Balanced j a)
    (hb : Balanced j' b) (ca : a.control = p :: outer) (cb : b.control = q :: outer')
    {file : String} (hg : Moves P.relabel f file) (hm : Matching f file p q) (hopen : SameOpen a b)
    (next : P.Along ({ p with index := p.index + 1 } :: outer) ({ q with index := q.index + 1 } :: outer'))
    (jump : ∀ i, P.Along ({ p with index := i } :: outer) ({ q with index := f i } :: outer'))
    (enter : ∀ m, Text.upper m.name = m.name →
      P.Along ({ listing := .copyMember m } :: { p with index := p.index + 1 } :: outer)
        ({ listing := .copyMember m } :: { q with index := q.index + 1 } :: outer')) :
    SameOutcome (fun u v => P.Related (u.1.proceed p outer u.2) (v.1.proceed q outer' v.2))
      ((a.moveTo p s).process p s) ((b.moveTo q s).process q s) := by
  have hka := (keeps_moveTo ha ca s).toStays
  have hkb := (keeps_moveTo hb cb s).toStays
  have calls := hka.calls_eq_nil (ha.calls_eq_nil ca hm.left)
  have turn := Congruence.turn_of_matching (Congruence.moveTo h.rel ha hb ca cb (.inl ⟨hm.left, hm.right⟩) s) hs
    (h.labels_moveTo ha hb ca cb s) hg hm calls (hkb.calls_eq_nil (hb.calls_eq_nil cb hm.right))
    (hopen.of_stays hka hkb)
  refine executed_of_openCode ha hb ca cb hm.left hm.right turn next (fun _ i _ => jump i) fun x m hx => ?_
  obtain ⟨-, t, ht⟩ := copy_of_process (hka.sound ha.sound) (fun _ => calls) hx
  exact enter m (by rw [ht, Text.upper_upper])

/-- A step in listings of open code that go on with the same statements. -/
theorem Related.step_of_listing (h : P.Related a b) (ha : Balanced j a) (hb : Balanced j' b)
    (ca : a.control = p :: outer) (cb : b.control = q :: outer') (hp : p.definition? = none)
    (hq : q.definition? = none) (hfile : q.file = p.file) (hf : ∀ k, f (p.index + k) = q.index + k)
    (hdrop : ∀ k, q.statements.toList.drop (q.index + k) = p.statements.toList.drop (p.index + k))
    (same : ∀ n ∈ nestedStatements p, K.SameItem n n) (hg : Moves P.relabel f p.file) (hopen : SameOpen a b)
    (fixed : ∀ s, p.statement? = some s → K.Fixes s)
    (along : ∀ i, P.Along ({ p with index := i } :: outer) ({ q with index := f i } :: outer'))
    (enter : ∀ m, Text.upper m.name = m.name →
      P.Along ({ listing := .copyMember m } :: { p with index := p.index + 1 } :: outer)
        ({ listing := .copyMember m } :: { q with index := q.index + 1 } :: outer'))
    (leave : P.Along outer outer') : SameOutcome P.Related a.step b.step := by
  have hstatement : q.statement? = p.statement? := by
    unfold Activation.statement?
    rw [← Array.getElem?_toList, ← Array.getElem?_toList, ← List.head?_drop, ← List.head?_drop]
    exact congrArg List.head? (hdrop 0)
  have hnested : nestedStatements q = nestedStatements p := by
    unfold nestedStatements
    rw [hp, hq]
    exact congrArg₂ (fun file l => List.map (NestedStatement.direct file) l) hfile (hdrop 0)
  cases hs : p.statement? with
  | none =>
    rw [Assembly.step_of_none ca hs, Assembly.step_of_none cb (hstatement.trans hs)]
    exact .ok (h.leave_of_openCode ha hb ca cb hp hq leave)
  | some s =>
    have hm : Matching f p.file p q := by
      refine ⟨hp, hq, rfl, hfile, (hf 0).symm, ?_⟩
      rw [hdrop 1]
      exact facing_self _ fun k => by rw [Nat.add_assoc, hf, Nat.add_assoc]
    refine h.step_of_statement ha hb ca cb hs (hstatement.trans hs) (.inl ⟨hp, hq⟩) (fun _ => ⟨?_, ?_⟩) ?_ ?_
    · rw [hnested]
      exact Congruence.throughMend (List.forall₂_same.2 same) 0
    · rw [← hf]
      exact along _
    · intro hd
      rw [hp] at hd
      cases hd
    · refine h.executed_of_matching (fixed s hs) ha hb ca cb hg hm hopen ?_ along enter
      rw [← hf]
      exact along _

/-- A step in the bodies of twins. -/
theorem Related.step_of_call (h : P.Related a b) (ha : Balanced j a) (hb : Balanced j' b) {d d' : MacroDefinition}
    (hd : K.Twin d d') {i : Nat} (ca : a.control = ⟨.macroBody d, i⟩ :: outer)
    (cb : b.control = ⟨.macroBody d', i⟩ :: outer') (ho : P.Along outer outer')
    (fixed : ∀ s, Activation.statement? ⟨.macroBody d, i⟩ = some s → K.Fixes s) :
    SameOutcome P.Related a.step b.step := by
  have hstatement : Activation.statement? ⟨.macroBody d', i⟩ = Activation.statement? ⟨.macroBody d, i⟩ := by
    show d'.body[i]? = d.body[i]?
    rw [K.body hd]
  cases hp : Activation.statement? ⟨.macroBody d, i⟩ with
  | none =>
    rw [Assembly.step_of_none ca hp, Assembly.step_of_none cb (hstatement.trans hp)]
    exact .ok (.leave_of_body h.rel h.labels ha hb ca cb rfl rfl ho)
  | some s =>
    have hpq : K.SameKind ⟨.macroBody d, i⟩ ⟨.macroBody d', i⟩ := .inr ⟨d, d', rfl, rfl, hd, rfl⟩
    refine h.step_of_statement ha hb ca cb hp (hstatement.trans hp) hpq
      (fun _ => ⟨Congruence.throughMend (List.forall₂_drop i (K.nested hd)) 0, P.call _ hd ho⟩) (fun _ => ho) ?_
    have hka := keeps_moveTo ha ca s
    have hkb := keeps_moveTo hb cb s
    obtain ⟨c, cs, hcalls, -⟩ := ha.exists_call ca rfl
    obtain ⟨c', cs', hcalls', -⟩ := hb.exists_call cb rfl
    have calls := hka.calls_ne_nil (by rw [hcalls]; simp)
    have calls' := hkb.calls_ne_nil (by rw [hcalls']; simp)
    refine (Congruence.turn_of_body (Congruence.moveTo h.rel ha hb ca cb hpq s) (fixed s hp)
      (h.labels_moveTo ha hb ca cb s) rfl rfl hd calls calls' (hka.sources.trans ha.sources)
      (hkb.sources.trans hb.sources)).mono ?_
    rintro ⟨x, flow⟩ ⟨y, flow'⟩ hx hy h'
    have inMacro {e : MacroDefinition} {cs : List Call}
        (hd : Activation.definition? ⟨.macroBody e, i⟩ = none) : cs = [] := by
      simp [Activation.definition?] at hd
    have hex := executed_of_process inMacro (hka.sound ha.sound) hx
    have hey := executed_of_process inMacro (hkb.sound hb.sound) hy
    refine .proceed h' (P.call (i + 1) hd ho) (fun k _ => P.call k hd ho) (fun m hm => ?_) fun he he' => ?_
    · obtain rfl : flow = .enter (.copyMember m) := hm
      rcases enter_cases hex inMacro with ⟨e, he⟩ | ⟨hp, -⟩
      · simp at he
      · simp [Activation.definition?] at hp
    · obtain rfl : flow = .exit := he
      obtain rfl : flow' = .exit := he'
      have hsx := hka.toStays.trans ((holds_prepare inMacro s).toStays.trans (stays_of_executed hex inMacro (by simp)))
      have hsy := hkb.toStays.trans ((holds_prepare inMacro s).toStays.trans (stays_of_executed hey inMacro (by simp)))
      exact .leave_of_body h'.same.1 h'.labels (ha.of_stays hsx) (hb.of_stays hsy) (hsx.control.trans ca)
        (hsy.control.trans cb) rfl rfl ho

end Flows

end Pairing

end AssemblerIndex
