import AssemblerIndex.Proofs.Assembly.Balance
import AssemblerIndex.Proofs.Assembly.Blocks
import AssemblerIndex.Proofs.Text.Capitals

/-!
# Labels of open code

The sequence symbols of open code are entered when a statement is executed and when a search passes it.
`Scanned` says what the labels at some places of a listing do to the table: what is in it stays, what is
new comes from one of these places, and all their names are in it.
-/

namespace AssemblerIndex

/-- The sequence symbol that labels the statement at `k`. -/
def labelAt? (l : List Statement) (k : Nat) : Option String :=
  (l[k]?.bind (·.sequenceLabel?)).map (·.1)

theorem labelAt?_of_getElem? {l : List Statement} {k : Nat} {s : Statement} (h : l[k]? = some s) :
    labelAt? l k = s.sequenceLabel?.map (·.1) := by
  unfold labelAt?
  rw [h]
  rfl

/-- A label that a search finds is the one that it searches for. -/
theorem sequenceLabel?_of_hasLabel {s : Statement} {target : String}
    (h : s.hasLabel (Text.upper target)) : s.sequenceLabel?.map (·.1) = some (Text.upper target) := by
  unfold Statement.hasLabel Statement.labelText fieldText at h
  cases hl : s.label with
  | none => simp [hl] at h
  | some f =>
    obtain ⟨text, span⟩ := f
    rw [hl] at h
    cases text with
    | nil => simp at h
    | cons c label =>
      by_cases hc : c = '.'
      · subst hc
        have hu := Text.upper_of_sameAscii h
        unfold Statement.sequenceLabel?
        rw [hl]
        unfold Text.upper at hu ⊢
        rw [String.toList_ofList] at hu
        exact congrArg some hu
      · simp [hc] at h

/-! ### Entering labels -/

/-- From `t` to `t'` the labels at the places `P` of a listing have been entered. -/
structure Scanned (file : String) (l : List Statement) (P : Nat → Prop) (t t' : Table SequenceSymbol) :
    Prop where
  mono : ∀ {n s}, t.find? n = some s → t'.find? n = some s
  origin : ∀ {n s}, t'.find? n = some s →
    t.find? n = some s ∨ s.location.file = file ∧ P s.offset ∧ labelAt? l s.offset = some n
  all : ∀ {n k}, P k → labelAt? l k = some n → t'.find? n ≠ none

section Scanned

variable {file : String} {l : List Statement} {P Q : Nat → Prop} {t t' t'' : Table SequenceSymbol}

theorem Scanned.refl (h : ∀ k n, P k → labelAt? l k ≠ some n) : Scanned file l P t t where
  mono h := h
  origin h := .inl h
  all hk hn := absurd hn (h _ _ hk)

theorem Scanned.trans (h : Scanned file l P t t') (h' : Scanned file l Q t' t'') :
    Scanned file l (fun k => P k ∨ Q k) t t'' where
  mono hs := h'.mono (h.mono hs)
  origin hs := by
    rcases h'.origin hs with hs | ⟨hf, hq, hn⟩
    · rcases h.origin hs with hs | ⟨hf, hp, hn⟩
      · exact .inl hs
      · exact .inr ⟨hf, .inl hp, hn⟩
    · exact .inr ⟨hf, .inr hq, hn⟩
  all hk hn := by
    rcases hk with hp | hq
    · obtain ⟨s, hs⟩ := Option.ne_none_iff_exists'.1 (h.all hp hn)
      rw [h'.mono hs]
      simp
    · exact h'.all hq hn

theorem Scanned.congr (h : Scanned file l P t t') (hpq : ∀ k, P k ↔ Q k) : Scanned file l Q t t' :=
  (funext fun k => propext (hpq k) : P = Q) ▸ h

end Scanned

namespace Assembly

/-- The table of the sequence symbols of open code. -/
def openLabels (a : Assembly) : Table SequenceSymbol := a.context.openCode.sequenceSymbols

/-! ### What leaves the labels as they are -/

section Unchanged

variable {j : Job} {a b : Assembly}

theorem openLabels_leave (h : Balanced j a) : a.leave.openLabels = a.openLabels := by
  cases hc : a.control with
  | nil =>
    unfold leave
    rw [hc]
  | cons p outer =>
    cases hp : p.definition? with
    | none => rw [leave_of_openCode h hc hp]; rfl
    | some d => rw [leave_of_macroBody h hc (by rw [hp]; rfl)]; rfl

theorem openLabels_leaveAll (h : Balanced j a) (l : List Activation) :
    (l.foldl (fun a _ => a.leave) a).openLabels = a.openLabels := by
  induction l generalizing a with
  | nil => rfl
  | cons p rest ih => exact (ih h.leave).trans (openLabels_leave h)

/-- In the body of a macro the labels of open code stay as they are. -/
theorem openLabels_of_stays (h : a.Stays b) (ha : a.context.calls ≠ []) : b.openLabels = a.openLabels :=
  congrArg (·.sequenceSymbols) (h.openCode ha)

theorem openLabels_mapScope (a : Assembly) (f : Scope → Scope)
    (hf : ∀ s, (f s).sequenceSymbols = s.sequenceSymbols) :
    (a.mapContext (·.mapScope f)).openLabels = a.openLabels := by
  show (a.context.mapScope f).openCode.sequenceSymbols = _
  cases hc : a.context.calls with
  | nil =>
    rw [mapScope_of_nil hc]
    exact hf _
  | cons c cs =>
    rw [mapScope_of_cons hc]
    rfl

theorem openLabels_countBranch (a : Assembly) : (a.mapContext (·.countBranch)).openLabels = a.openLabels :=
  openLabels_mapScope a _ fun _ => rfl

theorem openLabels_setBranchCounter (a : Assembly) (n : Int32) :
    (a.mapContext (·.setBranchCounter n)).openLabels = a.openLabels :=
  openLabels_mapScope a _ fun _ => rfl

end Unchanged

/-! ### Searching -/

section Search

variable {a : Assembly} {l : List Statement} {s : Statement}

theorem scanned_noteLabel (ha : a.context.calls = []) (file : String) {k : Nat} (hk : l[k]? = some s) :
    Scanned file l (· = k) a.openLabels (a.noteLabel file k s).openLabels := by
  have hlabel := labelAt?_of_getElem? hk
  unfold noteLabel
  cases hs : s.sequenceLabel? with
  | none =>
    refine .refl fun i n hi => ?_
    rw [hi, hlabel, hs]
    simp
  | some r =>
    obtain ⟨name, pos⟩ := r
    rw [hs] at hlabel
    have hm : (a.meet [name]).context.calls = [] := ha
    obtain ⟨t, hx, ht⟩ := exists_addSequenceSymbol hm ⟨name, ⟨file, pos⟩, k⟩
    dsimp only
    rw [attempt_of_ok (f := (·.addSequenceSymbol _)) hx]
    have ht : ∀ n, t.find? n = if a.openLabels.find? name = none ∧ n = name then
        some ⟨name, ⟨file, pos⟩, k⟩ else a.openLabels.find? n := ht
    constructor
    · intro n s' hs'
      refine (ht n).trans ?_
      rw [if_neg ?_, hs']
      rintro ⟨hnone, rfl⟩
      rw [hnone] at hs'
      simp at hs'
    · intro n s' hs'
      have hs' := (ht n).symm.trans hs'
      split at hs'
      · rename_i hnew
        obtain rfl := Option.some.inj hs'
        exact .inr ⟨rfl, rfl, hnew.2 ▸ hlabel⟩
      · exact .inl hs'
    · intro n i hi hn hnone
      subst hi
      obtain rfl := Option.some.inj (hlabel.symm.trans hn)
      have hnone := (ht name).symm.trans hnone
      by_cases hold : a.openLabels.find? name = none
      · rw [if_pos ⟨hold, rfl⟩] at hnone
        simp at hnone
      · rw [if_neg fun h => hold h.1] at hnone
        exact hold hnone

/-- A search of the statements from `i` on, with `depth` open definitions, sees the label at `k`. -/
def Sees (l : List Statement) (depth : Int) (i k : Nat) : Prop :=
  i ≤ k ∧ seenAt depth (l.drop i) (k - i)

/-- How a search that looks at the places `P` for a label ends: behind the statement that has the label, or
behind all statements. -/
inductive Searched (l : List Statement) (target : String) (P : Nat → Prop) : Nat → Option Nat → Prop
  | found {k : Nat} {s : Statement} (seen : P k) (hs : l[k]? = some s) (label : s.hasLabel target) :
    Searched l target P (k + 1) (some k)
  | failed {stop : Nat} (behind : l.length ≤ stop)
    (without : ∀ k s, P k → l[k]? = some s → ¬ s.hasLabel target) : Searched l target P stop none

theorem Searched.lt_stop {target : String} {P : Nat → Prop} {i stop : Nat} {found : Option Nat}
    (h : Searched l target P stop found) (hP : ∀ k, P k → i ≤ k) (hi : i < l.length) : i < stop := by
  cases h with
  | found seen _ _ => exact Nat.lt_succ_of_le (hP _ seen)
  | failed behind _ => omega

/-- A search may also look at statements without the label. -/
theorem Searched.mono {target : String} {P Q : Nat → Prop} {stop : Nat} {found : Option Nat}
    (h : Searched l target P stop found) (hpq : ∀ k, P k → Q k)
    (more : ∀ k s, Q k → l[k]? = some s → s.hasLabel target → P k) : Searched l target Q stop found := by
  cases h with
  | found seen hs label => exact .found (hpq _ seen) hs label
  | failed behind without =>
    exact .failed behind fun k s hk hs label => without k s (more k s hk hs label) hs label

theorem drop_of_getElem? {i : Nat} (hi : l[i]? = some s) : l.drop i = s :: l.drop (i + 1) := by
  obtain ⟨hlt, hget⟩ := List.getElem?_eq_some_iff.1 hi
  rw [List.drop_eq_getElem_cons hlt, hget]

theorem sees_iff {depth : Int} {i k : Nat} (hi : l[i]? = some s) :
    Sees l depth i k ↔ k = i ∧ openDefinitions depth s.opcode ≤ 0 ∨
      Sees l (openDefinitions depth s.opcode) (i + 1) k := by
  unfold Sees
  rw [drop_of_getElem? hi]
  rcases Nat.lt_trichotomy k i with hlt | rfl | hgt
  · constructor
    · rintro ⟨h, -⟩
      omega
    · rintro (⟨h, -⟩ | ⟨h, -⟩) <;> omega
  · rw [Nat.sub_self, seenAt_zero]
    constructor
    · rintro ⟨-, h⟩
      exact .inl ⟨rfl, h⟩
    · rintro (⟨-, h⟩ | ⟨h, -⟩)
      · exact ⟨Nat.le_refl k, h⟩
      · omega
  · rw [show k - i = (k - (i + 1)) + 1 by omega, seenAt_succ]
    constructor
    · rintro ⟨-, h⟩
      exact .inr ⟨hgt, h⟩
    · rintro (⟨h, -⟩ | ⟨-, h⟩)
      · omega
      · exact ⟨Nat.le_of_lt hgt, h⟩

/-- **What a search does**: it enters the labels that it sees up to where it ends. -/
theorem scanned_seek (ha : a.context.calls = []) (file target : String) (depth : Int) (i : Nat) :
    ∃ stop, Scanned file l (fun k => Sees l depth i k ∧ k < stop) a.openLabels
        (a.seek file target depth i (l.drop i)).1.openLabels ∧
      Searched l target (Sees l depth i) stop (a.seek file target depth i (l.drop i)).2 := by
  induction hn : l.length - i generalizing a depth i with
  | zero =>
    -- the search is behind the last statement
    have hnone (k : Nat) (hk : Sees l depth i k) : l[k]? = none :=
      List.getElem?_eq_none_iff.2 (by have := hk.1; omega)
    rw [List.drop_eq_nil_of_le (by omega), seek]
    refine ⟨l.length, .refl fun k n hk => ?_, .failed (Nat.le_refl _) fun k s hk hs => ?_⟩
    · unfold labelAt?
      rw [hnone k hk.1]
      simp
    · rw [hnone k hk] at hs
      simp at hs
  | succ n ih =>
    have hi : l[i]? = some l[i] := List.getElem?_eq_getElem (by omega)
    rw [drop_of_getElem? hi, seek]
    generalize l[i] = s at hi
    dsimp only
    by_cases hin : 0 < openDefinitions depth s.opcode
    · -- the statement lies within a definition
      rw [if_pos hin]
      have hsees : Sees l (openDefinitions depth s.opcode) (i + 1) = Sees l depth i := by
        funext k
        rw [sees_iff hi]
        exact propext ⟨.inr, fun h => h.resolve_left fun h => by omega⟩
      have := ih ha (openDefinitions depth s.opcode) (i + 1) (by omega)
      rwa [hsees] at this
    · rw [if_neg hin]
      have hnote := scanned_noteLabel ha file hi
      have hhere : Sees l depth i i := (sees_iff hi).2 (.inl ⟨rfl, by omega⟩)
      by_cases hlabel : s.hasLabel target
      · -- the search ends here
        rw [if_pos hlabel]
        refine ⟨i + 1, hnote.congr fun k => ⟨?_, fun h => ?_⟩, .found hhere hi hlabel⟩
        · rintro rfl
          exact ⟨hhere, Nat.lt_succ_self k⟩
        · have := h.1.1
          omega
      · rw [if_neg hlabel]
        have hcalls := (holds_noteLabel ha file i s).calls_eq_nil ha
        obtain ⟨stop, h1, h2⟩ := ih hcalls (openDefinitions depth s.opcode) (i + 1) (by omega)
        have hsees (k : Nat) : Sees l depth i k ↔
            k = i ∨ Sees l (openDefinitions depth s.opcode) (i + 1) k := by
          rw [sees_iff hi]
          exact or_congr_left ⟨And.left, fun h => ⟨h, by omega⟩⟩
        have hstop := h2.lt_stop (fun k hk => Nat.le_of_succ_le hk.1) (by omega)
        refine ⟨stop, (hnote.trans h1).congr fun k => ?_, ?_⟩
        · rw [hsees]
          constructor
          · rintro (rfl | ⟨hk, hlt⟩)
            · exact ⟨.inl rfl, hstop⟩
            · exact ⟨.inr hk, hlt⟩
          · rintro ⟨rfl | hk, hlt⟩
            · exact .inl rfl
            · exact .inr ⟨hk, hlt⟩
        · refine h2.mono (fun k hk => (hsees k).2 (.inr hk)) fun k s' hk hs' hl => ?_
          rcases (hsees k).1 hk with rfl | hk
          · obtain rfl := Option.some.inj (hi.symm.trans hs')
            exact absurd hl hlabel
          · exact hk

variable {p : Activation}

/-- The target of a branch in open code, in terms of the table of labels. -/
theorem target?_of_openCode (ha : a.context.calls = []) (hp : p.definition? = none) (name : String) :
    a.target? p name = match (a.openLabels.find? name).filter (·.location.file == p.file) with
      | some l => (a, some l.offset)
      | none =>
        let r := (a.mapContext (·.pushLevel .lookahead)).seek p.file name 0 (p.index + 1)
          (p.statements.toList.drop (p.index + 1))
        ({ r.1 with context :=
          { r.1.context with levels := a.context.levels, sources := a.context.sources } }, r.2) := by
  have hfind : a.context.sequenceSymbol? name = a.openLabels.find? name := by
    unfold Context.sequenceSymbol? Context.invocation?
    rw [ha]
    rfl
  have hahead : (p.statements.extract (p.index + 1) p.statements.size).toList =
      p.statements.toList.drop (p.index + 1) := by
    rw [Array.toList_extract, List.extract_eq_take_drop]
    exact List.take_of_length_le (Nat.le_of_eq (by rw [List.length_drop, Array.length_toList]))
  unfold target?
  rw [hp]
  dsimp only
  rw [hfind, hahead]
  cases (a.openLabels.find? name).filter (·.location.file == p.file) with
  | some l => rfl
  | none =>
    have hlevel := attempt_popLevel (a := a) (l := ⟨.lookahead, false⟩) (s := a.context.sources) rfl
      (holds_seek (a := a.mapContext (·.pushLevel .lookahead)) ha p.file name 0 (p.index + 1)
        (p.statements.toList.drop (p.index + 1))).toStays
    dsimp only
    rw [hlevel]

/-- The target of a branch in open code is looked up, and searched for if it is not known in the file. -/
theorem target?_cases (ha : a.context.calls = []) (hp : p.definition? = none) (name : String) :
    (∃ e, a.openLabels.find? name = some e ∧ e.location.file = p.file ∧
      a.target? p name = (a, some e.offset)) ∨
    (∀ e, a.openLabels.find? name = some e → e.location.file ≠ p.file) ∧
      ∃ stop, Scanned p.file p.statements.toList
          (fun k => Sees p.statements.toList 0 (p.index + 1) k ∧ k < stop) a.openLabels
          (a.target? p name).1.openLabels ∧
        Searched p.statements.toList name (Sees p.statements.toList 0 (p.index + 1)) stop
          (a.target? p name).2 := by
  rw [target?_of_openCode ha hp]
  cases hf : (a.openLabels.find? name).filter (·.location.file == p.file) with
  | some e =>
    obtain ⟨h1, h2⟩ := Option.filter_eq_some_iff.1 hf
    exact .inl ⟨e, h1, eq_of_beq h2, rfl⟩
  | none =>
    refine .inr ⟨fun e he => ?_, ?_⟩
    · have := Option.filter_eq_none_iff.1 hf e he
      simpa using this
    · exact scanned_seek (a := a.mapContext (·.pushLevel .lookahead)) (l := p.statements.toList) ha p.file
        name 0 (p.index + 1)

end Search

end Assembly

end AssemblerIndex
