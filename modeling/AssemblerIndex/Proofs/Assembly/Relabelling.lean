import AssemblerIndex.Proofs.Assembly.CoreStatements
import AssemblerIndex.Proofs.Assembly.Labels

/-!
# Labels at other indices

Two listings that differ in statements without labels have the same labels at other indices.  A map `g` of
sequence symbols says which index belongs to which; what enters or searches a label on the one side does so
on the other side, and lands at the index that belongs to it.
-/

namespace AssemblerIndex

/-- The statement neither carries a sequence symbol nor opens or closes a block. -/
structure Statement.IsPlain (s : Statement) : Prop where
  unlabelled : s.sequenceLabel? = none
  notMacro : s.opcode ≠ "MACRO"
  notMend : s.opcode ≠ "MEND"

/-- The lists from the indices `i` and `j` on have the same labels, up to plain statements; `f` maps the
indices of the one list to those of the other. -/
inductive Facing (f : Nat → Nat) : Nat → List Statement → Nat → List Statement → Prop
  | nil (i j : Nat) : Facing f i [] j []
  | both {i j : Nat} {s : Statement} {l m : List Statement} (hj : f i = j)
    (h : Facing f (i + 1) l (j + 1) m) : Facing f i (s :: l) j (s :: m)
  | left {i j : Nat} {s : Statement} {l m : List Statement} (hs : s.IsPlain)
    (h : Facing f (i + 1) l j m) : Facing f i (s :: l) j m
  | right {i j : Nat} {s : Statement} {l m : List Statement} (hs : s.IsPlain)
    (h : Facing f i l (j + 1) m) : Facing f i l j (s :: m)

theorem Statement.IsPlain.openDefinitions {s : Statement} (h : s.IsPlain) (depth : Int) :
    openDefinitions depth s.opcode = depth := by
  unfold AssemblerIndex.openDefinitions
  rw [if_neg h.notMacro, if_neg h.notMend]

theorem Statement.hasLabel_of_unlabelled {s : Statement} (h : s.sequenceLabel? = none) (name : String) :
    s.hasLabel name = false := by
  unfold Statement.hasLabel Statement.labelText fieldText
  unfold Statement.sequenceLabel? at h
  split
  · rename_i label hl
    cases hf : s.label with
    | none => simp [hf] at hl
    | some f =>
      obtain ⟨text, span⟩ := f
      rw [hf] at hl h
      dsimp only at hl
      subst hl
      simp at h
  · rfl

section Facing

variable {f : Nat → Nat}

/-- A list faces itself. -/
theorem facing_self (l : List Statement) {i j : Nat} (h : ∀ k, f (i + k) = j + k) : Facing f i l j l := by
  induction l generalizing i j with
  | nil => exact .nil i j
  | cons s l ih =>
    refine .both (h 0) (ih fun k => ?_)
    have := h (k + 1)
    rwa [← Nat.add_assoc, ← Nat.add_assoc, Nat.add_right_comm i, Nat.add_right_comm j] at this

theorem Facing.append_right {l m : List Statement} (b : List Statement) (hb : ∀ s ∈ b, s.IsPlain) {i j : Nat}
    (h : Facing f i l (j + b.length) m) : Facing f i l j (b ++ m) := by
  induction b generalizing j with
  | nil => exact h
  | cons s b ih =>
    refine .right (hb s List.mem_cons_self) (ih (fun s hs => hb s (List.mem_cons_of_mem _ hs)) ?_)
    rwa [List.length_cons, Nat.add_comm b.length, ← Nat.add_assoc] at h

theorem Facing.append_both {l m : List Statement} (b : List Statement) {i j : Nat}
    (hf : ∀ k < b.length, f (i + k) = j + k) (h : Facing f (i + b.length) l (j + b.length) m) :
    Facing f i (b ++ l) j (b ++ m) := by
  induction b generalizing i j with
  | nil => exact h
  | cons s b ih =>
    refine .both (hf 0 (by simp)) (ih (fun k hk => ?_) ?_)
    · have := hf (k + 1) (by simpa using hk)
      rwa [← Nat.add_assoc, ← Nat.add_assoc, Nat.add_right_comm i, Nat.add_right_comm j] at this
    · rwa [List.length_cons, Nat.add_comm b.length, ← Nat.add_assoc, ← Nat.add_assoc] at h

end Facing

namespace Assembly

/-- The tables have the same labels; `g` says at which index. -/
def Relabelled (g : SequenceSymbol → SequenceSymbol) (t t' : Table SequenceSymbol) : Prop :=
  ∀ n, t'.find? n = (t.find? n).map g

section Labels

variable {g : SequenceSymbol → SequenceSymbol} {f : Nat → Nat} {file : String} {a b : Assembly}

/-- The map of sequence symbols moves the labels of the file as `f` says, and none to another file. -/
structure Moves (g : SequenceSymbol → SequenceSymbol) (f : Nat → Nat) (file : String) : Prop where
  sameFile (l : SequenceSymbol) : (g l).location.file = l.location.file
  moved (l : SequenceSymbol) (h : l.location.file = file) : g l = { l with offset := f l.offset }

theorem noteLabel_of_unlabelled {s : Statement} (hs : s.sequenceLabel? = none) (a : Assembly)
    (file : String) (i : Nat) : a.noteLabel file i s = a := by
  unfold noteLabel
  rw [hs]

/-- A search passes over plain statements. -/
theorem seek_cons_of_isPlain {s : Statement} (hs : s.IsPlain) (a : Assembly) (file target : String)
    (depth : Int) (i : Nat) (l : List Statement) :
    a.seek file target depth i (s :: l) = a.seek file target depth (i + 1) l := by
  rw [seek, hs.openDefinitions, Statement.hasLabel_of_unlabelled hs.unlabelled,
    noteLabel_of_unlabelled hs.unlabelled]
  dsimp only
  split
  · rfl
  · exact if_neg Bool.false_ne_true

theorem Relabelled.noteLabel (h : Relabelled g a.openLabels b.openLabels) (hg : Moves g f file)
    (ha : a.context.calls = []) (hb : b.context.calls = []) (i : Nat) (s : Statement) :
    Relabelled g (a.noteLabel file i s).openLabels (b.noteLabel file (f i) s).openLabels := by
  cases hs : s.sequenceLabel? with
  | none =>
    rw [noteLabel_of_unlabelled hs, noteLabel_of_unlabelled hs]
    exact h
  | some r =>
    obtain ⟨name, pos⟩ := r
    obtain ⟨t, hx, ht⟩ := exists_addSequenceSymbol (x := (a.meet [name]).context) ha
      ⟨name, ⟨file, pos⟩, i⟩
    obtain ⟨t', hx', ht'⟩ := exists_addSequenceSymbol (x := (b.meet [name]).context) hb
      ⟨name, ⟨file, pos⟩, f i⟩
    unfold Assembly.noteLabel
    rw [hs]
    dsimp only
    rw [attempt_of_ok (f := (·.addSequenceSymbol _)) hx, attempt_of_ok (f := (·.addSequenceSymbol _)) hx']
    intro n
    have hn : t.find? n = if a.openLabels.find? name = none ∧ n = name then some ⟨name, ⟨file, pos⟩, i⟩
      else a.openLabels.find? n := ht n
    have hn' : t'.find? n = if b.openLabels.find? name = none ∧ n = name then
      some ⟨name, ⟨file, pos⟩, f i⟩ else b.openLabels.find? n := ht' n
    have hnone : b.openLabels.find? name = none ↔ a.openLabels.find? name = none := by
      rw [h name, Option.map_eq_none_iff]
    show t'.find? n = (t.find? n).map g
    rw [hn, hn']
    by_cases hnew : a.openLabels.find? name = none ∧ n = name
    · rw [if_pos hnew, if_pos ⟨hnone.2 hnew.1, hnew.2⟩, Option.map_some, hg.moved _ rfl]
    · rw [if_neg hnew, if_neg fun h' => hnew ⟨hnone.1 h'.1, h'.2⟩]
      exact h n

/-- **Searches land at indices that belong to each other.** -/
theorem Relabelled.seek {i j : Nat} {l m : List Statement} (hl : Facing f i l j m)
    (h : Relabelled g a.openLabels b.openLabels) (hg : Moves g f file) (ha : a.context.calls = [])
    (hb : b.context.calls = []) (target : String) (depth : Int) :
    Relabelled g (a.seek file target depth i l).1.openLabels (b.seek file target depth j m).1.openLabels ∧
      (b.seek file target depth j m).2 = (a.seek file target depth i l).2.map f := by
  induction hl generalizing a b depth with
  | nil i j => exact ⟨h, rfl⟩
  | @both i j s l m hj hl ih =>
    subst hj
    unfold Assembly.seek
    dsimp only
    split
    · exact ih h ha hb _
    · have hn := h.noteLabel hg ha hb i s
      split
      · exact ⟨hn, rfl⟩
      · exact ih hn ((holds_noteLabel ha ..).calls_eq_nil ha) ((holds_noteLabel hb ..).calls_eq_nil hb) _
  | left hs _ ih =>
    rw [seek_cons_of_isPlain hs]
    exact ih h ha hb depth
  | right hs _ ih =>
    rw [seek_cons_of_isPlain hs]
    exact ih h ha hb depth

theorem core_seek (a : Assembly) (file target : String) (depth : Int) (i : Nat) (l : List Statement) :
    (a.seek file target depth i l).1.core = a.core := by
  induction l generalizing a depth i with
  | nil => rfl
  | cons s rest ih =>
    unfold seek
    dsimp only
    split
    · exact ih ..
    · split
      · exact core_noteLabel ..
      · exact (ih ..).trans (core_noteLabel ..)

variable {p q : Activation}

theorem core_target? (ha : a.context.calls = []) (hp : p.definition? = none) (name : String) :
    (a.target? p name).1.core = a.core := by
  rw [target?_of_openCode ha hp]
  cases (a.openLabels.find? name).filter (·.location.file == p.file) with
  | some l => rfl
  | none =>
    have hs := core_seek (a.mapContext (·.pushLevel .lookahead)) p.file name 0 (p.index + 1)
      (p.statements.toList.drop (p.index + 1))
    obtain ⟨h1, h2, h3, h4⟩ := core_eq_iff.1 hs
    exact core_eq_iff.2 ⟨congrArg (fun x : Context =>
      { x with levels := a.context.levels, sources := a.context.sources }) h1, h2, h3, h4⟩

/-- What is behind the statements of the activations is the same up to plain statements; `f` maps the
indices of the one listing to those of the other. -/
structure Matching (f : Nat → Nat) (file : String) (p q : Activation) : Prop where
  left : p.definition? = none
  right : q.definition? = none
  leftFile : p.file = file
  rightFile : q.file = file
  index : q.index = f p.index
  ahead : Facing f (p.index + 1) (p.statements.toList.drop (p.index + 1)) (q.index + 1)
    (q.statements.toList.drop (q.index + 1))

/-- The targets of branches belong to each other. -/
theorem Relabelled.target? (h : Relabelled g a.openLabels b.openLabels) (hg : Moves g f file)
    (hm : Matching f file p q) (ha : a.context.calls = []) (hb : b.context.calls = []) (name : String) :
    Relabelled g (a.target? p name).1.openLabels (b.target? q name).1.openLabels ∧
      (b.target? q name).2 = (a.target? p name).2.map f := by
  have hfilter : (b.openLabels.find? name).filter (·.location.file == file) =
      ((a.openLabels.find? name).filter (·.location.file == file)).map g := by
    rw [h name]
    cases a.openLabels.find? name with
    | none => rfl
    | some l =>
      rw [Option.map_some, Option.filter_some, Option.filter_some, hg.sameFile]
      split <;> rfl
  rw [target?_of_openCode ha hm.left, target?_of_openCode hb hm.right, hm.leftFile, hm.rightFile, hfilter]
  cases hl : (a.openLabels.find? name).filter (·.location.file == file) with
  | some l =>
    have hfile : l.location.file = file := eq_of_beq (Option.filter_eq_some_iff.1 hl).2
    refine ⟨h, ?_⟩
    dsimp only [Option.map_some]
    rw [hg.moved l hfile]
  | none =>
    exact Relabelled.seek (a := a.mapContext (·.pushLevel .lookahead))
      (b := b.mapContext (·.pushLevel .lookahead)) hm.ahead h hg ha hb name 0

end Labels

/-! ### Statements of open code -/

section Statements

variable {g : SequenceSymbol → SequenceSymbol} {f : Nat → Nat} {file : String} {a b : Assembly}
  {p q : Activation}

/-- Preparing a statement of open code enters its label. -/
theorem openLabels_prepare (hp : p.definition? = none) (s : Statement) :
    (a.prepare p s).openLabels = (a.noteLabel p.file p.index s).openLabels := by
  unfold prepare noteStatement
  rw [hp]
  have hm := spares_macro? (a.noteLabel p.file p.index s) s.opcode
  dsimp only [Option.isSome_none]
  generalize (a.noteLabel p.file p.index s).macro? s.opcode = r at hm ⊢
  exact hm.labels

theorem Relabelled.prepare (hl : Relabelled g a.openLabels b.openLabels) (hg : Moves g f file)
    (hm : Matching f file p q) (ha : a.context.calls = []) (hb : b.context.calls = []) (s : Statement) :
    Relabelled g (a.prepare p s).openLabels (b.prepare q s).openLabels := by
  rw [openLabels_prepare hm.left, openLabels_prepare hm.right, hm.leftFile, hm.rightFile, hm.index]
  exact hl.noteLabel hg ha hb p.index s

/-- The labels stay as they are in the body of a macro and where a statement does not branch. -/
theorem openLabels_of_executed {opcode : String} {flow : Flow} (h : Executed a p opcode b flow)
    (hd : p.definition? = none → a.context.calls = []) (hs : a.context.sources = [])
    (hop : a.context.calls ≠ [] ∨ opcode ≠ "AGO" ∧ opcode ≠ "AIF") : b.openLabels = a.openLabels := by
  cases h with
  | next hy => exact hy.labels
  | counter hy n _ => exact (openLabels_setBranchCounter ..).trans hy.labels
  | exit hy => exact hy.labels
  | call hy c _ _ => exact hy.labels
  | copy hy m found _ _ _ _ =>
    rw [opened_of_nil (hy.sources.trans hs)]
    exact hy.labels
  | branch hy target hb isBranch =>
    have hcalls := hop.resolve_right fun h => isBranch.elim h.1 h.2
    have hy' := hy.calls_ne_nil hcalls
    rcases branch_cases (fun hp => absurd (hd hp) hcalls) hb with ⟨-, hz⟩ | ⟨z, hz, rfl, -⟩
    · exact (openLabels_of_stays hz.toStays hy').trans hy.labels
    · exact (openLabels_countBranch z).trans ((openLabels_of_stays hz.toStays hy').trans hy.labels)

theorem ne_jump_of_executed {opcode : String} {flow : Flow} (h : Executed a p opcode b flow)
    (hop : opcode ≠ "AGO" ∧ opcode ≠ "AIF") (i : Nat) : flow ≠ .jump i := by
  cases h with
  | branch _ _ _ isBranch => exact absurd isBranch (not_or.2 hop)
  | _ => nofun

/-- A statement that branches is a branch to the target that it names. -/
theorem process_of_isBranch {s : Statement}
    (hop : (a.prepare p s).context.operation s.opcode = "AGO" ∨
      (a.prepare p s).context.operation s.opcode = "AIF") :
    a.process p s = .ok ((a.prepare p s).follow p
      (if (a.prepare p s).context.operation s.opcode = "AGO" then (a.prepare p s).alwaysTarget? s.operands
        else (a.prepare p s).trueTarget? s.operands)) := by
  unfold process
  dsimp only
  rcases hop with h | h
  · rw [h]
    rfl
  · rw [h]
    rfl

end Statements

end Assembly

end AssemblerIndex
