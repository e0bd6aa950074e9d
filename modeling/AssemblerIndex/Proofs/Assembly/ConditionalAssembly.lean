import AssemblerIndex.Assembly.Step

/-!
# What conditional assembly leaves alone

Declaring and assigning SET symbols, noting labels and branching change variables, labels and the branch counter.

* `trail` — what tells where processing stands, with the macros and the symbols;
* `annals` — what has been recorded of macros and occurrences;
* `standing` — both, with the table of symbols; conditional assembly leaves it alone (`standing_conditional?`).

There is one lemma for each operation, named after it.
-/

namespace AssemblerIndex

/-- The macros of an assembly, and what has been recorded of them and of occurrences. -/
structure Annals where
  macros : Table MacroDefinition
  registrations : Nat
  occurrences : FileOccurrences
  records : List MacroRecord

namespace Assembly

/-- What tells where processing stands, the macros and the symbols. -/
def trail (a : Assembly) :=
  (a.context.base, a.context.calls.map (·.invocation), a.context.macros, a.context.symbols.symbols)

/-- What has been recorded of macros and occurrences. -/
def annals (a : Assembly) : Annals :=
  ⟨a.context.macros, a.context.registrations, a.occurrences, a.records⟩

/-- What conditional assembly leaves alone. -/
def standing (a : Assembly) := ((a.trail, a.context.symbols), a.annals)

section

variable {a b : Assembly}

theorem standing_mapScope (a : Assembly) (f : Scope → Scope) : (a.mapContext (·.mapScope f)).standing = a.standing := by
  unfold mapContext Context.mapScope standing trail annals
  dsimp only
  cases a.context.calls <;> rfl

theorem standing_declareLocal (a : Assembly) (name : String) (type : SetType) (isScalar : Bool) :
    (a.mapContext (·.declareLocal name type isScalar)).standing = a.standing := by
  unfold mapContext Context.declareLocal
  dsimp only
  split
  · rfl
  · exact standing_mapScope ..

theorem standing_declareGlobal (a : Assembly) (name : String) (type : SetType) (isScalar : Bool) :
    (a.mapContext (·.declareGlobal name type isScalar)).standing = a.standing := by
  unfold mapContext Context.declareGlobal
  dsimp only
  split
  · exact standing_mapScope ..
  · exact standing_mapScope { a with context := { a.context with globals := a.context.globals.insert name _ } } _

theorem standing_declaration (a : Assembly) (p : Activation) (name : String) (type : SetType) (isGlobal : Bool)
    (pos : Position) : (a.declaration p name type isGlobal pos).standing = a.standing := by
  unfold declaration
  split <;> rfl

theorem standing_declareOperands (p : Activation) (opcode : String) (a : Assembly) (os : List Field) :
    (os.foldl (declareOperand p opcode) a).standing = a.standing := by
  induction os generalizing a with
  | nil => rfl
  | cons o rest ih =>
    refine (ih _).trans ?_
    unfold declareOperand
    split
    · rfl
    · refine (standing_declaration ..).trans ?_
      split
      · exact standing_declareGlobal (a.meet _) ..
      · exact standing_declareLocal (a.meet _) ..

theorem standing_assignOperands (a : Assembly) (name : String) (type : SetType) (base : Option Nat) (os : List Field) :
    (a.assignOperands name type base os).standing = a.standing := by
  induction os generalizing a base with
  | nil => rfl
  | cons o rest ih =>
    unfold assignOperands
    split
    · rename_i x hx
      refine (ih _ _).trans ?_
      unfold Context.assign? at hx
      split at hx
      · obtain rfl := Option.some.inj hx
        exact standing_mapScope ..
      · obtain ⟨s, -, rfl⟩ := Option.map_eq_some_iff.1 hx
        rfl
      · obtain ⟨s, -, rfl⟩ := Option.map_eq_some_iff.1 hx
        rfl
      · cases hx
    · rfl

theorem standing_assign (a : Assembly) (p : Activation) (s : Statement) (opcode : String) :
    (a.assign p s opcode).standing = a.standing := by
  unfold assign
  split
  · rfl
  · dsimp only
    refine (standing_assignOperands ..).trans ?_
    split
    · exact (standing_declaration ..).trans (standing_declareLocal (a.meet _) ..)
    · rfl

theorem standing_noteLabel (a : Assembly) (file : String) (index : Nat) (s : Statement) :
    (a.noteLabel file index s).standing = a.standing := by
  unfold noteLabel attempt Context.addSequenceSymbol
  split
  · rfl
  · dsimp only
    split
    · rename_i hx
      split at hx
      · cases hx
      · split at hx <;> (obtain rfl := Except.ok.inj hx; rfl)
    · rfl

theorem standing_seek (a : Assembly) (file target : String) (depth : Int) (index : Nat) (ss : List Statement) :
    (a.seek file target depth index ss).1.standing = a.standing := by
  induction ss generalizing a depth index with
  | nil => rfl
  | cons s rest ih =>
    unfold seek
    dsimp only
    split
    · exact ih ..
    · split
      · exact standing_noteLabel ..
      · exact (ih ..).trans (standing_noteLabel ..)

theorem standing_popLevel (a : Assembly) : (a.attempt Context.popLevel).standing = a.standing := by
  unfold attempt Context.popLevel
  cases a.context.levels <;> rfl

theorem standing_target? (a : Assembly) (p : Activation) (name : String) : (a.target? p name).1.standing = a.standing := by
  unfold target?
  split
  · rfl
  · dsimp only
    split
    · rfl
    · exact (standing_popLevel _).trans (standing_seek (a.mapContext (·.pushLevel .lookahead)) ..)

theorem standing_follow (a : Assembly) (p : Activation) (target : Option String) :
    (a.follow p target).1.standing = a.standing ∧ ∀ l, (a.follow p target).2 ≠ .enter l := by
  unfold follow
  split
  · rename_i target
    unfold branch
    dsimp only
    have ht := standing_target? (a.meet [Text.upper target]) p (Text.upper target)
    split
    · rename_i a' i ha'
      rw [ha'] at ht
      have hcount := (standing_mapScope a' fun s => { s with branchCounter := s.branchCounter - 1 }).trans ht
      split
      · exact ⟨hcount, nofun⟩
      · exact ⟨hcount, nofun⟩
    · rename_i a' ha'
      rw [ha'] at ht
      exact ⟨ht, nofun⟩
  · exact ⟨rfl, nofun⟩

/-- Conditional assembly moves nothing and enters nothing. -/
theorem standing_conditional? {p : Activation} {s : Statement} {opcode : String} {flow : Flow}
    (h : a.conditional? p s opcode = some (b, flow)) : b.standing = a.standing ∧ ∀ l, flow ≠ .enter l := by
  unfold conditional? at h
  split at h
  · obtain ⟨rfl, rfl⟩ := Prod.mk.inj (Option.some.inj h)
    exact ⟨standing_declareOperands .., nofun⟩
  · split at h
    · obtain ⟨rfl, rfl⟩ := Prod.mk.inj (Option.some.inj h)
      exact ⟨standing_assign .., nofun⟩
    · have hfollow {target : Option String} (h : a.follow p target = (b, flow)) := by
        have := standing_follow a p target
        rwa [h] at this
      split at h
      · exact hfollow (Option.some.inj h)
      · exact hfollow (Option.some.inj h)
      · obtain ⟨rfl, rfl⟩ := Prod.mk.inj (Option.some.inj h)
        exact ⟨standing_mapScope .., nofun⟩
      · obtain ⟨rfl, rfl⟩ := Prod.mk.inj (Option.some.inj h)
        refine ⟨rfl, fun l => ?_⟩
        split <;> exact nofun
      all_goals
        first
        | obtain ⟨rfl, rfl⟩ := Prod.mk.inj (Option.some.inj h)
          exact ⟨rfl, nofun⟩
        | cases h

end

end Assembly

end AssemblerIndex
