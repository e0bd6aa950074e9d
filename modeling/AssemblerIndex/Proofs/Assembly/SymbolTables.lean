import AssemblerIndex.Proofs.Assembly.SymbolStacks
import AssemblerIndex.Proofs.Symbol.FirstDefinitions
import AssemblerIndex.Proofs.Symbol.Sums

/-!
# The table of symbols in a run

Only ordinary statements change the table of symbols, and they do so by operations on it.

* `ordinaryStatement?` — the ordinary statement that the next step processes, if it processes one;
* `ordinary_of_step` — **a step keeps the table of symbols, or does with it what that statement does**;
* `Operates` — from one assembly to another there were operations on the table;
* `Reaches.exists_operations` — **the table of a run comes about by operations on the empty one**, so it is coherent;
* `value?_perform` — symbols keep their values.
-/

namespace AssemblerIndex

/-- A statement that is processed as an ordinary one: its file, the statement without variable symbols, and the
operation that its operation code stands for. -/
structure OrdinaryStatement where
  file : String
  statement : Statement
  opcode : String

/-! ### Values of symbols -/

namespace SymbolTable

variable {t u : SymbolTable} {name : String} {value : SymbolValue}

theorem value?_of_symbols (h : u.symbols = t.symbols) (name : String) : u.value? name = t.value? name := by
  rw [value?, find?_of_symbols h, value?]

/-- A symbol that is defined under a free name has its value. -/
theorem value?_define_of_none {s : Symbol} (hne : s.name ≠ "") (hfree : t.find? s.name = none) :
    (t.define s).value? s.name = some s.value := by
  rw [value?, find?_define_eq t s hne, hfree, Option.none_or, if_pos rfl, Option.map_some]

/-- **Symbols keep their values.** -/
theorem value?_perform (h : t.value? name = some value) (ops : List Operation) :
    (t.perform ops).value? name = some value := by
  obtain ⟨s, hs, hvalue⟩ := Option.map_eq_some_iff.1 h
  rw [value?, find?_perform_of_some hs, Option.map_some, hvalue]

end SymbolTable

namespace Assembly

/-! ### Ordinary statements -/

/-- The operation under which a statement without variable symbols is processed as an ordinary one, and the assembly
that processes it. -/
def ordinaryOperation? (a : Assembly) (s : Statement) : Option (Assembly × String) :=
  if s.opcode.isEmpty then none
  else
    let a := a.meet [s.opcode]
    let opcode := a.context.operation s.opcode
    if opcode.isEmpty ∨ opcode = "COPY" ∨ opcode = "END" then none
    else match a.macro? opcode with
      | (_, some _) => none
      | (a, none) => some (a, opcode)

/-- The ordinary statement that processing a statement comes to. -/
def ordinaryBehind? (a : Assembly) (p : Activation) (s : Statement) : Option OrdinaryStatement :=
  let a := a.prepare p s
  if (a.conditional? p s (a.context.operation s.opcode)).isSome then none
  else
    let s := s.substituted a.context
    (a.ordinaryOperation? s).map fun r => ⟨p.file, s, r.2⟩

/-- The ordinary statement that the next step processes. -/
def ordinaryStatement? (a : Assembly) : Option OrdinaryStatement :=
  match a.control with
  | [] => none
  | p :: _ =>
    match p.statement? with
    | none => none
    | some s =>
      if s.opcode = "MACRO" ∨ s.opcode = "MEND" ∧ p.definition?.isSome then none
      else (a.moveTo p s).ordinaryBehind? p s

section Steps

variable {a b : Assembly} {p : Activation} {s : Statement} {flow : Flow}

theorem symbols_leave (a : Assembly) : a.leave.context.symbols = a.context.symbols := congrArg Prod.snd (lore_leave a)

theorem symbols_proceed (a : Assembly) (p : Activation) (outer : List Activation) (flow : Flow) :
    (a.proceed p outer flow).context.symbols = a.context.symbols :=
  congrArg Prod.snd (lore_proceed a p outer flow)

theorem symbols_readDefinition (a : Assembly) (p : Activation) (outer : List Activation) :
    (a.readDefinition p outer).context.symbols = a.context.symbols := by
  unfold readDefinition
  refine (symbols_proceed ..).trans ?_
  split
  · exact symbols_define ..
  · exact (learns_popLevel ..).symbols.trans (symbols_define ..)

theorem symbols_prepare (a : Assembly) (p : Activation) (s : Statement) :
    (a.prepare p s).context.symbols = a.context.symbols := by
  unfold prepare
  refine (learns_meet ..).symbols.trans ?_
  split
  · rfl
  · unfold noteStatement
    dsimp only
    refine (learns_meet ((a.noteLabel p.file p.index s).macro? s.opcode).1 _).symbols.trans ?_
    exact (learns_macro? ..).symbols.trans (congrArg (·.1.2) (standing_noteLabel ..))

theorem symbols_callMacro (a : Assembly) (d : MacroDefinition) (s : Statement) :
    (a.callMacro d s).1.context.symbols = a.context.symbols := by
  unfold callMacro
  split
  · rfl
  · dsimp only
    generalize s.operands.map (fun o => Argument.ofText o.text) = args
    generalize hmet : a.meet (args.filterMap (·.keyword)) = b
    have hsymbols : b.context.symbols = a.context.symbols := hmet ▸ rfl
    cases hd : b.context.macros.find? d.name with
    | none =>
      have hx : b.context.enterMacro d.name (labelData? s) args = .error (.unknownMacro d.name) := by
        rw [Context.enterMacro, hd]
      rw [hx]
      exact hsymbols
    | some e =>
      obtain ⟨c, ns, v, hx, -⟩ := exists_enterMacro hd (labelData? s) args
      rw [hx]
      exact hsymbols

theorem symbols_copy (a : Assembly) (s : Statement) : (a.copy s).1.context.symbols = a.context.symbols := by
  unfold copy
  split
  · rename_i c cs _ _ _
    have hmember := (learns_copyMember? a (String.ofList (Text.upperChars (c :: cs)))).symbols
    split
    · rename_i x hx
      rw [hx] at hmember
      exact hmember
    · rename_i x m hx
      rw [hx] at hmember
      split
      · exact hmember
      · split
        · rename_i y hy
          unfold Context.enterCopy Context.mapSource at hy
          split at hy
          · obtain rfl := Except.ok.inj hy
            refine Eq.trans ?_ hmember
            dsimp only
            split <;> rfl
          · cases hy
        · exact hmember
  · rfl

/-- A statement without variable symbols keeps the table, or it is an ordinary one. -/
theorem ordinary_of_processSubstituted (h : a.processSubstituted p s = .ok (b, flow)) :
    (a.ordinaryOperation? s = none ∧ b.context.symbols = a.context.symbols) ∨
      ∃ x opcode, a.ordinaryOperation? s = some (x, opcode) ∧ x.context.symbols = a.context.symbols ∧
        x.ordinary p.file s opcode = .ok b := by
  unfold ordinaryOperation?
  rcases effect_of_processSubstituted h with ⟨hempty, rfl, -⟩ | ⟨hopcode, h⟩
  · exact .inl ⟨if_pos hempty, rfl⟩
  rw [if_neg hopcode]
  have hmeet := (learns_meet a [s.opcode]).symbols
  dsimp only
  generalize a.meet [s.opcode] = x at h hmeet ⊢
  generalize x.context.operation s.opcode = opcode at h ⊢
  rw [← hmeet]
  have hlookup := (learns_macro? x opcode).symbols
  cases h with
  | removed hempty => exact .inl ⟨if_pos (.inl hempty), rfl⟩
  | copyInMacro named => exact .inl ⟨if_pos (.inr (.inl named)), rfl⟩
  | copy named _ h =>
    have hcopy := symbols_copy x s
    rw [h] at hcopy
    exact .inl ⟨if_pos (.inr (.inl named)), hcopy⟩
  | finishInMacro named => exact .inl ⟨if_pos (.inr (.inr named)), rfl⟩
  | finish named => exact .inl ⟨if_pos (.inr (.inr named)), rfl⟩
  | @callMacro others d called _ _ h =>
    have hcall := symbols_callMacro (x.macro? opcode).1 d s
    rw [h] at hcall
    refine .inl ⟨?_, hcall.trans hlookup⟩
    rw [if_neg others]
    split
    · rfl
    · rename_i hnone
      cases called.symm.trans (congrArg Prod.snd hnone)
  | ordinary others noMacro ho =>
    refine .inr ⟨(x.macro? opcode).1, opcode, ?_, hlookup, ho⟩
    rw [if_neg others]
    split
    · rename_i hsome
      cases noMacro.symm.trans (congrArg Prod.snd hsome)
    · rename_i hnone
      rw [hnone]

/-- Processing a statement keeps the table, or it comes to an ordinary one. -/
theorem ordinary_of_process (h : a.process p s = .ok (b, flow)) :
    (a.ordinaryBehind? p s = none ∧ b.context.symbols = a.context.symbols) ∨
      ∃ (r : OrdinaryStatement) (x : Assembly), a.ordinaryBehind? p s = some r ∧
        x.context.symbols = a.context.symbols ∧ x.ordinary r.file r.statement r.opcode = .ok b := by
  have hprepare := symbols_prepare a p s
  unfold ordinaryBehind?
  dsimp only
  rcases process_cases h with hr | ⟨hr, h⟩
  · refine .inl ⟨by rw [hr]; rfl, ?_⟩
    exact (congrArg (·.1.2) (standing_conditional? hr).1).trans hprepare
  · rw [hr, if_neg (by simp), ← hprepare]
    rcases ordinary_of_processSubstituted h with ⟨hnone, hsymbols⟩ | ⟨y, opcode, hsome, hsymbols, ho⟩
    · exact .inl ⟨by rw [hnone]; rfl, hsymbols⟩
    · exact .inr ⟨_, y, by rw [hsome]; rfl, hsymbols, ho⟩

/-- **A step keeps the table of symbols, or does with it what the ordinary statement does** that it processes. -/
theorem ordinary_of_step (h : a.step = .ok b) :
    (a.ordinaryStatement? = none ∧ b.context.symbols = a.context.symbols) ∨
      ∃ (r : OrdinaryStatement) (x y : Assembly), a.ordinaryStatement? = some r ∧
        x.context.symbols = a.context.symbols ∧ x.ordinary r.file r.statement r.opcode = .ok y ∧
        b.context.symbols = y.context.symbols := by
  unfold ordinaryStatement?
  have hmove (p : Activation) (s : Statement) : (a.moveTo p s).context.symbols = a.context.symbols :=
    congrArg Prod.snd (lore_moveTo a p s)
  cases effect_of_step h with
  | finished control =>
    rw [control]
    exact .inl ⟨rfl, rfl⟩
  | behind control statement =>
    rw [control]
    dsimp only
    rw [statement]
    exact .inl ⟨rfl, symbols_leave a⟩
  | definition control statement opens =>
    rw [control]
    dsimp only
    rw [statement]
    exact .inl ⟨if_pos (.inl opens), (symbols_readDefinition ..).trans (hmove ..)⟩
  | mend control statement _ closes =>
    rw [control]
    dsimp only
    rw [statement]
    exact .inl ⟨if_pos (.inr closes), (symbols_leave _).trans (hmove ..)⟩
  | executed control statement opensNone closesNone run =>
    rw [control]
    dsimp only
    rw [statement]
    dsimp only
    rw [if_neg (not_or.2 ⟨opensNone, closesNone⟩), ← hmove]
    rcases ordinary_of_process run with ⟨hnone, hsymbols⟩ | ⟨r, x, hsome, hsymbols, ho⟩
    · exact .inl ⟨hnone, (symbols_proceed ..).trans hsymbols⟩
    · exact .inr ⟨r, x, _, hsome, hsymbols, ho, symbols_proceed ..⟩

end Steps

/-! ### Operations -/

/-- From `a` to `b` there were operations on the table of symbols. -/
def Operates (a b : Assembly) : Prop := ∃ ops, b.context.symbols = a.context.symbols.perform ops

section Operations

variable {a b c : Assembly} {file : String} {s : Statement}

theorem Operates.of_symbols (h : b.context.symbols = a.context.symbols) : a.Operates b := ⟨[], h⟩

theorem Operates.refl (a : Assembly) : a.Operates a := .of_symbols rfl

theorem Operates.trans (h : a.Operates b) (h' : b.Operates c) : a.Operates c := by
  obtain ⟨ops, hb⟩ := h
  obtain ⟨ops', hc⟩ := h'
  exact ⟨ops ++ ops', by rw [hc, hb, SymbolTable.perform_append]⟩

theorem Operates.of_apply (op : SymbolTable.Operation) (h : b.context.symbols = op.apply a.context.symbols) :
    a.Operates b :=
  ⟨[op], h⟩

theorem operates_align (a : Assembly) (n : Int32) : a.Operates (a.mapSymbols (·.align n)) :=
  .of_apply (.align n) rfl

theorem operates_reserve (a : Assembly) (n : Int32) : a.Operates (a.mapSymbols (·.reserve n)) :=
  .of_apply (.reserve n) rfl

theorem operates_defineLabel (a : Assembly) (file : String) (s : Statement) (value : SymbolValue)
    (attributes : SymbolAttributes) : a.Operates (a.defineLabel file s value attributes) := by
  unfold defineLabel
  split
  · exact .refl a
  · exact .of_apply (.define _) rfl

theorem operates_equate (a : Assembly) (file : String) (s : Statement) : a.Operates (a.equate file s) := by
  unfold equate
  split
  · exact .refl a
  · rename_i first _ _
    refine .trans ?_ (operates_defineLabel ..)
    rcases SymbolTable.sumTerms_fst a.context.symbols 0 none (signedTerms first.text) with h | h
    · exact .of_symbols h
    · exact .of_apply .ensureSection h

theorem operates_defineData {labelled : Bool} {os : List Field} (h : a.defineData file s labelled os = .ok b) :
    a.Operates b := by
  induction os generalizing a labelled with
  | nil => exact Except.ok.inj h ▸ .refl a
  | cons o rest ih =>
    unfold defineData at h
    split at h
    · exact ih h
    · cases h
    · rename_i d _
      refine (operates_align a d.alignment).trans (.trans ?_ ((operates_reserve _ d.size).trans (ih h)))
      split
      · exact .refl _
      · exact operates_defineLabel ..

theorem operates_ordinary {opcode : String} (h : a.ordinary file s opcode = .ok b) : a.Operates b := by
  cases effect_of_ordinary h with
  | startSection => exact .of_apply (.setSection ..) rfl
  | startCounter =>
    unfold startCounter
    split
    · exact .refl a
    · exact .of_apply (.setCounter ..) rfl
  | equate => exact operates_equate ..
  | defineData _ h => exact operates_defineData h
  | defineSynonym => exact .of_symbols (symbols_defineSynonym ..)
  | machine => exact (operates_align a 2).trans ((operates_defineLabel ..).trans (operates_reserve ..))
  | nothing => exact .refl a

theorem operates_step (h : a.step = .ok b) : a.Operates b := by
  rcases ordinary_of_step h with ⟨-, hb⟩ | ⟨r, x, y, -, hx, ho, hb⟩
  · exact .of_symbols hb
  · exact (Operates.of_symbols hx).trans ((operates_ordinary ho).trans (.of_symbols hb))

end Operations

section Runs

variable {file text : String} {library : Library} {settings : Settings} {now : Moment} {a : Assembly}

/-- From any point of a run to a later one there are operations on the table. -/
theorem Reaches.operates {b : Assembly} (h : a.Reaches b) : a.Operates b :=
  h.induction (P := fun x => a.Operates x) (fun _ _ hx hy => hx.trans (operates_step hy)) (.refl a)

/-- **The table of a run comes about by operations on the empty one.** -/
theorem Reaches.exists_operations (h : (fresh file text library settings now).Reaches a) :
    ∃ ops, a.context.symbols = ({} : SymbolTable).perform ops :=
  h.operates

/-- The table of a run is coherent. -/
theorem Reaches.coherent (h : (fresh file text library settings now).Reaches a) : a.context.symbols.Coherent := by
  obtain ⟨ops, hops⟩ := h.exists_operations
  exact hops ▸ SymbolTable.coherent_empty.perform ops

end Runs

end Assembly

end AssemblerIndex
