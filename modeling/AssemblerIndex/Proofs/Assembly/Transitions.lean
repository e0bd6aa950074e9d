import AssemblerIndex.Proofs.Assembly.SymbolStacks
import AssemblerIndex.Proofs.Context.Snapshots

/-!
# An assembly runs operations

Whatever an assembly does to the state of the assembler is a list of operations on it.  So what holds of the states that
operations lead to holds at every point of a run.

* `Transits` — operations lead from the state of one assembly to that of another;
* `transits_step` — **a step runs operations**;
* `Reaches.reached` — **a run comes to a state that operations lead to from the start**.

There is one lemma for each function, named after it.
-/

namespace AssemblerIndex.Assembly

open Context (Operation run_append after_eq mapSource_congr)

/-- Operations lead from the state of `a` to that of `b`. -/
def Transits (a b : Assembly) : Prop := ∃ ops, b.context = a.context.run ops

section

variable {a b c : Assembly}

theorem Transits.of_context (h : b.context = a.context) : a.Transits b := ⟨[], h⟩

theorem Transits.refl (a : Assembly) : a.Transits a := .of_context rfl

theorem Transits.trans (h : a.Transits b) (h' : b.Transits c) : a.Transits c := by
  obtain ⟨ops, hops⟩ := h
  obtain ⟨ops', hops'⟩ := h'
  exact ⟨ops ++ ops', by rw [run_append, ← hops, hops']⟩

theorem Transits.of_apply (op : Operation) (h : op.apply a.context = .ok b.context) : a.Transits b := by
  refine ⟨[op], ?_⟩
  rw [Context.run_cons, Context.run_nil, after_eq, h]
  rfl

/-- A transition that is attempted is an operation, whether it is possible or not. -/
theorem transits_attempt (a : Assembly) (op : Operation) : a.Transits (a.attempt (op.apply ·)) := by
  unfold attempt
  split
  · rename_i x hx
    exact .of_apply op hx
  · exact .refl _

/-! ### Definitions -/

theorem transits_meet (a : Assembly) (names : List String) : a.Transits (a.meet names) := .of_apply (.meet names) rfl

theorem transits_addFile (a : Assembly) (file : String) (content : FileContent) (text : String) :
    a.Transits (a.addFile file content text) := by
  unfold addFile
  split
  · exact .refl _
  · exact .of_context rfl

theorem transits_copyMember? (a : Assembly) (name : String) : a.Transits (a.copyMember? name).1 := by
  unfold copyMember?
  refine (transits_meet a [name]).trans ?_
  dsimp only
  split
  · exact .refl _
  · split
    · rename_i found _
      refine .trans ?_ (transits_addFile ..)
      exact .of_apply (.addCopyMember (found.copyMember name)) rfl
    · exact .refl _

theorem transits_note (r : Reading) (n : NestedStatement) (callee : Option MacroDefinition) :
    r.assembly.Transits (r.note n callee).assembly := transits_meet ..

theorem transits_noteBody (r : Reading) (n : NestedStatement) : r.assembly.Transits (r.noteBody n).assembly :=
  (transits_meet ..).trans (transits_note { r with assembly := r.assembly.meet [n.statement.opcode] } ..)

theorem transits_copied? (r : Reading) (openMembers : List String) (n : NestedStatement) :
    r.assembly.Transits (r.copied? openMembers n).1.assembly := by
  unfold Reading.copied?
  split
  · exact .refl _
  · exact transits_copyMember? ..

theorem transits_appendOne {inner : List String → Reading → List NestedStatement → Reading}
    (h : ∀ openMembers (r : Reading) items, r.assembly.Transits (inner openMembers r items).assembly)
    (openMembers : List String) (r : Reading) (n : NestedStatement) :
    r.assembly.Transits (r.appendOne inner openMembers n).assembly := by
  unfold Reading.appendOne
  refine (transits_noteBody r n).trans ?_
  dsimp only
  split
  · have hc := transits_copied? (r.noteBody n) openMembers n
    split
    · rename_i r' m hr
      rw [hr] at hc
      exact hc.trans (h ..)
    · rename_i r' hr
      rwa [hr] at hc
  · exact .refl _

theorem transits_append (depth : Nat) (openMembers : List String) (r : Reading) (items : List NestedStatement) :
    r.assembly.Transits (r.append depth openMembers items).assembly := by
  induction depth generalizing openMembers r items with
  | zero => exact .refl _
  | succ depth ih =>
    unfold Reading.append
    induction items generalizing r with
    | nil => exact .refl _
    | cons n rest ihr => exact (transits_appendOne ih openMembers r n).trans (ihr _)

theorem transits_read (a : Assembly) (opening prototype : NestedStatement) (rest : List NestedStatement) :
    a.Transits (a.read opening prototype rest).assembly :=
  ((transits_note { assembly := a } opening none).trans (transits_note ..)).trans (transits_append ..)

theorem transits_register (a : Assembly) (r : MacroRecord) : a.Transits (a.register r).1 := by
  refine .of_apply (.addMacro r.definition) ?_
  unfold register
  dsimp only
  split <;> rfl

theorem transits_define (a : Assembly) (items : List NestedStatement) (isExternal : Bool) :
    a.Transits (a.define items isExternal).1 := by
  unfold define
  split
  · rename_i opening prototype rest
    dsimp only
    split
    · exact .refl _
    · exact ((transits_meet ..).trans (transits_read _ opening prototype rest)).trans
        ((transits_meet ..).trans (transits_register ..))
  · exact .refl _

theorem transits_popLevel (a : Assembly) : a.Transits (a.attempt Context.popLevel) := transits_attempt a .popLevel

theorem transits_loadMacro (a : Assembly) (name : String) : a.Transits (a.loadMacro name).1 := by
  unfold loadMacro
  split
  · exact .refl _
  · split
    · exact .of_context rfl
    · rename_i found _
      dsimp only
      have hpush : a.Transits (a.mapContext (·.pushSource .macroDefinition found.uri)) :=
        .of_apply (.pushSource .macroDefinition found.uri) rfl
      generalize throughMend 0 _ = items
      have hloaded := (hpush.trans (transits_define _ items true)).trans (transits_popLevel _)
      split
      · exact hloaded.trans (transits_addFile ..)
      · exact hloaded.trans (.of_context rfl)

theorem transits_macro? (a : Assembly) (opcode : String) : a.Transits (a.macro? opcode).1 := by
  unfold macro?
  split
  · exact .refl _
  · have hmeet := transits_meet a [opcode]
    dsimp only
    split
    · exact hmeet
    · split
      · exact hmeet
      · split
        · exact hmeet
        · exact hmeet.trans (transits_loadMacro ..)

/-! ### Ordinary statements -/

theorem transits_mapSymbols (a : Assembly) (f : SymbolTable → SymbolTable) : a.Transits (a.mapSymbols f) :=
  .of_apply (.setSymbols (f a.context.symbols)) rfl

theorem transits_defineLabel (a : Assembly) (file : String) (s : Statement) (value : SymbolValue)
    (attributes : SymbolAttributes) : a.Transits (a.defineLabel file s value attributes) := by
  unfold defineLabel
  split
  · exact .refl _
  · exact (transits_meet ..).trans (transits_mapSymbols ..)

theorem transits_startCounter (a : Assembly) (file : String) (s : Statement) : a.Transits (a.startCounter file s) := by
  unfold startCounter
  split
  · exact .refl _
  · exact (transits_meet ..).trans (transits_mapSymbols ..)

theorem transits_equate (a : Assembly) (file : String) (s : Statement) : a.Transits (a.equate file s) := by
  unfold equate
  split
  · exact .refl _
  · exact (transits_mapSymbols ..).trans (transits_defineLabel ..)

theorem transits_defineData {file : String} {s : Statement} {labelled : Bool} {os : List Field}
    (h : a.defineData file s labelled os = .ok b) : a.Transits b := by
  induction os generalizing a labelled with
  | nil => exact Except.ok.inj h ▸ .refl a
  | cons o rest ih =>
    unfold defineData at h
    split at h
    · exact ih h
    · cases h
    · dsimp only at h
      refine .trans ?_ (ih h)
      refine .trans ?_ (transits_mapSymbols ..)
      split
      · exact transits_mapSymbols ..
      · exact (transits_mapSymbols ..).trans (transits_defineLabel ..)

theorem transits_defineSynonym (a : Assembly) (s : Statement) : a.Transits (a.defineSynonym s) := by
  unfold defineSynonym
  split
  · exact .refl _
  · rename_i name _
    refine (transits_meet a [name]).trans ?_
    dsimp only
    split
    · rename_i c cs _ _ _
      generalize String.ofList (Text.upperChars (c :: cs)) = target
      refine .trans (.trans (transits_meet _ [target]) ?_) (transits_attempt _ (.addSynonym name target))
      split
      · exact .refl _
      · exact transits_loadMacro ..
    · exact .of_apply (.removeSynonym name) rfl

theorem transits_ordinary {file : String} {s : Statement} {opcode : String} (h : a.ordinary file s opcode = .ok b) :
    a.Transits b := by
  cases effect_of_ordinary h with
  | startSection kind => exact (transits_meet ..).trans (transits_mapSymbols ..)
  | startCounter => exact transits_startCounter ..
  | equate => exact transits_equate ..
  | defineData _ h => exact transits_defineData h
  | defineSynonym => exact transits_defineSynonym ..
  | machine =>
    exact ((transits_mapSymbols ..).trans (transits_defineLabel ..)).trans (transits_mapSymbols ..)
  | nothing => exact .refl _

/-! ### Conditional assembly -/

theorem transits_declaration (a : Assembly) (p : Activation) (name : String) (type : SetType) (isGlobal : Bool)
    (pos : Position) : a.Transits (a.declaration p name type isGlobal pos) := by
  unfold declaration
  split
  · exact .refl _
  · exact .of_context rfl

theorem transits_declareLocal (a : Assembly) (name : String) (type : SetType) (isScalar : Bool) :
    a.Transits (a.mapContext (·.declareLocal name type isScalar)) := .of_apply (.declareLocal name type isScalar) rfl

theorem transits_declareOperands (p : Activation) (opcode : String) (a : Assembly) (os : List Field) :
    a.Transits (os.foldl (declareOperand p opcode) a) := by
  induction os generalizing a with
  | nil => exact .refl _
  | cons o rest ih =>
    refine .trans ?_ (ih _)
    unfold declareOperand
    split
    · exact .refl _
    · rename_i name subscript _
      refine .trans (.trans (transits_meet a [name]) ?_) (transits_declaration ..)
      split
      · exact .of_apply (.declareGlobal name (setTypeOf opcode) subscript.isNone) rfl
      · exact transits_declareLocal ..

theorem transits_assignOperands (a : Assembly) (name : String) (type : SetType) (base : Option Nat) (os : List Field) :
    a.Transits (a.assignOperands name type base os) := by
  induction os generalizing a base with
  | nil => exact .refl _
  | cons o rest ih =>
    unfold assignOperands
    split
    · rename_i x hx
      refine .trans (.of_apply (.assign name base ((a.evaluate o.text).coerce type)) ?_) (ih _ _)
      show Except.ok ((a.context.assign? name base _).getD a.context) = _
      rw [hx]
      rfl
    · exact .refl _

theorem transits_assign (a : Assembly) (p : Activation) (s : Statement) (opcode : String) :
    a.Transits (a.assign p s opcode) := by
  unfold assign
  split
  · exact .refl _
  · rename_i name subscript _
    dsimp only
    refine .trans ?_ (transits_assignOperands ..)
    refine (transits_meet a [name]).trans ?_
    split
    · exact (transits_declareLocal ..).trans (transits_declaration ..)
    · exact .refl _

theorem transits_noteLabel (a : Assembly) (file : String) (index : Nat) (s : Statement) :
    a.Transits (a.noteLabel file index s) := by
  unfold noteLabel
  split
  · exact .refl _
  · rename_i name pos _
    exact (transits_meet ..).trans (transits_attempt _ (.addSequenceSymbol ⟨name, ⟨file, pos⟩, index⟩))

theorem transits_seek (a : Assembly) (file target : String) (depth : Int) (index : Nat) (ss : List Statement) :
    a.Transits (a.seek file target depth index ss).1 := by
  induction ss generalizing a depth index with
  | nil => exact .refl _
  | cons s rest ih =>
    unfold seek
    dsimp only
    split
    · exact ih ..
    · split
      · exact transits_noteLabel ..
      · exact (transits_noteLabel ..).trans (ih ..)

theorem transits_target? (a : Assembly) (p : Activation) (name : String) : a.Transits (a.target? p name).1 := by
  unfold target?
  split
  · exact .refl _
  · dsimp only
    split
    · exact .refl _
    · have hpush : a.Transits (a.mapContext (·.pushLevel .lookahead)) := .of_apply (.pushLevel .lookahead) rfl
      exact (hpush.trans (transits_seek ..)).trans (transits_popLevel _)

theorem transits_branch (a : Assembly) (p : Activation) (target : String) : a.Transits (a.branch p target).1 := by
  unfold branch
  dsimp only
  have ht := (transits_meet a [Text.upper target]).trans (transits_target? _ p (Text.upper target))
  split
  · rename_i x i hx
    rw [hx] at ht
    have hcount : a.Transits (x.mapContext (·.countBranch)) := ht.trans (.of_apply .countBranch rfl)
    split
    · exact hcount
    · exact hcount
  · rename_i x hx
    rwa [hx] at ht

theorem transits_follow (a : Assembly) (p : Activation) (target : Option String) :
    a.Transits (a.follow p target).1 := by
  unfold follow
  split
  · exact transits_branch ..
  · exact .refl _

theorem transits_conditional? {p : Activation} {s : Statement} {opcode : String} {flow : Flow}
    (h : a.conditional? p s opcode = some (b, flow)) : a.Transits b := by
  have hfollow {target : Option String} (h : a.follow p target = (b, flow)) : a.Transits b := by
    have ht := transits_follow a p target
    rwa [h] at ht
  unfold conditional? at h
  split at h
  · obtain ⟨rfl, rfl⟩ := Prod.mk.inj (Option.some.inj h)
    exact transits_declareOperands ..
  · split at h
    · obtain ⟨rfl, rfl⟩ := Prod.mk.inj (Option.some.inj h)
      exact transits_assign ..
    · split at h
      · exact hfollow (Option.some.inj h)
      · exact hfollow (Option.some.inj h)
      · obtain ⟨rfl, rfl⟩ := Prod.mk.inj (Option.some.inj h)
        exact .of_apply (.setBranchCounter (a.evaluate s.operandText).toWord) rfl
      all_goals
        first
        | obtain ⟨rfl, rfl⟩ := Prod.mk.inj (Option.some.inj h)
          exact .refl _
        | cases h

/-! ### Statements -/

theorem transits_callMacro (a : Assembly) (d : MacroDefinition) (s : Statement) :
    a.Transits (a.callMacro d s).1 := by
  unfold callMacro
  split
  · exact .refl _
  · dsimp only
    generalize s.operands.map (fun o => Argument.ofText o.text) = args
    have hmeet := transits_meet a (args.filterMap (·.keyword))
    split
    · exact hmeet
    · rename_i x hx
      exact hmeet.trans (.of_apply (.enterMacro d.name (labelData? s) args) hx)

theorem transits_copy (a : Assembly) (s : Statement) : a.Transits (a.copy s).1 := by
  unfold copy
  split
  · rename_i c cs _ _ _
    have hmember := transits_copyMember? a (String.ofList (Text.upperChars (c :: cs)))
    split
    · rename_i x hx
      rwa [hx] at hmember
    · rename_i x m hx
      rw [hx] at hmember
      split
      · exact hmember
      · split
        · rename_i y hy
          exact hmember.trans (.of_apply (.enterCopy m.name) hy)
        · exact hmember
  · exact .refl _

theorem transits_processSubstituted {p : Activation} {s : Statement} {flow : Flow}
    (h : a.processSubstituted p s = .ok (b, flow)) : a.Transits b := by
  rcases effect_of_processSubstituted h with ⟨-, rfl, rfl⟩ | ⟨-, h⟩
  · exact .refl _
  refine (transits_meet a [s.opcode]).trans ?_
  cases h with
  | removed => exact .refl _
  | copyInMacro => exact .refl _
  | copy _ _ h =>
    obtain rfl : _ = b := congrArg Prod.fst h
    exact transits_copy ..
  | finishInMacro => exact .refl _
  | finish => exact .refl _
  | callMacro _ _ h =>
    obtain rfl : _ = b := congrArg Prod.fst h
    exact (transits_macro? ..).trans (transits_callMacro ..)
  | ordinary _ _ ho => exact (transits_macro? ..).trans (transits_ordinary ho)

theorem transits_noteStatement (a : Assembly) (p : Activation) (s : Statement) : a.Transits (a.noteStatement p s) := by
  unfold noteStatement
  dsimp only
  have hlookup := (transits_noteLabel a p.file p.index s).trans (transits_macro? _ s.opcode)
  generalize (a.noteLabel p.file p.index s).macro? s.opcode = r at hlookup ⊢
  exact (hlookup.trans (transits_meet _ ((s.occurrences r.2).map (·.name)))).trans (.of_context rfl)

theorem transits_prepare (a : Assembly) (p : Activation) (s : Statement) : a.Transits (a.prepare p s) := by
  unfold prepare
  refine .trans ?_ (transits_meet ..)
  split
  · exact .refl _
  · exact transits_noteStatement ..

theorem transits_process {p : Activation} {s : Statement} {flow : Flow} (h : a.process p s = .ok (b, flow)) :
    a.Transits b := by
  refine (transits_prepare a p s).trans ?_
  rcases process_cases h with h | ⟨-, h⟩
  · exact transits_conditional? h
  · exact transits_processSubstituted h

/-! ### Listings -/

/-- The innermost cursor has the greatest level. -/
theorem track_eq_setCursor {x : Context} {c : CopyCursor} {cs : List CopyCursor} (h : x.source.copyStack = c :: cs)
    (s : Statement) (index : Nat) : x.track s index = x.setCursor cs.length index := by
  unfold Context.track Context.setCursor
  rw [h]
  refine mapSource_congr x ?_
  rw [h, List.reverse_cons, List.modify_eq_take_drop, List.take_left' List.length_reverse,
    List.drop_left' List.length_reverse]
  simp

theorem transits_moveTo (a : Assembly) (p : Activation) (s : Statement) : a.Transits (a.moveTo p s) := by
  unfold moveTo
  split
  · exact .of_apply (.setMacroStatement p.index) rfl
  · cases h : a.context.source.copyStack with
    | cons c cs =>
      refine .of_apply (.setCursor cs.length p.index) ?_
      show Except.ok (a.context.setCursor cs.length p.index) = .ok (a.context.track s p.index)
      rw [track_eq_setCursor h]
    | nil =>
      refine ⟨[.setPosition s.position, .setIndices p.index (p.index + 1) s.span.stop.line], ?_⟩
      show a.context.track s p.index = _
      unfold Context.track
      rw [h]
      rfl

theorem transits_leave (a : Assembly) : a.Transits a.leave := by
  unfold leave
  split
  · exact .refl _
  · rename_i p outer _
    refine .trans (b := { a with control := outer }) (.of_context rfl) ?_
    cases p.listing with
    | openCode statements file => exact .of_context rfl
    | copyMember m => exact transits_attempt _ .leaveCopy
    | macroBody d => exact transits_attempt _ .leaveMacro

theorem transits_proceed (a : Assembly) (p : Activation) (outer : List Activation) (flow : Flow) :
    a.Transits (a.proceed p outer flow) := by
  cases flow with
  | next => exact .of_context rfl
  | jump i => exact .of_context rfl
  | enter l => exact .of_context rfl
  | exit =>
    unfold proceed
    dsimp only
    split
    · exact transits_leave a
    · generalize a.control = l
      induction l generalizing a with
      | nil => exact .refl a
      | cons q rest ih => exact (transits_leave a).trans (ih a.leave)

theorem transits_readDefinition (a : Assembly) (p : Activation) (outer : List Activation) :
    a.Transits (a.readDefinition p outer) := by
  unfold readDefinition
  dsimp only
  refine .trans ?_ (transits_proceed ..)
  split
  · exact transits_define ..
  · have hpush : a.Transits (a.mapContext (·.pushLevel .macroDefinition)) := .of_apply (.pushLevel .macroDefinition) rfl
    exact (hpush.trans (transits_define ..)).trans (transits_popLevel _)

/-- **A step runs operations.** -/
theorem transits_step (h : a.step = .ok b) : a.Transits b := by
  cases effect_of_step h with
  | finished => exact .refl _
  | behind => exact transits_leave a
  | definition => exact (transits_moveTo ..).trans (transits_readDefinition ..)
  | mend => exact (transits_moveTo ..).trans (transits_leave _)
  | executed _ _ _ _ run => exact ((transits_moveTo ..).trans (transits_process run)).trans (transits_proceed ..)

/-! ### Runs -/

theorem Reaches.transits (h : a.Reaches b) : a.Transits b :=
  h.induction (fun _ _ hx hy => hx.trans (transits_step hy)) (.refl a)

/-- **A run comes to a state that operations lead to from the start.** -/
theorem Reaches.reached {file text : String} {library : Library} {settings : Settings} {now : Moment}
    (h : (fresh file text library settings now).Reaches a) : a.context.Reached := by
  obtain ⟨ops, hops⟩ := h.transits
  exact ⟨file, settings, now, ops, hops⟩

end

end AssemblerIndex.Assembly
