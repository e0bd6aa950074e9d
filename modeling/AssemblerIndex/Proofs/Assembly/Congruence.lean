import AssemblerIndex.Proofs.Assembly.Bare
import AssemblerIndex.Proofs.Assembly.CoreSteps
import AssemblerIndex.Proofs.Assembly.Relabelling

/-!
# Ways to compare assemblies

Two assemblies may be compared in more than one way, and only what works with the table of macros cares which one it
is.  A `Congruence` is a relation of assemblies together with what it takes to compare macros: which definitions
belong to each other (`Twin`), which statements of definitions do (`SameItem`), and which surroundings of expressions
count as the same (`Agree`).  From what it says about macros and about single changes of the state it follows that
statements lead from related assemblies to related ones, as long as the surroundings fix what the statements evaluate
(`Congruence.Fixes`).
-/

namespace AssemblerIndex

open Assembly

/-- The ways to go on belong to each other: `f` says which statement is jumped to, and the bodies that are entered are
those of twins. -/
inductive SameFlow (Twin : MacroDefinition → MacroDefinition → Prop) (f : Nat → Nat) : Flow → Flow → Prop
  | next : SameFlow Twin f .next .next
  | jump (i : Nat) : SameFlow Twin f (.jump i) (.jump (f i))
  | call {d d' : MacroDefinition} (h : Twin d d') : SameFlow Twin f (.enter (.macroBody d)) (.enter (.macroBody d'))
  | copy (m : CopyMember) : SameFlow Twin f (.enter (.copyMember m)) (.enter (.copyMember m))
  | exit : SameFlow Twin f .exit .exit

/-- A way to compare assemblies. -/
structure Congruence where
  Rel : Assembly → Assembly → Prop
  /-- the definitions do the same when they are called -/
  Twin : MacroDefinition → MacroDefinition → Prop
  /-- the statements are the same as parts of a definition -/
  SameItem : NestedStatement → NestedStatement → Prop
  /-- the surroundings of expressions are the same in what counts -/
  Agree : Expression.Environment → Expression.Environment → Prop
  sound : ∀ {a b}, Rel a b → a.Sound ∧ b.Sound
  -- what related assemblies have in common
  library : ∀ {a b}, Rel a b → a.library = b.library
  symbols : ∀ {a b}, Rel a b → a.context.symbols.core = b.context.symbols.core
  operation : ∀ {a b}, Rel a b → ∀ name, a.context.operation name = b.context.operation name
  counter : ∀ {a b}, Rel a b → a.context.scope.branchCounter = b.context.scope.branchCounter
  environment : ∀ {a b}, Rel a b → Agree (Expression.environment a.context) (Expression.environment b.context)
  visible : ∀ {e e'}, Agree e e' → e.visible? = e'.visible?
  body : ∀ {d d'}, Twin d d' → d.body = d'.body
  offset : ∀ {d d'}, Twin d d' → ∀ n, (d.labels.find? n).map (·.offset) = (d'.labels.find? n).map (·.offset)
  nested : ∀ {d d'}, Twin d d' → List.Forall₂ SameItem d.nestedBody d'.nestedBody
  statement : ∀ {n n'}, SameItem n n' → n.statement = n'.statement
  -- changes that keep assemblies related
  of_core : ∀ {a b a' b'}, Rel a b → a'.core = a.core → b'.core = b.core → a'.Sound → b'.Sound → Rel a' b'
  mapContext : ∀ {a b f}, Rel a b → Context.Natural f → (a.mapContext f).Sound → (b.mapContext f).Sound →
    Rel (a.mapContext f) (b.mapContext f)
  mapSymbols : ∀ {a b f g}, Rel a b → (f a.context.symbols).core = (g b.context.symbols).core →
    (a.mapSymbols f).Sound → (b.mapSymbols g).Sound → Rel (a.mapSymbols f) (b.mapSymbols g)
  assign? : ∀ {a b}, Rel a b → ∀ name subscript v, Option.Rel
    (fun x y => Rel { a with context := x } { b with context := y })
    (a.context.assign? name subscript v) (b.context.assign? name subscript v)
  -- what works with macros
  define : ∀ {a b items items'}, Rel a b → List.Forall₂ SameItem items items' →
    Rel (a.define items false).1 (b.define items' false).1
  macro? : ∀ {a b}, Rel a b → ∀ opcode, Rel (a.macro? opcode).1 (b.macro? opcode).1 ∧
    Option.Rel Twin (a.macro? opcode).2 (b.macro? opcode).2
  callMacro : ∀ {a b d d'}, Rel a b → a.context.macros.find? d.name = some d →
    b.context.macros.find? d'.name = some d' → Twin d d' → ∀ s f,
    Rel (a.callMacro d s).1 (b.callMacro d' s).1 ∧ SameFlow Twin f (a.callMacro d s).2 (b.callMacro d' s).2
  defineSynonym : ∀ {a b}, Rel a b → ∀ s, Rel (a.defineSynonym s) (b.defineSynonym s)

/-- The texts in a statement that are evaluated as expressions, if any are. -/
def Statement.expressions (s : Statement) : List (List Char) :=
  s.operandText :: ((splitVariable s.labelText).bind (·.2)).toList ++
    s.operands.flatMap fun o => o.text :: ((splitBranch o.text).map (·.1)).toList

namespace Congruence

variable (K : Congruence)

/-- Surroundings that agree give the text the same value. -/
def FixesValue (t : List Char) : Prop :=
  ∀ e e', K.Agree e e' → (Expression.expression e t).value = (Expression.expression e' t).value

/-- Surroundings that agree replace the variable symbols of the text alike. -/
def FixesText (t : List Char) : Prop :=
  ∀ e e', K.Agree e e' → Expression.substituteIn e t = Expression.substituteIn e' t

/-- Surroundings that agree fix what the statement evaluates. -/
structure Fixes (s : Statement) : Prop where
  expressions : ∀ t ∈ s.expressions, K.FixesValue t
  label : K.FixesText s.labelText
  instruction : K.FixesText (fieldText s.instruction)
  operands : K.FixesText s.operandText

section Values

variable {K} {a b : Assembly} {s : Statement}

/-- Whatever statements evaluate is the same where the surroundings are. -/
theorem fixes_of_eq (h : ∀ e e', K.Agree e e' → e = e') (s : Statement) : K.Fixes s :=
  ⟨fun _ _ e e' he => h e e' he ▸ rfl, fun e e' he => h e e' he ▸ rfl, fun e e' he => h e e' he ▸ rfl,
    fun e e' he => h e e' he ▸ rfl⟩

theorem evaluate (h : K.Rel a b) {t : List Char} (ht : K.FixesValue t) : a.evaluate t = b.evaluate t :=
  ht _ _ (K.environment h)

theorem visible? (h : K.Rel a b) : a.context.visible? = b.context.visible? := K.visible (K.environment h)

theorem Fixes.operandText (hs : K.Fixes s) : K.FixesValue s.operandText :=
  hs.expressions _ List.mem_cons_self

theorem Fixes.subscript (hs : K.Fixes s) {name : String} {t : List Char}
    (h : splitVariable s.labelText = some (name, some t)) : K.FixesValue t := by
  refine hs.expressions t ?_
  unfold Statement.expressions
  rw [h]
  simp

theorem Fixes.operand (hs : K.Fixes s) {o : Field} (ho : o ∈ s.operands) : K.FixesValue o.text := by
  refine hs.expressions _ (List.mem_cons_of_mem _ (List.mem_append_right _ ?_))
  exact List.mem_flatMap.2 ⟨o, ho, List.mem_cons_self⟩

theorem Fixes.condition (hs : K.Fixes s) {o : Field} (ho : o ∈ s.operands) {t : List Char} {target : String}
    (h : splitBranch o.text = some (t, target)) : K.FixesValue t := by
  refine hs.expressions _ (List.mem_cons_of_mem _ (List.mem_append_right _ ?_))
  refine List.mem_flatMap.2 ⟨o, ho, ?_⟩
  rw [h]
  simp

theorem substituted (h : K.Rel a b) (hs : K.Fixes s) : s.substituted a.context = s.substituted b.context := by
  have he := K.environment h
  unfold Statement.substituted Expression.substitute
  dsimp only
  rw [hs.label _ _ he, hs.instruction _ _ he, hs.operands _ _ he]

end Values

section Statements

variable {K} {a b a' b' : Assembly} {s : Statement}

/-- What changes nothing in the cores keeps assemblies related. -/
theorem of_stays (h : K.Rel a b) (ha : a.Stays a') (hb : b.Stays b') (ca : a'.core = a.core)
    (cb : b'.core = b.core) : K.Rel a' b' :=
  K.of_core h ca cb (ha.sound (K.sound h).1) (hb.sound (K.sound h).2)

theorem of_natural {f : Context → Context} (h : K.Rel a b) (hf : Context.Natural f)
    (ha : a.Stays (a.mapContext f)) (hb : b.Stays (b.mapContext f)) :
    K.Rel (a.mapContext f) (b.mapContext f) :=
  K.mapContext h hf (ha.sound (K.sound h).1) (hb.sound (K.sound h).2)

theorem meet (h : K.Rel a b) (names : List String) : K.Rel (a.meet names) (b.meet names) :=
  of_stays h (spares_meet ..).toStays (spares_meet ..).toStays (core_meet ..) (core_meet ..)

/-! ### SET symbols -/

theorem declaration (h : K.Rel a b) (p q : Activation) (name : String) (type : SetType) (isGlobal : Bool)
    (pos : Position) :
    K.Rel (a.declaration p name type isGlobal pos) (b.declaration q name type isGlobal pos) :=
  of_stays h (spares_declaration ..).toStays (spares_declaration ..).toStays (core_declaration ..)
    (core_declaration ..)

theorem declareLocal (h : K.Rel a b) (name : String) (type : SetType) (isScalar : Bool) :
    K.Rel (a.mapContext (·.declareLocal name type isScalar)) (b.mapContext (·.declareLocal name type isScalar)) :=
  of_natural h (Context.natural_declareLocal ..) (keeps_declareLocal ..).toStays (keeps_declareLocal ..).toStays

theorem declareGlobal (h : K.Rel a b) (name : String) (type : SetType) (isScalar : Bool) :
    K.Rel (a.mapContext (·.declareGlobal name type isScalar))
      (b.mapContext (·.declareGlobal name type isScalar)) :=
  of_natural h (Context.natural_declareGlobal ..) (keeps_declareGlobal ..).toStays
    (keeps_declareGlobal ..).toStays

theorem declareOperand (h : K.Rel a b) (p q : Activation) (opcode : String) (o : Field) :
    K.Rel (declareOperand p opcode a o) (declareOperand q opcode b o) := by
  unfold Assembly.declareOperand
  split
  · exact h
  · rename_i name _ _
    have hm := meet h [name]
    dsimp only
    split
    · exact declaration (declareGlobal hm ..) ..
    · exact declaration (declareLocal hm ..) ..

theorem declareOperands (h : K.Rel a b) (p q : Activation) (opcode : String) (os : List Field) :
    K.Rel (os.foldl (Assembly.declareOperand p opcode) a) (os.foldl (Assembly.declareOperand q opcode) b) := by
  induction os generalizing a b with
  | nil => exact h
  | cons o rest ih => exact ih (declareOperand h p q opcode o)

theorem assignOperands (h : K.Rel a b) (name : String) (type : SetType) (base : Option Nat) (os : List Field)
    (hos : ∀ o ∈ os, K.FixesValue o.text) :
    K.Rel (a.assignOperands name type base os) (b.assignOperands name type base os) := by
  induction os generalizing a b base with
  | nil => exact h
  | cons o rest ih =>
    unfold Assembly.assignOperands
    rw [evaluate h (hos o List.mem_cons_self)]
    have hassign := K.assign? h name base ((b.evaluate o.text).coerce type)
    generalize a.context.assign? name base _ = x at hassign ⊢
    generalize b.context.assign? name base _ = y at hassign ⊢
    cases hassign with
    | none => exact h
    | some h => exact ih h _ fun o ho => hos o (List.mem_cons_of_mem _ ho)

theorem assign (h : K.Rel a b) (p q : Activation) (hs : K.Fixes s) (opcode : String) :
    K.Rel (a.assign p s opcode) (b.assign q s opcode) := by
  unfold Assembly.assign
  split
  · exact h
  · rename_i name subscript hsplit
    have hm := meet h [name]
    have assigned {a' b' : Assembly} (h' : K.Rel a' b') :
        K.Rel (a'.assignOperands name (setTypeOf opcode)
            (subscript.map fun t => max 1 (a'.evaluate t).toWord.toInt.toNat) s.operands)
          (b'.assignOperands name (setTypeOf opcode)
            (subscript.map fun t => max 1 (b'.evaluate t).toWord.toInt.toNat) s.operands) := by
      have hbase : (subscript.map fun t => max 1 (a'.evaluate t).toWord.toInt.toNat) =
          subscript.map fun t => max 1 (b'.evaluate t).toWord.toInt.toNat := by
        refine Option.map_congr fun t ht => ?_
        rw [evaluate h' (hs.subscript (ht ▸ hsplit))]
      rw [hbase]
      exact assignOperands h' _ _ _ _ fun o => hs.operand
    dsimp only
    rw [congrFun (visible? hm) name]
    split
    · exact assigned (declaration (declareLocal hm ..) ..)
    · exact assigned hm

/-! ### Ordinary symbols -/

theorem of_symbols {f g : SymbolTable → SymbolTable} (h : K.Rel a b)
    (hfg : (f a.context.symbols).core = (g b.context.symbols).core) (ha : a.Stays (a.mapSymbols f))
    (hb : b.Stays (b.mapSymbols g)) : K.Rel (a.mapSymbols f) (b.mapSymbols g) :=
  K.mapSymbols h hfg (ha.sound (K.sound h).1) (hb.sound (K.sound h).2)

theorem align (h : K.Rel a b) (n : Int32) : K.Rel (a.mapSymbols (·.align n)) (b.mapSymbols (·.align n)) := by
  refine of_symbols h ?_ (spares_align ..).toStays (spares_align ..).toStays
  rw [SymbolTable.core_align, SymbolTable.core_align, K.symbols h]

theorem reserve (h : K.Rel a b) (n : Int32) : K.Rel (a.mapSymbols (·.reserve n)) (b.mapSymbols (·.reserve n)) := by
  refine of_symbols h ?_ (spares_reserve ..).toStays (spares_reserve ..).toStays
  rw [SymbolTable.core_reserve, SymbolTable.core_reserve, K.symbols h]

theorem defineLabel (h : K.Rel a b) (file file' : String) (s : Statement) (value : SymbolValue)
    (attributes : SymbolAttributes) :
    K.Rel (a.defineLabel file s value attributes) (b.defineLabel file' s value attributes) := by
  have ha := spares_defineLabel a file s value attributes
  have hb := spares_defineLabel b file' s value attributes
  unfold Assembly.defineLabel at ha hb ⊢
  split
  · exact h
  · rename_i name hname
    rw [hname] at ha hb
    have hm := meet h [name]
    exact K.mapSymbols hm (SymbolTable.core_define (K.symbols hm) rfl) (ha.sound (K.sound h).1)
      (hb.sound (K.sound h).2)

theorem startSection (h : K.Rel a b) (file file' : String) (s : Statement) (kind : SectionKind) :
    K.Rel (a.startSection file s kind) (b.startSection file' s kind) := by
  have hm := meet h [s.ordinaryLabel?.getD ""]
  have ha := (spares_startSection a file s kind).sound (K.sound h).1
  have hb := (spares_startSection b file' s kind).sound (K.sound h).2
  unfold Assembly.startSection at ha hb ⊢
  exact K.mapSymbols hm (SymbolTable.core_setSection (K.symbols hm) ..) ha hb

theorem startCounter (h : K.Rel a b) (file file' : String) (s : Statement) :
    K.Rel (a.startCounter file s) (b.startCounter file' s) := by
  have ha := spares_startCounter a file s
  have hb := spares_startCounter b file' s
  unfold Assembly.startCounter at ha hb ⊢
  split
  · exact h
  · rename_i name hname
    rw [hname] at ha hb
    have hm := meet h [name]
    exact K.mapSymbols hm (SymbolTable.core_setCounter (K.symbols hm) ..) (ha.sound (K.sound h).1)
      (hb.sound (K.sound h).2)

theorem equate (h : K.Rel a b) (file file' : String) (s : Statement) :
    K.Rel (a.equate file s) (b.equate file' s) := by
  unfold Assembly.equate
  split
  · exact h
  · rename_i first _ _
    have ha := spares_mapSymbols_of_symbols (a := a)
      (f := fun _ => (a.context.symbols.sumValue first.text).1) (SymbolTable.symbols_sumTerms ..)
    have hb := spares_mapSymbols_of_symbols (a := b)
      (f := fun _ => (b.context.symbols.sumValue first.text).1) (SymbolTable.symbols_sumTerms ..)
    have hsum := a.context.symbols.sumValue_core first.text
    rw [K.symbols h, SymbolTable.sumValue_core, Prod.mk.injEq] at hsum
    generalize a.context.symbols.sumValue first.text = u at ha hsum ⊢
    generalize b.context.symbols.sumValue first.text = v at hb hsum ⊢
    obtain ⟨t, value⟩ := u
    obtain ⟨t', value'⟩ := v
    obtain ⟨ht, rfl⟩ := hsum
    have hlength : equateLength t s first = equateLength t' s first := by
      rw [← equateLength_core t, ← ht, equateLength_core]
    dsimp only
    rw [hlength]
    exact defineLabel (of_symbols h ht.symm ha.toStays hb.toStays) ..

theorem place (h : K.Rel a b) : a.context.symbols.place = b.context.symbols.place := by
  rw [← SymbolTable.place_core, K.symbols h, SymbolTable.place_core]

theorem defineData (h : K.Rel a b) (file file' : String) (s : Statement) (labelled : Bool) (os : List Field) :
    SameOutcome K.Rel (a.defineData file s labelled os) (b.defineData file' s labelled os) := by
  induction os generalizing a b labelled with
  | nil => exact .ok h
  | cons o rest ih =>
    unfold Assembly.defineData
    split
    · exact ih h labelled
    · exact .error _
    · rename_i d _
      have hd := align h d.alignment
      refine ih (reserve ?_ d.size) true
      split
      · exact hd
      · rw [place hd]
        exact defineLabel hd ..

theorem machine (h : K.Rel a b) (file file' : String) (s : Statement) (opcode : String) :
    K.Rel (a.machine file s opcode) (b.machine file' s opcode) := by
  have hd := align h 2
  unfold Assembly.machine
  dsimp only
  rw [place hd]
  exact reserve (defineLabel hd ..) _

/-- **An ordinary statement** does the same in whatever file it was written. -/
theorem ordinary (h : K.Rel a b) (file file' : String) (s : Statement) (opcode : String) :
    SameOutcome K.Rel (a.ordinary file s opcode) (b.ordinary file' s opcode) := by
  unfold Assembly.ordinary
  split
  · exact .ok (startSection h ..)
  · exact .ok (startSection h ..)
  · exact .ok (startSection h ..)
  · exact .ok (startSection h ..)
  · exact .ok (startSection h ..)
  · exact .ok (startCounter h ..)
  · exact .ok (equate h ..)
  · exact defineData h ..
  · exact defineData h ..
  · exact .ok (K.defineSynonym h s)
  · split
    · exact .ok (machine h ..)
    · exact .ok (machine h ..)
    · exact .ok h

/-! ### Copy members -/

/-- The outcomes are related, and so are the ways to go on. -/
def SameTurn (f : Nat → Nat) (u v : Assembly × Flow) : Prop := K.Rel u.1 v.1 ∧ SameFlow K.Twin f u.2 v.2

theorem copy (h : K.Rel a b) (hopen : SameOpen a b) (s : Statement) (f : Nat → Nat) :
    K.SameTurn f (a.copy s) (b.copy s) := by
  cases hs : s.operands with
  | nil =>
    unfold Assembly.copy
    rw [hs]
    exact ⟨h, .next⟩
  | cons o rest =>
    by_cases ho : o.text = []
    · unfold Assembly.copy
      rw [hs]
      obtain ⟨text, span⟩ := o
      dsimp only at ho
      subst ho
      exact ⟨h, .next⟩
    · generalize hname : String.ofList (Text.upperChars o.text) = name
      have hmember : a.closedMember? name = b.closedMember? name := by
        unfold closedMember?
        rw [K.library h, hopen.members]
      have ha := spares_copyMember? a name
      have hb := spares_copyMember? b name
      have hm : K.Rel (a.copyMember? name).1 (b.copyMember? name).1 :=
        of_stays h ha.toStays hb.toStays (core_copyMember? ..) (core_copyMember? ..)
      rw [copy_eq (K.sound h).1 hs ho hname, copy_eq (K.sound h).2 hs ho hname, hmember]
      split
      · rename_i found _
        have hsa := ha.sources.trans hopen.left
        have hsb := hb.sources.trans hopen.right
        refine ⟨K.of_core hm (core_opened hsa _) (core_opened hsb _) ?_ ?_, .copy _⟩
        · rw [opened_of_nil hsa]
          exact (K.sound hm).1.of_names rfl fun _ => id
        · rw [opened_of_nil hsb]
          exact (K.sound hm).2.of_names rfl fun _ => id
      · exact ⟨hm, .next⟩

/-! ### Conditional assembly -/

theorem alwaysTarget? (h : K.Rel a b) (hs : K.Fixes s) :
    a.alwaysTarget? s.operands = b.alwaysTarget? s.operands := by
  have hcondition {o : Field} (ho : o ∈ s.operands) {t : List Char} {target : String}
      (hsplit : splitBranch o.text = some (t, target)) := evaluate h (hs.condition ho hsplit)
  unfold Assembly.alwaysTarget?
  split
  · rfl
  · rename_i first rest hfirst
    split
    · rfl
    · split
      · rfl
      · rename_i hsplit
        rw [hcondition (hfirst ▸ List.mem_cons_self) hsplit]

theorem trueTarget? (h : K.Rel a b) (hs : K.Fixes s) : a.trueTarget? s.operands = b.trueTarget? s.operands := by
  have hcondition {o : Field} (ho : o ∈ s.operands) {t : List Char} {target : String}
      (hsplit : splitBranch o.text = some (t, target)) := evaluate h (hs.condition ho hsplit)
  generalize s.operands = os at hcondition
  induction os with
  | nil => rfl
  | cons o rest ih =>
    unfold Assembly.trueTarget?
    rw [ih fun ho => hcondition (List.mem_cons_of_mem _ ho)]
    split
    · rfl
    · rename_i hsplit
      rw [hcondition List.mem_cons_self hsplit]

theorem setBranchCounter (h : K.Rel a b) (n : Int32) :
    K.Rel (a.mapContext (·.setBranchCounter n)) (b.mapContext (·.setBranchCounter n)) :=
  of_natural h (Context.natural_setBranchCounter n) (stays_setBranchCounter ..) (stays_setBranchCounter ..)

theorem countBranch (h : K.Rel a b) :
    K.Rel (a.mapContext (·.countBranch)) (b.mapContext (·.countBranch)) :=
  of_natural h Context.natural_countBranch (stays_countBranch a) (stays_countBranch b)

/-- A branch in the body of a macro goes to a label of its definition. -/
theorem branch_of_body (h : K.Rel a b) {p q : Activation} {d d' : MacroDefinition} (hp : p.definition? = some d)
    (hq : q.definition? = some d') (hd : K.Twin d d') (target : String) :
    K.SameTurn id (a.branch p target) (b.branch q target) := by
  have hm := meet h [Text.upper target]
  have hc := K.counter (countBranch hm)
  unfold Assembly.branch target?
  rw [hp, hq]
  dsimp only
  rw [K.offset hd]
  cases (d'.labels.find? (Text.upper target)).map (·.offset) with
  | none => exact ⟨hm, .next⟩
  | some i =>
    dsimp only
    rw [hc]
    split
    · exact ⟨countBranch hm, .exit⟩
    · exact ⟨countBranch hm, .jump i⟩

theorem follow_of_body (h : K.Rel a b) {p q : Activation} {d d' : MacroDefinition} (hp : p.definition? = some d)
    (hq : q.definition? = some d') (hd : K.Twin d d') (target : Option String) :
    K.SameTurn id (a.follow p target) (b.follow q target) := by
  cases target with
  | none => exact ⟨h, .next⟩
  | some t => exact branch_of_body h hp hq hd t

/-- Conditional assembly does the same on both sides if its branches do. -/
theorem conditional? (h : K.Rel a b) {p q : Activation} {opcode : String} {f : Nat → Nat}
    (hpq : p.definition?.isSome = q.definition?.isSome)
    (hfollow : opcode = "AGO" ∨ opcode = "AIF" → ∀ target, K.SameTurn f (a.follow p target) (b.follow q target))
    (hs : K.Fixes s) :
    Option.Rel (K.SameTurn f) (a.conditional? p s opcode) (b.conditional? q s opcode) := by
  unfold Assembly.conditional?
  split
  · exact .some ⟨declareOperands h .., .next⟩
  · split
    · exact .some ⟨assign h p q hs opcode, .next⟩
    · split
      · rw [alwaysTarget? h hs]
        exact .some (hfollow (.inl rfl) _)
      · rw [trueTarget? h hs]
        exact .some (hfollow (.inr rfl) _)
      · rw [evaluate h hs.operandText]
        exact .some ⟨setBranchCounter h _, .next⟩
      · rw [hpq]
        cases q.definition?.isSome
        · exact .some ⟨h, .next⟩
        · exact .some ⟨h, .exit⟩
      · exact .some ⟨h, .exit⟩
      all_goals
        first
        | exact .some ⟨h, .next⟩
        | exact .none

/-! ### Statements -/

/-- A statement whose variable symbols have been replaced does the same on both sides; one that copies does
so if the same copy members are open. -/
theorem processSubstituted (h : K.Rel a b) {p q : Activation} {s : Statement} (f : Nat → Nat)
    (hpq : p.definition?.isSome = q.definition?.isSome)
    (hcopy : p.definition?.isSome ∨ a.context.operation s.opcode ≠ "COPY" ∨ SameOpen a b) :
    SameOutcome (K.SameTurn f) (a.processSubstituted p s) (b.processSubstituted q s) := by
  unfold Assembly.processSubstituted
  split
  · exact .ok ⟨h, .next⟩
  · have hm := meet h [s.opcode]
    have hcopy : p.definition?.isSome ∨ (a.meet [s.opcode]).context.operation s.opcode ≠ "COPY" ∨
        SameOpen (a.meet [s.opcode]) (b.meet [s.opcode]) :=
      hcopy.imp_right (.imp_right fun h => ⟨h.left, h.right, h.members⟩)
    dsimp only
    rw [← K.operation hm s.opcode, ← hpq]
    generalize (a.meet [s.opcode]).context.operation s.opcode = op at hcopy ⊢
    split
    · exact .ok ⟨hm, .next⟩
    · split
      · rename_i hop
        split
        · exact .ok ⟨hm, .next⟩
        · rename_i hp
          have hopen := (hcopy.resolve_left hp).resolve_left fun h => h hop
          exact .ok (copy hm hopen s f)
      · split
        · cases p.definition?.isSome
          · exact .ok ⟨hm, .exit⟩
          · exact .ok ⟨hm, .next⟩
        · obtain ⟨hk, hd⟩ := K.macro? hm op
          have hfind := @find?_of_macro? (a.meet [s.opcode]) (K.sound hm).1 op
          have hfind' := @find?_of_macro? (b.meet [s.opcode]) (K.sound hm).2 op
          generalize (a.meet [s.opcode]).macro? op = u at hk hd hfind ⊢
          generalize (b.meet [s.opcode]).macro? op = v at hk hd hfind' ⊢
          obtain ⟨a', d⟩ := u
          obtain ⟨b', d'⟩ := v
          dsimp only at hk hd hfind hfind' ⊢
          cases hd with
          | some hd => exact .ok (K.callMacro hk (hfind rfl) (hfind' rfl) hd s f)
          | none => exact (ordinary hk p.file q.file s op).map fun x y hxy => ⟨hxy, .next⟩

theorem prepare (h : K.Rel a b) {p q : Activation} (hpq : p.definition?.isSome = q.definition?.isSome)
    (ha : p.definition? = none → a.context.calls = []) (hb : q.definition? = none → b.context.calls = [])
    (s : Statement) : K.Rel (a.prepare p s) (b.prepare q s) := by
  have hsa := (holds_prepare ha s).sound (K.sound h).1
  have hsb := (holds_prepare hb s).sound (K.sound h).2
  unfold Assembly.prepare at hsa hsb ⊢
  rw [← hpq] at hsb ⊢
  split
  · exact meet h _
  · rename_i hp
    rw [if_neg hp] at hsa hsb
    have hp : p.definition? = none := by simpa using hp
    have hq : q.definition? = none := by
      rw [hp] at hpq
      simpa using hpq.symm
    have hl : K.Rel (a.noteLabel p.file p.index s) (b.noteLabel q.file q.index s) :=
      of_stays h (holds_noteLabel (ha hp) ..).toStays (holds_noteLabel (hb hq) ..).toStays (core_noteLabel ..)
        (core_noteLabel ..)
    have hm := (K.macro? hl s.opcode).1
    exact K.of_core hm ((core_meet ..).trans (core_noteStatement ..)) ((core_meet ..).trans (core_noteStatement ..))
      hsa hsb

/-- **The processing of a statement** does the same on both sides if its branches do; one that copies does so if the
same copy members are open. -/
theorem process (h : K.Rel a b) {p q : Activation} {f : Nat → Nat}
    (hpq : p.definition?.isSome = q.definition?.isSome)
    (ha : p.definition? = none → a.context.calls = []) (hb : q.definition? = none → b.context.calls = [])
    (hs : K.Fixes s)
    (hfollow : (a.prepare p s).context.operation s.opcode = "AGO" ∨
      (a.prepare p s).context.operation s.opcode = "AIF" → ∀ target,
      K.SameTurn f ((a.prepare p s).follow p target) ((b.prepare q s).follow q target))
    (hcopy : p.definition?.isSome ∨ (a.prepare p s).context.operation
      (s.substituted (a.prepare p s).context).opcode ≠ "COPY" ∨ SameOpen a b) :
    SameOutcome (K.SameTurn f) (a.process p s) (b.process q s) := by
  have hx := prepare h hpq ha hb s
  unfold Assembly.process
  dsimp only
  rw [← K.operation hx s.opcode]
  have hc := conditional? hx hpq hfollow hs
  generalize (a.prepare p s).conditional? p s _ = u at hc ⊢
  generalize (b.prepare q s).conditional? q s _ = v at hc ⊢
  cases hc with
  | some h => exact .ok h
  | none =>
    dsimp only
    rw [← substituted hx hs]
    refine processSubstituted hx f hpq (hcopy.imp_right (.imp_right fun h => ?_))
    exact h.of_stays (holds_prepare ha s).toStays (holds_prepare hb s).toStays

end Statements

end Congruence

end AssemblerIndex
