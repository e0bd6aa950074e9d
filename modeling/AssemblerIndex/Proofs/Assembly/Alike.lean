import AssemblerIndex.Proofs.Assembly.Congruence
import AssemblerIndex.Proofs.Assembly.Reading

/-!
# Assemblies that are alike

Two assemblies with the same core are `Alike`, if their tables are in order.  What their expressions and macros do only
depends on the core, so being alike is a way to compare assemblies (`alikeness`) that fixes every statement
(`fixes_alikeness`).
-/

namespace AssemblerIndex

namespace Assembly

/-- The assemblies have the same core, and their tables are in order. -/
structure Alike (a b : Assembly) : Prop where
  core : a.core = b.core
  left : a.Sound
  right : b.Sound

section Alike

variable {a b : Assembly}

/-- A step on both sides that keeps the tables in order leads to alike assemblies if the cores agree. -/
theorem Alike.of_stays (h : Alike a b) (ha : a.Stays a') (hb : b.Stays b') (hc : a'.core = b'.core) :
    Alike a' b' := ⟨hc, ha.sound h.left, hb.sound h.right⟩

theorem Alike.mapContext (h : Alike a b) {f : Context → Context} (hf : ∀ x, (f x).core = f x.core)
    (ha : a.Stays (a.mapContext f)) (hb : b.Stays (b.mapContext f)) :
    Alike (a.mapContext f) (b.mapContext f) :=
  h.of_stays ha hb (core_mapContext h.core hf)

theorem Alike.context (h : Alike a b) : a.context.core = b.context.core := (core_eq_iff.1 h.core).1

theorem Alike.library (h : Alike a b) : a.library = b.library := (core_eq_iff.1 h.core).2.1

theorem Alike.settings (h : Alike a b) : a.settings = b.settings := (core_eq_iff.1 h.core).2.2.1

theorem Alike.refused (h : Alike a b) : a.refused = b.refused := (core_eq_iff.1 h.core).2.2.2

theorem Alike.meet (h : Alike a b) (names : List String) : Alike (a.meet names) (b.meet names) :=
  h.of_stays (spares_meet ..).toStays (spares_meet ..).toStays h.core

/-! ### Expressions -/

/-- **Expressions see the core only.** -/
theorem Alike.environment (h : Alike a b) :
    Expression.environment a.context = Expression.environment b.context := by
  have key {c : Assembly} (hc : c.Sound) : Expression.environment c.context =
      ⟨c.context.core.visible?, Expression.symbolTerm c.context.core, c.context.core.symbolAttribute,
        c.context.core.variableAttribute⟩ := by
    unfold Expression.environment
    rw [Context.visible?_core, Context.symbolAttribute_core, Context.variableAttribute_core]
    congr 1
    · funext name
      unfold Expression.symbolTerm
      rw [show c.context.core.symbols = c.context.symbols.core from rfl, SymbolTable.value?_core]
    · funext kind name
      exact symbolAttribute_knownName hc kind name
  rw [key h.left, key h.right, h.context]

theorem Alike.assign? (h : Alike a b) (name : String) (subscript : Option Nat) (v : SetValue) :
    Option.Rel (fun x y => Alike { a with context := x } { b with context := y })
      (a.context.assign? name subscript v) (b.context.assign? name subscript v) := by
  have hassign : (a.context.assign? name subscript v).map Context.core =
      (b.context.assign? name subscript v).map Context.core := by
    rw [Context.core_assign?, Context.core_assign?, h.context]
  cases hx : a.context.assign? name subscript v with
  | none =>
    rw [hx] at hassign
    rw [Option.map_eq_none_iff.1 hassign.symm]
    exact .none
  | some x =>
    rw [hx] at hassign
    obtain ⟨y, hy, hxy⟩ := Option.map_eq_some_iff.1 hassign.symm
    rw [hy]
    obtain ⟨-, h2, h3, h4⟩ := core_eq_iff.1 h.core
    exact .some (h.of_stays (keeps_assign? hx).toStays (keeps_assign? hy).toStays
      (core_eq_iff.2 ⟨hxy.symm, h2, h3, h4⟩))

/-! ### Definitions -/

/-- The outcomes of an operation that may yield something are alike. -/
def AlikeWith {α : Type} (u v : Assembly × α) : Prop := Alike u.1 v.1 ∧ u.2 = v.2

/-- **A definition is read alike**, however many copy members have been loaded before. -/
theorem Alike.define (h : Alike a b) (items : List NestedStatement) (isExternal : Bool) :
    AlikeWith (a.define items isExternal) (b.define items isExternal) := by
  have ha := spares_define a items isExternal
  have hb := spares_define b items isExternal
  suffices hs : (a.define items isExternal).1.core = (b.define items isExternal).1.core ∧
      (a.define items isExternal).2 = (b.define items isExternal).2 from
    ⟨h.of_stays ha.toStays hb.toStays hs.1, hs.2⟩
  unfold Assembly.define
  split
  · rename_i opening prototype rest
    dsimp only
    split
    · exact ⟨h.core, rfl⟩
    · generalize (prototype.statement.opcode ::
        (prototypeDeclarations opening.file prototype.statement).map (·.name)) = names
      have hm := h.meet names
      have hbody := read_eq hm.left hm.right hm.library opening prototype rest
      have hcore : ((a.meet names).read opening prototype rest).assembly.core =
          ((b.meet names).read opening prototype rest).assembly.core :=
        (core_loads (loads_read ..)).trans (hm.core.trans (core_loads (loads_read ..)).symm)
      generalize (a.meet names).read opening prototype rest = r at hbody hcore
      generalize (b.meet names).read opening prototype rest = q at hbody hcore
      have hdefinition : r.definition opening.file prototype.statement =
          q.definition opening.file prototype.statement := by
        unfold Reading.definition Reading.labels Reading.statements
        rw [hbody]
      have registered (u v : MacroRecord) (huv : u.definition = v.definition) :=
        register_congr (a := r.assembly.meet (r.labels.map (·.name) ++ r.declared.map (·.name)))
          (b := q.assembly.meet (q.labels.map (·.name) ++ q.declared.map (·.name))) hcore huv
      exact ⟨(registered _ _ hdefinition).1, congrArg some (registered _ _ hdefinition).2⟩
  · exact ⟨h.core, rfl⟩

/-! ### Macros -/

theorem core_refuse (h : a.core = b.core) (name : String) :
    core { a with refused := name :: a.refused } = core { b with refused := name :: b.refused } := by
  obtain ⟨h1, h2, h3, h4⟩ := core_eq_iff.1 h
  exact core_eq_iff.2 ⟨h1, h2, h3, congrArg (name :: ·) h4⟩

theorem Alike.loadMacro (h : Alike a b) (name : String) :
    AlikeWith (a.loadMacro name) (b.loadMacro name) := by
  have ha := spares_loadMacro a name
  have hb := spares_loadMacro b name
  suffices hs : (a.loadMacro name).1.core = (b.loadMacro name).1.core ∧
      (a.loadMacro name).2 = (b.loadMacro name).2 from ⟨h.of_stays ha.toStays hb.toStays hs.1, hs.2⟩
  have hrefused : a.refused.contains name = b.refused.contains name := by rw [h.refused]
  have hfind : a.library.find? name = b.library.find? name := by rw [h.library]
  unfold Assembly.loadMacro
  rw [hrefused, hfind]
  split
  · exact ⟨h.core, rfl⟩
  · split
    · exact ⟨core_refuse h.core name, rfl⟩
    · rename_i found _
      dsimp only
      generalize throughMend 0 _ = items
      have hp : Alike (a.mapContext (·.pushSource .macroDefinition found.uri))
          (b.mapContext (·.pushSource .macroDefinition found.uri)) :=
        ⟨core_mapContext h.core fun _ => rfl, h.left.of_names rfl fun _ => id,
          h.right.of_names rfl fun _ => id⟩
      obtain ⟨h1, h2⟩ := hp.define items true
      generalize (a.mapContext _).define items true = u at h1 h2
      generalize (b.mapContext _).define items true = v at h1 h2
      have hpop : (u.1.attempt Context.popLevel).core = (v.1.attempt Context.popLevel).core := by
        refine core_attempt h1.core ?_
        rw [Context.core_popLevel, Context.core_popLevel, h1.context]
      obtain ⟨a', d⟩ := u
      obtain ⟨b', d'⟩ := v
      dsimp only at h2 hpop ⊢
      subst h2
      split
      · rename_i d'' _
        rw [core_addFile, core_addFile]
        exact ⟨hpop, rfl⟩
      · exact ⟨core_refuse hpop name, rfl⟩

theorem Alike.macro? (h : Alike a b) (opcode : String) :
    AlikeWith (a.macro? opcode) (b.macro? opcode) := by
  have hoperation : (a.meet [opcode]).context.operation opcode = (b.meet [opcode]).context.operation opcode :=
    congrArg (·.operation opcode) h.context
  have hmacros (n : String) : (a.meet [opcode]).context.macros.find? n =
      (b.meet [opcode]).context.macros.find? n := congrArg (·.macros.find? n) h.context
  have hm := h.meet [opcode]
  unfold Assembly.macro?
  split
  · exact ⟨h, rfl⟩
  · dsimp only
    rw [hoperation, hmacros]
    split
    · exact ⟨hm, rfl⟩
    · split
      · exact ⟨hm, rfl⟩
      · split
        · exact ⟨hm, rfl⟩
        · exact hm.loadMacro _

theorem Alike.symbols (h : Alike a b) : a.context.symbols.core = b.context.symbols.core :=
  congrArg (·.symbols) h.context

theorem Alike.defineSynonym (h : Alike a b) (s : Statement) :
    Alike (a.defineSynonym s) (b.defineSynonym s) := by
  unfold Assembly.defineSynonym
  split
  · exact h
  · rename_i name hlabel
    have hname := ne_empty_of_ordinaryLabel? hlabel
    have hm := h.meet [name]
    dsimp only
    split
    · rename_i c cs _ _ _
      generalize String.ofList (Text.upperChars (c :: cs)) = target
      have ht := hm.meet [target]
      have hknown : ((a.meet [name]).meet [target]).context.macros.contains target =
          ((b.meet [name]).meet [target]).context.macros.contains target :=
        congrArg (·.macros.contains target) ht.context
      have entered {a' b' : Assembly} (h' : Alike a' b') :
          Alike (a'.attempt (·.addSynonym name target)) (b'.attempt (·.addSynonym name target)) := by
        refine h'.of_stays (spares_addSynonym _ hname _).toStays (spares_addSynonym _ hname _).toStays
          (core_attempt h'.core ?_)
        rw [Context.core_addSynonym, Context.core_addSynonym, h'.context]
      rw [hknown]
      split
      · exact entered ht
      · exact entered (ht.loadMacro target).1
    · exact hm.mapContext (fun _ => rfl) (spares_insertSynonym hname "").toStays
        (spares_insertSynonym hname "").toStays

theorem Alike.callMacro (h : Alike a b) {d : MacroDefinition}
    (hd : a.context.macros.find? d.name = some d) (s : Statement) (f : Nat → Nat) :
    Alike (a.callMacro d s).1 (b.callMacro d s).1 ∧ SameFlow Eq f (a.callMacro d s).2 (b.callMacro d s).2 := by
  have hd' : b.context.macros.find? d.name = some d :=
    (congrArg (·.macros.find? d.name) h.context).symm.trans hd
  have ha := sound_callMacro h.left hd s
  have hb := sound_callMacro h.right hd' s
  suffices hs : (a.callMacro d s).1.core = (b.callMacro d s).1.core ∧
      SameFlow Eq f (a.callMacro d s).2 (b.callMacro d s).2 from ⟨⟨hs.1, ha, hb⟩, hs.2⟩
  have hdepth : a.context.depth = b.context.depth := congrArg (·.depth) h.context
  unfold Assembly.callMacro
  rw [h.settings, hdepth]
  split
  · exact ⟨h.core, .next⟩
  · dsimp only
    generalize s.operands.map (fun o => Argument.ofText o.text) = args
    have hm := h.meet (args.filterMap (·.keyword))
    have hx := Context.core_enterMacro hm.context d.name (labelData? s) args
    cases hl : (a.meet (args.filterMap (·.keyword))).context.enterMacro d.name (labelData? s) args with
    | error e =>
      cases hr : (b.meet (args.filterMap (·.keyword))).context.enterMacro d.name (labelData? s) args with
      | error e' => exact ⟨h.core, .next⟩
      | ok y => simp [hl, hr, Except.map] at hx
    | ok x =>
      cases hr : (b.meet (args.filterMap (·.keyword))).context.enterMacro d.name (labelData? s) args with
      | error e' => simp [hl, hr, Except.map] at hx
      | ok y =>
        rw [hl, hr] at hx
        have hxy : x.core = y.core := Except.ok.inj hx
        have hinvocation : x.invocation? = y.invocation? := congrArg (·.invocation?) hxy
        obtain ⟨-, h2, h3, h4⟩ := core_eq_iff.1 h.core
        refine ⟨core_eq_iff.2 ⟨hxy, h2, h3, h4⟩, ?_⟩
        dsimp only
        rw [hinvocation]
        exact .call rfl

end Alike

end Assembly

open Assembly

/-- Assemblies that are alike are compared by equality. -/
def alikeness : Congruence where
  Rel := Alike
  Twin := Eq
  SameItem := Eq
  Agree := Eq
  sound h := ⟨h.left, h.right⟩
  library h := h.library
  symbols h := h.symbols
  operation h name := congrArg (·.operation name) h.context
  counter h := by rw [← Context.branchCounter_core, h.context, Context.branchCounter_core]
  environment h := h.environment
  visible h := congrArg (·.visible?) h
  body h := congrArg (·.body) h
  offset h n := by rw [h]
  nested h := by
    rw [h]
    exact List.forall₂_same.2 fun _ _ => rfl
  statement h := congrArg (·.statement) h
  of_core h ha hb hsa hsb := ⟨ha.trans (h.core.trans hb.symm), hsa, hsb⟩
  mapContext h hf ha hb := ⟨core_mapContext h.core hf.core, ha, hb⟩
  mapSymbols h hfg ha hb := ⟨core_mapSymbols h.core hfg, ha, hb⟩
  assign? h := Alike.assign? h
  define h hitems := by
    rw [List.forall₂_eq_eq_eq] at hitems
    rw [hitems]
    exact (h.define _ false).1
  macro? {a b} h opcode := by
    obtain ⟨h1, h2⟩ := h.macro? opcode
    refine ⟨h1, ?_⟩
    rw [h2]
    cases (b.macro? opcode).2 with
    | none => exact .none
    | some d => exact .some rfl
  callMacro h hd _ hdd s f := by
    subst hdd
    exact Alike.callMacro h hd s f
  defineSynonym h s := h.defineSynonym s

theorem fixes_alikeness (s : Statement) : alikeness.Fixes s := Congruence.fixes_of_eq (fun _ _ => id) s

end AssemblerIndex
