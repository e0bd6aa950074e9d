import AssemblerIndex.Proofs.Assembly.Alike
import AssemblerIndex.Proofs.Assembly.Bodies
import AssemblerIndex.Proofs.Assembly.Pairing

/-!
# Where statements come from

Macros consist of statements of the open code and of the library, and no others are ever processed.  So what all of
these have in common, all statements have that a run comes to (`Reaches.kind`).  What macros consist of is carried along
as a way to compare an assembly with itself (`kinship`).
-/

namespace AssemblerIndex

open Assembly

/-- The statements of the definition are of the kind. -/
def MacroDefinition.ConsistsOf (d : MacroDefinition) (T : Statement → Prop) : Prop := ∀ s ∈ d.body, T s

/-- The statements of all members are of the kind. -/
def Library.ConsistsOf (l : Library) (T : Statement → Prop) : Prop :=
  ∀ name found, l.find? name = some found → ∀ s ∈ statementsOf found.text.toList, T s

/-- The statements of all macros are of the kind. -/
def Assembly.DefinesOnly (a : Assembly) (T : Statement → Prop) : Prop :=
  ∀ name d, a.context.macros.find? name = some d → d.ConsistsOf T

/-- The nested statements are the same, and of the kind. -/
def SameOf (T : Statement → Prop) (n n' : NestedStatement) : Prop := n = n' ∧ T n.statement

section Kind

variable {T : Statement → Prop} {a b : Assembly} {l : Library} {items items' : List NestedStatement}

theorem forall₂_sameOf : List.Forall₂ (SameOf T) items items' ↔ items = items' ∧ ∀ n ∈ items, T n.statement := by
  constructor
  · intro h
    induction h with
    | nil => exact ⟨rfl, nofun⟩
    | cons hn _ ih => exact ⟨congrArg₂ _ hn.1 ih.1, List.forall_mem_cons.2 ⟨hn.2, ih.2⟩⟩
  · rintro ⟨rfl, h⟩
    exact List.forall₂_same.2 fun n hn => ⟨rfl, h n hn⟩

/-! ### Macros -/

theorem consists_iff {d : MacroDefinition} : d.Consists (fun n => T n.statement) ↔ d.ConsistsOf T := by
  constructor
  · intro h s hs
    obtain ⟨i, hi, rfl⟩ := List.getElem_of_mem (Array.mem_toList_iff.2 hs)
    exact h ⟨d.body.toList[i], d.nests[i]?.getD []⟩ (List.mem_mapIdx.2 ⟨i, hi, rfl⟩)
  · intro h n hn
    obtain ⟨i, hi, rfl⟩ := List.mem_mapIdx.1 hn
    exact h _ (Array.mem_toList_iff.1 (List.getElem_mem hi))

theorem inherent_of_consistsOf (hl : l.ConsistsOf T) : Inherent l fun n => T n.statement where
  member hfound s hs := hl _ _ hfound s hs
  copied _ _ _ hfound k hk := by
    obtain ⟨s, hs, rfl⟩ := List.mem_map.1 hk
    exact hl _ _ hfound s hs

theorem Assembly.DefinesOnly.informed (h : a.DefinesOnly T) (ha : a.Sound) (hl : a.library.ConsistsOf T) :
    Informed (fun n => T n.statement) a :=
  ⟨ha, inherent_of_consistsOf hl, fun hd => consists_iff.2 (h _ _ hd)⟩

theorem Assembly.Informed.definesOnly (h : Informed (fun n => T n.statement) a) : a.DefinesOnly T :=
  fun _ _ hd => consists_iff.1 (h.macros hd)

/-- A call changes neither the library nor the table of macros. -/
theorem macros_callMacro {d : MacroDefinition} (hd : a.context.macros.find? d.name = some d) (s : Statement) :
    (a.callMacro d s).1.library = a.library ∧ (a.callMacro d s).1.context.macros = a.context.macros := by
  unfold Assembly.callMacro
  split
  · exact ⟨rfl, rfl⟩
  · dsimp only
    generalize s.operands.map (fun o => Argument.ofText o.text) = args
    obtain ⟨c, ns, v, hx, -⟩ :=
      exists_enterMacro (x := (a.meet (args.filterMap (·.keyword))).context) hd (labelData? s) args
    rw [hx]
    exact ⟨rfl, rfl⟩

/-! ### Comparison with itself -/

/-- The assemblies are alike, and their macros and libraries consist of statements of the kind. -/
structure Kin (T : Statement → Prop) (a b : Assembly) : Prop extends Alike a b where
  consists : a.library.ConsistsOf T
  only : a.DefinesOnly T

theorem Kin.of_macros {a' b' : Assembly} (h : Kin T a b) (ha : Alike a' b') (hl : a'.library = a.library)
    (hm : a'.context.macros = a.context.macros) : Kin T a' b' :=
  ⟨ha, hl ▸ h.consists, fun n d hd => h.only n d (hm ▸ hd)⟩

theorem Kin.of_spares {a' b' : Assembly} (h : Kin T a b) (hs : a.Spares a') (ha : Alike a' b')
    (only : a'.DefinesOnly T) : Kin T a' b' :=
  ⟨ha, by rw [hs.library]; exact h.consists, only⟩

end Kind

variable (T : Statement → Prop)

/-- Assemblies that are alike are compared by equality, and what is compared is of the kind. -/
def kinship : Congruence where
  Rel := Kin T
  Twin d d' := d = d' ∧ d.ConsistsOf T
  SameItem := SameOf T
  Agree := Eq
  sound h := ⟨h.left, h.right⟩
  library h := h.toAlike.library
  symbols h := h.symbols
  operation h := alikeness.operation h.toAlike
  counter h := alikeness.counter h.toAlike
  environment h := h.environment
  visible := @alikeness.visible
  body h := congrArg (·.body) h.1
  offset h n := by rw [h.1]
  nested {d d'} h := by
    obtain ⟨rfl, h⟩ := h
    exact forall₂_sameOf.2 ⟨rfl, consists_iff.2 h⟩
  statement h := congrArg _ h.1
  of_core h ha hb hsa hsb := h.of_macros (alikeness.of_core h.toAlike ha hb hsa hsb) (core_eq_iff.1 ha).2.1
    (congrArg (·.context.macros) ha)
  mapContext h hf ha hb := h.of_macros (alikeness.mapContext h.toAlike hf ha hb) rfl (hf.macros _)
  mapSymbols h hfg ha hb := h.of_macros (alikeness.mapSymbols h.toAlike hfg ha hb) rfl rfl
  assign? {a b} h name subscript v := by
    have hassign := Alike.assign? h.toAlike name subscript v
    generalize hx : a.context.assign? name subscript v = x at hassign ⊢
    generalize b.context.assign? name subscript v = y at hassign ⊢
    cases hassign with
    | none => exact .none
    | some hxy => exact .some (h.of_macros hxy rfl (Context.macros_assign? hx))
  define h hitems := by
    obtain ⟨rfl, hkind⟩ := forall₂_sameOf.1 hitems
    have hd := (h.only.informed h.left h.consists).define hkind false
    exact h.of_spares (spares_define ..) (h.toAlike.define _ false).1 hd.definesOnly
  macro? {a b} h opcode := by
    obtain ⟨h1, h2⟩ := h.toAlike.macro? opcode
    have h3 := ((h.only.informed h.left h.consists).macro? opcode).definesOnly
    have h4 : ∀ d, (a.macro? opcode).2 = some d → d.ConsistsOf T := fun d hd => h3 _ d (find?_of_macro? h.left hd)
    refine ⟨h.of_spares (spares_macro? ..) h1 h3, ?_⟩
    rw [← h2]
    generalize (a.macro? opcode).2 = d at h4
    cases d with
    | none => exact .none
    | some d => exact .some ⟨rfl, h4 d rfl⟩
  callMacro {a b d d'} h hd hd' hdd s f := by
    obtain ⟨rfl, hkind⟩ := hdd
    obtain ⟨h1, h2⟩ := Alike.callMacro h.toAlike hd s f
    obtain ⟨h3, h4⟩ := macros_callMacro hd s
    refine ⟨h.of_macros h1 h3 h4, ?_⟩
    generalize hu : a.callMacro d s = u at h2
    generalize (b.callMacro d s).2 = flow at h2
    rcases callMacro_cases hd hu with ⟨hflow, -⟩ | ⟨hflow, -⟩
    · rw [hflow] at h2 ⊢
      cases h2
      exact .next
    · rw [hflow] at h2 ⊢
      cases h2 with
      | call hd => exact .call ⟨hd, hkind⟩
  defineSynonym h s := h.of_spares (spares_defineSynonym ..) (h.toAlike.defineSynonym s)
    ((h.only.informed h.left h.consists).defineSynonym s).definesOnly

/-- An assembly runs beside itself, and the macros that are being expanded are of the kind. -/
def kindred : Pairing (kinship T) where
  relabel := id
  Along control control' := control = control' ∧ ∀ d i, ⟨.macroBody d, i⟩ ∈ control → d.ConsistsOf T
  finished := ⟨rfl, nofun⟩
  call {d d' outer outer'} i hd h := by
    refine ⟨by rw [hd.1, h.1], fun e k he => ?_⟩
    rcases List.mem_cons.1 he with he | he
    · cases he
      exact hd.2
    · exact h.2 e k he

/-! ### Runs -/

section Runs

variable {T} {a b : Assembly} {j : Job} {p : Activation} {outer : List Activation}

/-- The listings consist of statements of the kind, if the macros among them do. -/
theorem Assembly.Balanced.kind (h : Balanced j a) (code : ∀ s ∈ j.statements, T s) (library : j.library.ConsistsOf T)
    (macros : ∀ d i, ⟨.macroBody d, i⟩ ∈ a.control → d.ConsistsOf T) (hp : p ∈ a.control) :
    ∀ s ∈ p.statements, T s := by
  obtain ⟨l, i⟩ := p
  cases l with
  | openCode l file =>
    obtain rfl := h.nested.eq_statements hp
    exact code
  | copyMember m =>
    obtain ⟨found, hfound, hm⟩ := h.nested.exists_found hp
    intro s hs
    have hbody : s ∈ m.body := hs
    rw [hm] at hbody
    exact library _ _ hfound s (List.mem_toArray.1 hbody)
  | macroBody d => exact macros d i hp

/-- The next step keeps an assembly beside itself. -/
theorem Assembly.Balanced.kindred_step (ha : Balanced j a) (code : ∀ s ∈ j.statements, T s)
    (library : j.library.ConsistsOf T) (h : (kindred T).Related a a) (hs : a.step = .ok b) :
    (kindred T).Related b b := by
  have hkind {p : Activation} (hp : p ∈ a.control) := ha.kind code library h.control.2 hp
  suffices hout : SameOutcome (kindred T).Related a.step a.step by
    rw [hs] at hout
    cases hout with
    | ok h => exact h
  have fixed (s : Statement) : (kinship T).Fixes s := Congruence.fixes_of_eq (fun _ _ => id) s
  cases hc : a.control with
  | nil =>
    rw [step_of_isFinished (List.isEmpty_iff.2 hc)]
    exact .ok h
  | cons p outer =>
    have hmacros : ∀ d i, ⟨.macroBody d, i⟩ ∈ p :: outer → d.ConsistsOf T := hc ▸ h.control.2
    have leave : (kindred T).Along outer outer := ⟨rfl, fun d k hk => hmacros d k (List.mem_cons_of_mem _ hk)⟩
    cases hp : p.definition? with
    | some d =>
      obtain ⟨l, i⟩ := p
      cases l with
      | macroBody d => exact h.step_of_call ha ha ⟨rfl, hmacros d i List.mem_cons_self⟩ hc hc leave fun s _ => fixed s
      | openCode => cases hp
      | copyMember => cases hp
    | none =>
      have hopen : SameOpen a a := ⟨ha.sources, ha.sources, rfl⟩
      have same : ∀ n ∈ nestedStatements p, SameOf T n n := by
        unfold nestedStatements
        rw [hp]
        intro n hn
        obtain ⟨s, hs, rfl⟩ := List.mem_map.1 hn
        exact ⟨rfl, hkind (hc ▸ List.mem_cons_self) s (Array.mem_toList_iff.1 (List.mem_of_mem_drop hs))⟩
      have along (i : Nat) : (kindred T).Along ({ p with index := i } :: outer) ({ p with index := i } :: outer) := by
        refine ⟨rfl, fun d k hk => ?_⟩
        rcases List.mem_cons.1 hk with hk | hk
        · obtain ⟨l, index⟩ := p
          cases hk
          cases hp
        · exact leave.2 d k hk
      have enter (m : CopyMember) : (kindred T).Along
          ({ listing := .copyMember m } :: { p with index := p.index + 1 } :: outer)
          ({ listing := .copyMember m } :: { p with index := p.index + 1 } :: outer) :=
        ⟨rfl, fun d k hk => (along _).2 d k ((List.mem_cons.1 hk).resolve_left nofun)⟩
      exact h.step_of_listing (f := id) ha ha hc hc hp hp rfl (fun _ => rfl) (fun _ => rfl) same
        ⟨fun _ => rfl, fun _ _ => rfl⟩ hopen (fun s _ => fixed s) along (fun m _ => enter m) leave

/-- **What the statements of open code and of the library have in common, all statements have that a run comes to.** -/
theorem Assembly.Reaches.kind (h : a.Reaches b) (ha : Balanced j a) (code : ∀ s ∈ j.statements, T s)
    (library : j.library.ConsistsOf T) (only : a.DefinesOnly T)
    (macros : ∀ d i, ⟨.macroBody d, i⟩ ∈ a.control → d.ConsistsOf T) (hp : p ∈ b.control) :
    ∀ s ∈ p.statements, T s := by
  have consists : a.library.ConsistsOf T := by rwa [ha.library]
  have start : (kindred T).Related a a := by
    refine ⟨⟨⟨rfl, ha.sound, ha.sound⟩, consists, only⟩, fun n => ?_, rfl, macros⟩
    exact (congrFun Option.map_id _).symm
  obtain ⟨hb, hrelated⟩ := h.induction (P := fun x => Balanced j x ∧ (kindred T).Related x x)
    (fun x y hx hs => ⟨hx.1.step hs, hx.1.kindred_step code library hx.2 hs⟩) ⟨ha, start⟩
  exact hb.kind code library hrelated.control.2 hp

end Runs

end AssemblerIndex
