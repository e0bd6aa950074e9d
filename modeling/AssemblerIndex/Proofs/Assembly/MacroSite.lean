import AssemblerIndex.Proofs.Assembly.LateMacro
import AssemblerIndex.Proofs.Assembly.Pairing

/-!
# A member that is the definition of a macro

An open code that may use a macro of the library is compared to the one that has the definition of the macro in front
of it.  A place of the one listing is a place of the other one, further on by the length of the definition.  On the
right the definition is read in the first step (`MacroSite.step_inlined`); from there on the two sides are akin.
-/

namespace AssemblerIndex

open Assembly

/-- An open code, and a member of the library under the name of a macro. -/
structure MacroSite where
  file : String
  library : Library
  settings : Settings
  now : Moment
  code : List Statement
  name : String
  found : LibraryMember

/-- The statements are one definition of a macro, from `MACRO` through the `MEND` that closes it. -/
structure IsDefinition (l : List Statement) (name : String) : Prop where
  opening : l[0]?.map (·.opcode) = some "MACRO"
  prototype : l[1]?.map (·.opcode) = some name
  within : ∀ k < l.length, 0 < k → 0 < openBefore l k
  closed : openBefore l l.length = 0

namespace MacroSite

variable (S : MacroSite)

/-- The statements of the member. -/
def definition : List Statement := statementsOf S.found.text.toList

/-- The open code behind the definition. -/
def inlined : List Statement := S.definition ++ S.code

/-- What is assembled, with a list of statements as the open code. -/
def job (l : List Statement) : Job := ⟨l.toArray, S.file, S.library, S.settings⟩

/-- The assembly of a list of statements as the open code, from a fresh state. -/
def assembling (l : List Statement) : Assembly :=
  { fresh S.file "" S.library S.settings S.now with control := [⟨.openCode l.toArray S.file, 0⟩] }

/-- The index of the statement behind the definition that stands at `i` without it. -/
def shift (i : Nat) : Nat := S.definition.length + i

/-- The entry of a label behind the definition that stands for a label without it. -/
def relabel (l : SequenceSymbol) : SequenceSymbol :=
  if l.location.file = S.file then { l with offset := S.shift l.offset } else l

theorem moves_shift : Moves S.relabel S.shift S.file where
  sameFile l := by
    unfold relabel
    split <;> rfl
  moved _ h := if_pos h

theorem moves_id {file : String} (hf : file ≠ S.file) : Moves S.relabel id file where
  sameFile := S.moves_shift.sameFile
  moved _ h := if_neg (h ▸ hf)

theorem balanced_assembling (l : List Statement) : Balanced (S.job l) (S.assembling l) :=
  ⟨rfl, rfl, .openCode 0, rfl, rfl, Nat.zero_le _,
    (sound_fresh S.file "" S.library S.settings S.now).of_names rfl fun _ => id, rfl⟩

/-- The member is the definition of the macro of its name, which is no instruction. -/
structure Proper : Prop where
  find : S.library.find? S.name = some S.found
  isDefinition : IsDefinition S.definition S.name
  usable : S.name ≠ "" ∧ S.name.toList.contains '&' = false
  notInstruction : instructionKind? S.name = none

end MacroSite

/-! ### The extent of the definition -/

theorem openBefore_append {l : List Statement} {k : Nat} (h : k ≤ l.length) (m : List Statement) :
    openBefore (l ++ m) k = openBefore l k := by
  unfold openBefore
  rw [List.take_append_of_le_length h]

/-- The block that a definition opens is the definition. -/
theorem IsDefinition.blockLength {l : List Statement} {name : String} (h : IsDefinition l name) (m : List Statement) :
    blockLength 0 (l ++ m) = l.length := by
  obtain ⟨s, hs, hmacro⟩ := Option.map_eq_some_iff.1 h.opening
  have hpos : 0 < l.length := (List.getElem?_eq_some_iff.1 hs).1
  have hs' : (l ++ m)[0]? = some s := by rw [List.getElem?_append_left hpos, hs]
  obtain ⟨hlt, hwithin, hend⟩ := open_of_block hs' hmacro
  have hblock : blockEnd (l ++ m) 0 = AssemblerIndex.blockLength 0 (l ++ m) := Nat.zero_add _
  rw [hblock] at hlt hwithin hend
  have hclosed : openBefore (l ++ m) l.length = 0 := (openBefore_append (Nat.le_refl _) m).trans h.closed
  rcases Nat.lt_trichotomy (AssemblerIndex.blockLength 0 (l ++ m)) l.length with hb | hb | hb
  · -- the definition is still open there
    have hopen := h.within _ hb hlt
    rw [← openBefore_append (Nat.le_of_lt hb) m] at hopen
    rcases hend with hend | hend
    · rw [hend, List.length_append] at hb
      omega
    · rw [hend] at hopen
      exact absurd hopen (Nat.lt_irrefl _)
  · exact hb
  · have hopen := hwithin _ hpos hb
    rw [hclosed] at hopen
    exact absurd hopen (Nat.not_lt_zero _)

/-- The definition is read as it stands, whatever follows. -/
theorem IsDefinition.throughMend {l : List Statement} {name : String} (h : IsDefinition l name) (file : String)
    (m : List Statement) : throughMend 0 ((l ++ m).map (.direct file)) = l.map (.direct file) := by
  have hmap : ((l ++ m).map (NestedStatement.direct file)).map (·.statement) = l ++ m := by
    rw [List.map_map]
    exact List.map_id _
  rw [throughMend_eq_take, hmap, h.blockLength, List.map_append]
  exact List.take_left' (List.length_map _)

namespace MacroSite

section Member

variable {S : MacroSite}

/-! ### The macro -/

variable (S) in
/-- The definition that the member is read as, without places. -/
def bareDefinition : MacroDefinition :=
  (((S.assembling []).define (S.definition.map (.direct S.file)) false).2.map (·.bare)).getD default

theorem Proper.definedName? (hS : S.Proper) (file : String) :
    definedName? (S.definition.map (.direct file)) = some S.name := by
  obtain ⟨s, hs, -⟩ := Option.map_eq_some_iff.1 hS.isDefinition.opening
  obtain ⟨prototype, hp, hname⟩ := Option.map_eq_some_iff.1 hS.isDefinition.prototype
  generalize S.definition = l at hs hp
  match l with
  | [] => cases hs
  | [_] => cases hp
  | _ :: q :: rest =>
    obtain rfl : q = prototype := Option.some.inj hp
    show (if q.opcode.isEmpty || q.opcode.toList.contains '&' then none else some q.opcode) = some S.name
    rw [hname, if_neg]
    have hu := hS.usable
    simpa using hu

/-- The member is its own first definition. -/
theorem Proper.definitionItems (hS : S.Proper) :
    S.library.definitionItems S.name = S.definition.map (.direct S.found.uri) := by
  obtain ⟨s, hs, hmacro⟩ := Option.map_eq_some_iff.1 hS.isDefinition.opening
  have hitems := hS.isDefinition.throughMend S.found.uri []
  rw [List.append_nil] at hitems
  have hdrop : (S.definition.map (NestedStatement.direct S.found.uri)).dropWhile (·.statement.opcode ≠ "MACRO") =
      S.definition.map (.direct S.found.uri) := by
    generalize S.definition = l at hs
    cases l with
    | nil => cases hs
    | cons s' rest =>
      obtain rfl := Option.some.inj hs
      rw [List.map_cons, List.dropWhile_cons_of_neg]
      exact Bool.eq_false_iff.1 (decide_eq_false (not_not_intro hmacro))
  unfold Library.definitionItems
  rw [hS.find]
  exact (congrArg (AssemblerIndex.throughMend 0) hdrop).trans hitems

/-- Wherever and whenever the member is read, it is read as the same definition. -/
theorem Proper.bare_define (hS : S.Proper) {a : Assembly} (ha : a.Sound) (hl : a.library = S.library) (file : String)
    (isExternal : Bool) :
    (a.define (S.definition.map (.direct file)) isExternal).2.map (·.bare) = some S.bareDefinition := by
  have hitems : List.Forall₂ SameStatement (S.definition.map (.direct file)) (S.definition.map (.direct S.file)) := by
    rw [forall₂_sameStatement, List.map_map, List.map_map]
    rfl
  have hdefined := defined_define ha (S.balanced_assembling []).sound hl hitems isExternal false
  obtain ⟨_, r, -, -, -, hdefine⟩ := define_of_some (hS.definedName? S.file) (S.assembling []) false
  unfold bareDefinition
  rw [hdefined.bare, hdefine]
  rfl

/-- The macro of the member, as one that is loaded when it is needed. -/
def Proper.libraryMacro (hS : S.Proper) : LibraryMacro where
  library := S.library
  name := S.name
  definition := S.bareDefinition
  notInstruction := hS.notInstruction
  defined := by
    unfold Library.definedMacro?
    rw [hS.definitionItems]
    exact hS.definedName? _
  loaded {a d} ha hl h := by
    obtain ⟨found, hd⟩ := define_of_loadMacro h
    have hpushed : (a.mapContext (·.pushSource .macroDefinition found.uri)).Sound := ha.of_names rfl fun _ => id
    have hbare := hS.bare_define hpushed hl S.found.uri true
    rw [hl, hS.definitionItems] at hd
    rw [hd] at hbare
    exact Option.some.inj hbare

/-! ### The first step -/

/-- From a fresh state the sides are near each other, whatever they assemble. -/
theorem near_assembling (M : LibraryMacro) (hM : M.library = S.library) (l m : List Statement) :
    M.Near (S.assembling l) (S.assembling m) :=
  ⟨rfl, rfl, rfl, hM.symm, hM.symm, fun _ => .inl rfl⟩

/-- **Reading the definition in front of the open code** is a step of the one side, behind which only its table of
macros is another one. -/
theorem Proper.step_inlined (hS : S.Proper) : ∃ b, (S.assembling S.inlined).step = .ok b ∧
    b.control = [⟨.openCode S.inlined.toArray S.file, S.shift 0⟩] ∧ b.openLabels = {} ∧
    hS.libraryMacro.Akin (S.assembling S.code) b := by
  obtain ⟨s, hs, hmacro⟩ := Option.map_eq_some_iff.1 hS.isDefinition.opening
  have hbalanced := S.balanced_assembling S.inlined
  have hinlined : S.inlined[0]? = some s :=
    (List.getElem?_append_left (List.getElem?_eq_some_iff.1 hs).1).trans hs
  have hitems := hS.isDefinition.throughMend S.file S.code
  have hstep := Assembly.step_of_statement (a := S.assembling S.inlined) rfl
    ((List.getElem?_toArray ..).trans hinlined)
  rw [if_pos hmacro] at hstep
  have hkeeps := keeps_moveTo hbalanced rfl s
  generalize hx : (S.assembling S.inlined).moveTo ⟨.openCode S.inlined.toArray S.file, 0⟩ s = x at hstep hkeeps
  have hcore : x.core = (S.assembling S.inlined).core := hx ▸ core_moveTo_of_openCode rfl rfl s
  obtain ⟨c, r, hloads, -, hname, hfirst, hsecond⟩ := define_in_level x ⟨.macroDefinition, false⟩ x.context.sources rfl
    _ false (hS.definedName? S.file)
  have hread : x.readDefinition ⟨.openCode S.inlined.toArray S.file, 0⟩ [] =
      { (c.register r).1 with control := [⟨.openCode S.inlined.toArray S.file, S.shift 0⟩] } := by
    unfold readDefinition
    dsimp only
    rw [show AssemblerIndex.throughMend 0 (nestedStatements ⟨.openCode S.inlined.toArray S.file, 0⟩) = _ from hitems,
      List.length_map, Nat.zero_add]
    exact congrArg (fun y : Assembly => { y with control := [⟨.openCode S.inlined.toArray S.file, S.shift 0⟩] }) hfirst
  have hbare : (c.register r).2.bare = S.bareDefinition := by
    have hd := hS.bare_define (a := { x with context := { x.context with
      levels := ⟨.macroDefinition, false⟩ :: x.context.levels, sources := x.context.sources } })
      ((hkeeps.toStays.sound hbalanced.sound).of_names rfl fun _ => id)
      (hkeeps.library.trans hbalanced.library) S.file false
    rw [hsecond] at hd
    exact Option.some.inj hd
  rw [hread] at hstep
  have hnear : hS.libraryMacro.Near (S.assembling S.code) (c.register r).1 :=
    ((near_assembling hS.libraryMacro rfl S.code S.inlined).of_core rfl
      ((core_loads hloads).trans hcore)).register_right hname hbare rfl
  refine ⟨_, hstep, rfl, ?_, hnear.of_core rfl rfl, (S.balanced_assembling S.code).sound,
    (hbalanced.step hstep).sound⟩
  obtain ⟨d, n, records, -, hregister⟩ := exists_register c r
  rw [hregister, hloads.frame]
  exact hkeeps.labels

end Member

/-! ### Listings -/

variable (S : MacroSite)

/-- The listings on the two sides while no macro is being expanded. -/
inductive Beside : List Activation → List Activation → Prop
  | openCode (i : Nat) : Beside [⟨.openCode S.code.toArray S.file, i⟩]
    [⟨.openCode S.inlined.toArray S.file, S.shift i⟩]
  | copy {outer outer' : List Activation} (m : CopyMember) (i : Nat) (h : Beside outer outer') :
    Beside (⟨.copyMember m, i⟩ :: outer) (⟨.copyMember m, i⟩ :: outer')

/-- The listings on the two sides. -/
inductive Along : List Activation → List Activation → Prop
  | finished : Along [] []
  | beside {control control' : List Activation} (h : S.Beside control control') : Along control control'
  | call {outer outer' : List Activation} {d d' : MacroDefinition} (i : Nat) (hd : d.bare = d'.bare)
    (h : Along outer outer') : Along (⟨.macroBody d, i⟩ :: outer) (⟨.macroBody d', i⟩ :: outer')

/-- Open code runs beside the one behind the definition, and macros beside their twins. -/
def pairing (M : LibraryMacro) : Pairing M.congruence where
  relabel := S.relabel
  Along := S.Along
  finished := .finished
  call i hd h := .call i hd h

section Listings

variable {S} {i : Nat} {control control' : List Activation} {a b : Assembly} {j j' : Job}

/-- Behind the definition the listing is the open code. -/
theorem drop_shift (i : Nat) : S.inlined.drop (S.shift i) = S.code.drop i :=
  List.drop_length_add_append ..

theorem Along.isEmpty (h : S.Along control control') : control.isEmpty = control'.isEmpty := by
  cases h with
  | finished => rfl
  | beside h => cases h <;> rfl
  | call i hd h => rfl

theorem Beside.membersIn (h : S.Beside control control') : membersIn control = membersIn control' := by
  induction h with
  | openCode i => rfl
  | copy m i _ ih => exact congrArg (m.name :: ·) ih

/-- The same copy members are open on both sides. -/
theorem Beside.sameOpen (h : S.Beside a.control b.control) (ha : Balanced j a) (hb : Balanced j' b) :
    SameOpen a b :=
  ⟨ha.sources, hb.sources, by rw [ha.openCopyMembers, hb.openCopyMembers, h.membersIn]⟩

end Listings

end MacroSite

end AssemblerIndex
