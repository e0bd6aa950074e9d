import AssemblerIndex.Proofs.Assembly.Bare
import AssemblerIndex.Proofs.Assembly.CoreStatements
import Mathlib.Data.List.Forall2

/-!
# What is read of a definition

A definition is read from its statements and from the copy members of the library; the state in which that happens
does not count.  `Pointwise` says which nested statements belong to each other: what is read of lists that belong to
each other belongs to each other as well (`read_pointwise`).  If only the statements have to be the same, and not the
places that they came from, then what is read are twins: definitions that are the same when they are bare
(`definition_bare`).
-/

namespace AssemblerIndex

open Assembly

/-- A way to compare nested statements that goes on into the copy members of a library. -/
structure Pointwise (l : Library) (E : NestedStatement → NestedStatement → Prop) : Prop where
  statement : ∀ {n n'}, E n n' → n.statement = n'.statement
  copied : ∀ {n n' name found}, E n n' → l.find? name = some found →
    List.Forall₂ E (n.copied (found.copyMember name)) (n'.copied (found.copyMember name))

theorem pointwise_eq (l : Library) : Pointwise l Eq where
  statement h := congrArg _ h
  copied h _ := by
    rw [h]
    exact List.forall₂_same.2 fun _ _ => rfl

/-- The statements are the same, wherever they came from. -/
def SameStatement (n n' : NestedStatement) : Prop := n.statement = n'.statement

theorem forall₂_sameStatement {items items' : List NestedStatement} :
    List.Forall₂ SameStatement items items' ↔ items.map (·.statement) = items'.map (·.statement) := by
  rw [← List.forall₂_eq_eq_eq, List.forall₂_map_left_iff, List.forall₂_map_right_iff]
  rfl

theorem pointwise_sameStatement (l : Library) : Pointwise l SameStatement where
  statement h := h
  copied _ _ := by
    rw [forall₂_sameStatement]
    unfold NestedStatement.copied
    rw [List.map_map, List.map_map]
    rfl

section Reading

variable {l : Library} {E : NestedStatement → NestedStatement → Prop} {r q : Reading} {n n' : NestedStatement}
  {items items' : List NestedStatement} {a b : Assembly}

/-- What has been read so far belongs to each other. -/
structure Parallel (l : Library) (E : NestedStatement → NestedStatement → Prop) (r q : Reading) : Prop where
  left : r.assembly.Sound
  right : q.assembly.Sound
  leftLibrary : r.assembly.library = l
  rightLibrary : q.assembly.library = l
  body : List.Forall₂ E r.body q.body

theorem Parallel.of_spares {r' q' : Reading} (h : Parallel l E r q) (hr : r.assembly.Spares r'.assembly)
    (hq : q.assembly.Spares q'.assembly) (hbody : List.Forall₂ E r'.body q'.body) : Parallel l E r' q' :=
  ⟨hr.sound h.left, hq.sound h.right, hr.library.trans h.leftLibrary, hq.library.trans h.rightLibrary, hbody⟩

/-- The same copy member is opened on both sides, and it is one of the library. -/
theorem Parallel.copied? (hE : Pointwise l E) (h : Parallel l E r q) (openMembers : List String) (hn : E n n') :
    Parallel l E (r.copied? openMembers n).1 (q.copied? openMembers n').1 ∧
      (r.copied? openMembers n).2 = (q.copied? openMembers n').2 ∧
      ∀ m, (r.copied? openMembers n).2 = some m → List.Forall₂ E (n.copied m) (n'.copied m) := by
  have hname : n.copyName? = n'.copyName? := by
    unfold NestedStatement.copyName?
    rw [hE.statement hn]
  unfold Reading.copied?
  rw [← hname]
  split
  · exact ⟨h, rfl, nofun⟩
  · rename_i name _
    refine ⟨h.of_spares (spares_copyMember? ..) (spares_copyMember? ..) h.body, ?_⟩
    dsimp only
    rw [snd_copyMember? h.left, snd_copyMember? h.right, h.leftLibrary, h.rightLibrary]
    refine ⟨rfl, fun m hm => ?_⟩
    obtain ⟨found, hfound, rfl⟩ := Option.map_eq_some_iff.1 (Option.filter_eq_some_iff.1 hm).1
    exact hE.copied hn hfound

theorem Parallel.appendOne {inner : List String → Reading → List NestedStatement → Reading} (hE : Pointwise l E)
    (hinner : ∀ openMembers {items items' : List NestedStatement} {r q : Reading}, Parallel l E r q →
      List.Forall₂ E items items' → Parallel l E (inner openMembers r items) (inner openMembers q items'))
    (h : Parallel l E r q) (openMembers : List String) (hn : E n n') :
    Parallel l E (r.appendOne inner openMembers n) (q.appendOne inner openMembers n') := by
  have hs := hE.statement hn
  have hnote : Parallel l E (r.noteBody n) (q.noteBody n') :=
    h.of_spares (spares_noteBody ..) (spares_noteBody ..) h.body
  unfold Reading.appendOne
  dsimp only
  rw [← hs]
  split
  · obtain ⟨h1, h2, h3⟩ := hnote.copied? hE openMembers hn
    generalize (r.noteBody n).copied? openMembers n = u at h1 h2 h3
    generalize (q.noteBody n').copied? openMembers n' = v at h1 h2
    obtain ⟨r', m⟩ := u
    obtain ⟨q', m'⟩ := v
    dsimp only at h1 h2 h3
    subst h2
    cases m with
    | none => exact h1
    | some m => exact hinner _ h1 (h3 m rfl)
  · exact ⟨hnote.left, hnote.right, hnote.leftLibrary, hnote.rightLibrary, .cons hn hnote.body⟩

theorem Parallel.append (hE : Pointwise l E) (h : Parallel l E r q) (depth : Nat) (openMembers : List String)
    (hitems : List.Forall₂ E items items') :
    Parallel l E (r.append depth openMembers items) (q.append depth openMembers items') := by
  induction depth generalizing openMembers items items' r q with
  | zero => exact h
  | succ depth ih =>
    unfold Reading.append
    induction hitems generalizing r q with
    | nil => exact h
    | cons hn _ ihr => exact ihr (h.appendOne hE (fun o _ _ _ _ h hi => ih h o hi) openMembers hn)

/-- **What is read depends on the library and on the statements only.** -/
theorem read_pointwise (hE : Pointwise l E) (ha : a.Sound) (hb : b.Sound) (hl : a.library = l) (hl' : b.library = l)
    (opening opening' prototype prototype' : NestedStatement) (hitems : List.Forall₂ E items items') :
    List.Forall₂ E (a.read opening prototype items).body (b.read opening' prototype' items').body := by
  rw [← readTo_eq ha (Nat.le_max_left a.copyDepth b.copyDepth),
    ← readTo_eq hb (Nat.le_max_right a.copyDepth b.copyDepth)]
  have start : Parallel l E { assembly := a } { assembly := b } := ⟨ha, hb, hl, hl', .nil⟩
  have noted := start.of_spares (spares_note _ opening none) (spares_note _ opening' none) .nil
  exact ((noted.of_spares (spares_note _ prototype none) (spares_note _ prototype' none) .nil).append hE _ _
    hitems).body

/-- What is read of the same statements is the same. -/
theorem read_eq (ha : a.Sound) (hb : b.Sound) (hl : a.library = b.library) (opening prototype : NestedStatement)
    (items : List NestedStatement) : (a.read opening prototype items).body = (b.read opening prototype items).body := by
  have h := read_pointwise (pointwise_eq b.library) ha hb hl rfl opening opening prototype prototype
    (List.forall₂_same.2 fun n (_ : n ∈ items) => rfl)
  rwa [List.forall₂_eq_eq_eq] at h

/-! ### Bare definitions -/

theorem labelTable_bare (labels : List SequenceSymbol) :
    (labelTable labels).map SequenceSymbol.bare = labelTable (labels.map SequenceSymbol.bare) := by
  have key (t : Table SequenceSymbol) :
      (labels.foldl (fun t l => if t.contains l.name then t else t.insert l.name l) t).map SequenceSymbol.bare =
        (labels.map SequenceSymbol.bare).foldl (fun t l => if t.contains l.name then t else t.insert l.name l)
          (t.map SequenceSymbol.bare) := by
    induction labels generalizing t with
    | nil => rfl
    | cons l rest ih =>
      have hcontains : (t.map SequenceSymbol.bare).contains l.bare.name = t.contains l.name := by
        unfold Table.contains
        rw [Table.find?_map, Option.isSome_map]
        rfl
      rw [List.map_cons, List.foldl_cons, List.foldl_cons, ih, hcontains]
      split
      · rfl
      · rw [Table.map_insert]
        rfl
  exact key {}

/-- The labels of statements that are the same stand at the same indices. -/
theorem labels_bare (h : List.Forall₂ SameStatement items items') (depth : Int) (i : Nat) :
    ((ownStatements depth i items).filterMap fun e => bodyLabel? e.1 e.2).map SequenceSymbol.bare =
      ((ownStatements depth i items').filterMap fun e => bodyLabel? e.1 e.2).map SequenceSymbol.bare := by
  induction h generalizing depth i with
  | nil => rfl
  | @cons n n' rest rest' hn _ ih =>
    have hlabel : (bodyLabel? i n).map SequenceSymbol.bare = (bodyLabel? i n').map SequenceSymbol.bare := by
      unfold bodyLabel?
      rw [show n.statement = n'.statement from hn, Option.map_map, Option.map_map]
      rfl
    rw [ownStatements, ownStatements, show n.statement = n'.statement from hn]
    split
    · exact ih ..
    · rw [List.filterMap_cons, List.filterMap_cons]
      dsimp only
      cases hl : bodyLabel? i n with
      | none =>
        rw [hl] at hlabel
        rw [Option.map_eq_none_iff.1 hlabel.symm]
        exact ih ..
      | some l =>
        rw [hl] at hlabel
        obtain ⟨l', hl', hbare⟩ := Option.map_eq_some_iff.1 hlabel.symm
        rw [hl', List.map_cons, List.map_cons, hbare, ih]

/-- What is read of the same statements is the same definition, apart from places. -/
theorem definition_bare (h : List.Forall₂ SameStatement r.body q.body) (file file' : String) (prototype : Statement) :
    (r.definition file prototype).bare = (q.definition file' prototype).bare := by
  have hs : List.Forall₂ SameStatement r.statements q.statements := by
    rw [forall₂_sameStatement] at h ⊢
    unfold Reading.statements
    rw [List.map_reverse, List.map_reverse, h]
  have hlabels : (labelTable r.labels).map SequenceSymbol.bare = (labelTable q.labels).map SequenceSymbol.bare := by
    rw [labelTable_bare, labelTable_bare]
    exact congrArg labelTable (labels_bare hs 0 0)
  unfold MacroDefinition.bare Reading.definition
  dsimp only
  rw [hlabels, forall₂_sameStatement.1 hs]

/-- All that defining a macro from the same statements can do: nothing on either side, or to register definitions that
are the same when they are bare. -/
inductive Defined (a b : Assembly) : Assembly × Option MacroDefinition → Assembly × Option MacroDefinition → Prop
  | none : Defined a b (a, none) (b, none)
  | some {a' b' : Assembly} {u v : MacroRecord} (left : a.Loads a') (right : b.Loads b')
    (metLeft : u.definition.name ∈ a'.context.names) (metRight : v.definition.name ∈ b'.context.names)
    (same : u.definition.bare = v.definition.bare) :
    Defined a b ((a'.register u).1, some (a'.register u).2) ((b'.register v).1, some (b'.register v).2)

theorem defined_define (ha : a.Sound) (hb : b.Sound) (hl : a.library = b.library)
    (hitems : List.Forall₂ SameStatement items items') (isExternal isExternal' : Bool) :
    Defined a b (a.define items isExternal) (b.define items' isExternal') := by
  cases hitems with
  | nil => exact .none
  | @cons opening opening' _ _ _ hitems =>
    cases hitems with
    | nil => exact .none
    | @cons prototype prototype' rest rest' hp hrest =>
      have hp : prototype.statement = prototype'.statement := hp
      unfold define
      dsimp only
      rw [← hp]
      split
      · exact .none
      · have met {c : Assembly} {names : List String} : prototype.statement.opcode ∈
            (c.meet (prototype.statement.opcode :: names)).context.names := mem_names_meet.2 (.inr List.mem_cons_self)
        refine .some ?_ ?_ ?_ ?_ ?_
        · exact (loads_meet ..).trans ((loads_read ..).trans (loads_meet ..))
        · exact (loads_meet ..).trans ((loads_read ..).trans (loads_meet ..))
        · exact ((loads_read ..).trans (loads_meet ..)).names _ met
        · exact ((loads_read ..).trans (loads_meet ..)).names _ met
        · exact definition_bare (read_pointwise (pointwise_sameStatement b.library) ((spares_meet ..).sound ha)
            ((spares_meet ..).sound hb) hl rfl _ _ _ _ hrest) _ _ _

/-- A definition is entered under its name with a number of its own. -/
theorem exists_register (a : Assembly) (r : MacroRecord) : ∃ d n records, d.bare = r.definition.bare ∧
    a.register r = ({ a with
      context := { a.context with macros := a.context.macros.insert r.definition.name d, registrations := n }
      records }, d) := by
  unfold Assembly.register
  dsimp only
  split <;> exact ⟨(a.context.addMacro r.definition).2, _, _, rfl, rfl⟩

theorem bare_register (a : Assembly) (r : MacroRecord) : (a.register r).2.bare = r.definition.bare := by
  unfold register
  dsimp only
  split <;> rfl

theorem Defined.bare {u v : Assembly × Option MacroDefinition} (h : Defined a b u v) :
    u.2.map (·.bare) = v.2.map (·.bare) := by
  cases h with
  | none => rfl
  | some _ _ _ _ same =>
    dsimp only [Option.map_some]
    rw [bare_register, bare_register, same]

end Reading

end AssemblerIndex
