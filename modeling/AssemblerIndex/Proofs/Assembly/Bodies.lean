import AssemblerIndex.Proofs.Assembly.Blocks
import AssemblerIndex.Proofs.Assembly.Symbols

/-!
# What the bodies of macros consist of

The statements of a definition come from open code, from the library or from the body of another macro, and those of
copy members take the place of the `COPY` statements that name them.  So a property that all of these have, each with
the way it came by, is one that the statements of all macros have.

* `MacroDefinition.Consists` — the statements of the body have a property;
* `Inherent` — the members of the library have it, and what is copied has it from the `COPY`;
* `Informed` — all macros of an assembly consist of such statements.  What defines a macro or looks for one preserves
  it.
-/

namespace AssemblerIndex

/-- The statements of the body, with the ways they came by, have the property. -/
def MacroDefinition.Consists (d : MacroDefinition) (P : NestedStatement → Prop) : Prop := ∀ n ∈ d.nestedBody, P n

/-- The statements of the library have the property, and those of a copy member have it where the `COPY` that names the
member has it. -/
structure Inherent (l : Library) (P : NestedStatement → Prop) : Prop where
  member : ∀ {name found}, l.find? name = some found → ∀ s ∈ statementsOf found.text.toList, P (.direct found.uri s)
  copied : ∀ {n : NestedStatement} {name found}, P n → n.statement.opcode = "COPY" → n.copyName? = some name →
    l.find? name = some found → ∀ k ∈ n.copied (found.copyMember name), P k

namespace Reading

/-- The copy member that takes the place of a `COPY` is the one of the library that the statement names. -/
theorem copied?_eq_some {r r' : Reading} (h : r.assembly.Sound) {openMembers : List String} {n : NestedStatement}
    {m : CopyMember} (hr : r.copied? openMembers n = (r', some m)) :
    ∃ name found, n.copyName? = some name ∧ r.assembly.library.find? name = some found ∧
      m = found.copyMember name := by
  unfold Reading.copied? at hr
  split at hr
  · cases hr
  · rename_i name hname
    dsimp only at hr
    obtain ⟨-, hm⟩ := Prod.mk.inj hr
    obtain ⟨hm, -⟩ := Option.filter_eq_some_iff.1 hm
    have hloads := Assembly.loads_copyMember? r.assembly name
    obtain ⟨-, hfind⟩ := Assembly.find?_of_copyMember? h hm
    obtain ⟨found, hfound, rfl⟩ := (hloads.spares.sound h).copyMember hfind
    exact ⟨name, found, hname, hloads.library ▸ hfound, rfl⟩

/-- The body of the definition is what has been read. -/
theorem nestedBody_definition (r : Reading) (file : String) (prototype : Statement) :
    (r.definition file prototype).nestedBody = r.statements := by
  refine List.ext_getElem (by simp [definition, MacroDefinition.nestedBody]) fun i hi hlength => ?_
  simp [definition, MacroDefinition.nestedBody, hlength]

theorem consists_definition {P : NestedStatement → Prop} {r : Reading} (h : ∀ n ∈ r.body, P n) (file : String)
    (prototype : Statement) : (r.definition file prototype).Consists P := by
  intro n hn
  rw [nestedBody_definition] at hn
  exact h n (List.mem_reverse.1 hn)

end Reading

namespace Assembly

/-- The macros of the assembly consist of statements with the property, and its tables are in order. -/
structure Informed (P : NestedStatement → Prop) (a : Assembly) : Prop where
  sound : a.Sound
  inherent : Inherent a.library P
  macros : ∀ {n d}, a.context.macros.find? n = some d → d.Consists P

section

variable {P : NestedStatement → Prop} {a b : Assembly}

theorem Informed.of_stays (h : Informed P a) (hs : a.Stays b) (hm : b.context.macros = a.context.macros) :
    Informed P b :=
  ⟨hs.sound h.sound, hs.library ▸ h.inherent, fun hd => h.macros (hm ▸ hd)⟩

theorem Informed.meet (h : Informed P a) (names : List String) : Informed P (a.meet names) :=
  h.of_stays (spares_meet a names).toStays rfl

/-- The statements of copy members inherit the property while a definition is read. -/
theorem Informed.inherited (h : Informed P a) : Inherited a P := by
  intro r r' openMembers n m hr hn copies hcopied
  obtain ⟨name, found, names, find, rfl⟩ := Reading.copied?_eq_some (hr.spares.sound h.sound) hcopied
  exact h.inherent.copied hn copies names (hr.library ▸ find)

/-- What is read for a definition consists of such statements if the given ones are. -/
theorem Informed.read (h : Informed P a) (opening prototype : NestedStatement) {rest : List NestedStatement}
    (hrest : ∀ n ∈ rest, P n) : ∀ n ∈ (a.read opening prototype rest).body, P n :=
  forall_read h.inherited opening prototype hrest

theorem Informed.define (h : Informed P a) {items : List NestedStatement} (hitems : ∀ n ∈ items, P n)
    (isExternal : Bool) : Informed P (a.define items isExternal).1 := by
  have hspares := spares_define a items isExternal
  refine ⟨hspares.sound h.sound, hspares.library ▸ h.inherent, fun {n d} hd => ?_⟩
  unfold Assembly.define at hd
  split at hd
  · rename_i opening prototype rest
    dsimp only at hd
    split at hd
    · exact h.macros hd
    · generalize (prototype.statement.opcode ::
        (prototypeDeclarations opening.file prototype.statement).map (·.name)) = names at hd
      have hread : ∀ n ∈ ((a.meet names).read opening prototype rest).body, P n :=
        (h.meet names).read opening prototype fun n hn =>
          hitems n (List.mem_cons_of_mem _ (List.mem_cons_of_mem _ hn))
      have hloads := loads_read (a.meet names) opening prototype rest
      generalize (a.meet names).read opening prototype rest = r at hread hloads hd
      have hmacros : r.assembly.context.macros = a.context.macros := by
        rw [hloads.frame]
        rfl
      generalize r.labels.map (·.name) ++ r.declared.map (·.name) = met at hd
      unfold register Context.addMacro at hd
      dsimp only at hd
      split at hd <;>
      · dsimp only at hd
        rw [Table.find?_insert] at hd
        split at hd
        · obtain rfl := Option.some.inj hd
          exact Reading.consists_definition hread opening.file prototype.statement
        · refine h.macros (n := n) ?_
          rw [← hmacros]
          exact hd
  · exact h.macros hd

theorem macros_popLevel (a : Assembly) : (a.attempt Context.popLevel).context.macros = a.context.macros := by
  unfold attempt Context.popLevel
  cases a.context.levels <;> rfl

theorem Informed.loadMacro (h : Informed P a) (name : String) : Informed P (a.loadMacro name).1 := by
  have hspares := spares_loadMacro a name
  refine ⟨hspares.sound h.sound, hspares.library ▸ h.inherent, fun {n d} hd => ?_⟩
  unfold Assembly.loadMacro at hd
  split at hd
  · exact h.macros hd
  · split at hd
    · exact h.macros hd
    · rename_i found hfound
      dsimp only at hd
      generalize hitems : throughMend 0 _ = items at hd
      have hmember : ∀ n ∈ items, P n := by
        intro n hn
        rw [← hitems, throughMend_eq_take] at hn
        obtain ⟨s, hs, rfl⟩ := List.mem_map.1 ((List.dropWhile_sublist _).subset (List.mem_of_mem_take hn))
        exact h.inherent.member hfound s hs
      have hpush : Informed P (a.mapContext (·.pushSource .macroDefinition found.uri)) :=
        ⟨h.sound.of_names rfl fun _ => id, h.inherent, h.macros⟩
      have hdefine := (hpush.define hmember true).macros (n := n) (d := d)
      split at hd
      · rw [context_addFile, macros_popLevel] at hd
        exact hdefine hd
      · dsimp only at hd
        rw [macros_popLevel] at hd
        exact hdefine hd

theorem Informed.macro? (h : Informed P a) (opcode : String) : Informed P (a.macro? opcode).1 := by
  unfold Assembly.macro?
  split
  · exact h
  · have hm := h.meet [opcode]
    dsimp only
    split
    · exact hm
    · split
      · exact hm
      · split
        · exact hm
        · exact hm.loadMacro _

theorem Informed.defineSynonym (h : Informed P a) (s : Statement) : Informed P (a.defineSynonym s) := by
  have hspares := spares_defineSynonym a s
  refine ⟨hspares.sound h.sound, hspares.library ▸ h.inherent, fun {n d} hd => ?_⟩
  unfold Assembly.defineSynonym at hd
  split at hd
  · exact h.macros hd
  · rename_i name _
    dsimp only at hd
    split at hd
    · rename_i c cs _ _ _
      generalize String.ofList (Text.upperChars (c :: cs)) = target at hd
      have hm := (h.meet [name]).meet [target]
      have entered (b : Assembly) : (b.attempt (·.addSynonym name target)).context.macros = b.context.macros := by
        rcases addSynonym_cases b.context name target with ⟨t, ht⟩ | he
        · rw [attempt_of_ok (f := (·.addSynonym name target)) ht]
        · rw [attempt_of_error (f := (·.addSynonym name target)) he]
          rfl
      rw [entered] at hd
      split at hd
      · exact hm.macros hd
      · exact (hm.loadMacro _).macros hd
    · exact h.macros hd

end

end Assembly

end AssemblerIndex
