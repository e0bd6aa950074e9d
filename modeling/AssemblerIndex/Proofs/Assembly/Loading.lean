import AssemblerIndex.Assembly.Definition

/-!
# What reading a definition changes

Reading the statements of a macro definition, with the copy members that stand in it, loads these copy members from
the library and meets names; it changes nothing else.

* `Library.definedMacro?` — the macro that the member of a name defines, if its prototype is usable;
* `Loads a b` — from `a` to `b` names have been met and copy members of the library were loaded, with the files they
  are in; everything else is as it was;
* `append_induction` — what noting and keeping a statement preserve holds of all that is read;
* `Inherited`, `InheritedWithin` — the statements of a copy member inherit a property, so that all statements that are
  read have it (`forall_read`).

There is one lemma for each operation, named after it.
-/

namespace AssemblerIndex

/-! ### What a member of a library defines -/

/-- The statements of the first definition in the member of a name. -/
def Library.definitionItems (l : Library) (name : String) : List NestedStatement :=
  match l.find? name with
  | some found =>
    throughMend 0 (((statementsOf found.text.toList).map (NestedStatement.direct found.uri)).dropWhile
      (·.statement.opcode ≠ "MACRO"))
  | none => []

/-- The macro that statements from `MACRO` on define, if there is a usable prototype. -/
def definedName? : List NestedStatement → Option String
  | _ :: prototype :: _ =>
    let name := prototype.statement.opcode
    if name.isEmpty || name.toList.contains '&' then none else some name
  | _ => none

/-- The macro that the member of a name defines. -/
def Library.definedMacro? (l : Library) (name : String) : Option String := definedName? (l.definitionItems name)

theorem usable_of_definedName? {items : List NestedStatement} {name : String} (h : definedName? items = some name) :
    name ≠ "" ∧ name.toList.contains '&' = false := by
  unfold definedName? at h
  split at h
  · dsimp only at h
    split at h
    · cases h
    · rename_i hname
      obtain rfl := Option.some.inj h
      simpa using hname
  · cases h

namespace Assembly

/-! ### Loading copy members -/

/-- From `a` to `b` names have been met and copy members of the library were loaded with their files. -/
structure Loads (a b : Assembly) : Prop where
  /-- everything else is as it was -/
  frame : b = { a with
    context := { a.context with
      names := b.context.names, visited := b.context.visited, copyMembers := b.context.copyMembers }
    files := b.files }
  names : ∀ n ∈ a.context.names, n ∈ b.context.names
  visited : a.context.visited <+: b.context.visited
  copyMembers : ∀ n, b.context.copyMembers.find? n = a.context.copyMembers.find? n ∨
    a.context.copyMembers.find? n = none ∧
      ∃ found, a.library.find? n = some found ∧ b.context.copyMembers.find? n = some (found.copyMember n)
  files : ∀ file, b.files.find? file = a.files.find? file ∨
    a.files.find? file = none ∧ ∃ n found, a.library.find? n = some found ∧ found.uri = file ∧
      b.files.find? file = some ⟨.member (found.copyMember n), .ofString found.text⟩

section Order

variable {a b c : Assembly}

theorem Loads.refl (a : Assembly) : a.Loads a :=
  ⟨rfl, fun _ => id, List.prefix_refl _, fun _ => .inl rfl, fun _ => .inl rfl⟩

theorem Loads.library (h : a.Loads b) : b.library = a.library := by rw [h.frame]

theorem Loads.trans (h : a.Loads b) (h' : b.Loads c) : a.Loads c where
  frame := by rw [h'.frame, h.frame]
  names n hn := h'.names n (h.names n hn)
  visited := h.visited.trans h'.visited
  copyMembers n := by
    rcases h'.copyMembers n with hc | ⟨hnone, found, hfound, hc⟩
    · rw [hc]
      exact h.copyMembers n
    · rcases h.copyMembers n with hb | ⟨_, _, _, hb⟩
      · exact .inr ⟨hb ▸ hnone, found, h.library ▸ hfound, hc⟩
      · rw [hb] at hnone
        cases hnone
  files file := by
    rcases h'.files file with hc | ⟨hnone, n, found, hfound, hc⟩
    · rw [hc]
      exact h.files file
    · rcases h.files file with hb | ⟨_, _, _, _, _, hb⟩
      · exact .inr ⟨hb ▸ hnone, n, found, h.library ▸ hfound, hc⟩
      · rw [hb] at hnone
        cases hnone

end Order

/-! ### Names, files and copy members -/

theorem mem_names_meet {a : Assembly} {names : List String} {n : String} :
    n ∈ (a.meet names).context.names ↔ n ∈ a.context.names ∨ n ∈ names := by
  simp [meet, mapContext, Context.meet, Std.TreeSet.mem_insertMany_list]

theorem loads_meet (a : Assembly) (names : List String) : a.Loads (a.meet names) :=
  ⟨rfl, fun _ hn => mem_names_meet.2 (.inl hn), List.prefix_refl _, fun _ => .inl rfl, fun _ => .inl rfl⟩

@[simp] theorem context_addFile (a : Assembly) (file : String) (content : FileContent)
    (text : String) : (a.addFile file content text).context = a.context := by
  unfold addFile
  split <;> rfl

theorem addFile_eq (a : Assembly) (file : String) (content : FileContent) (text : String) :
    a.addFile file content text = { a with files := (a.addFile file content text).files } := by
  unfold addFile
  split <;> rfl

/-- A file that was entered before stays as it is. -/
theorem find?_files_addFile (a : Assembly) (file f : String) (content : FileContent) (text : String) :
    (a.addFile file content text).files.find? f =
      if a.files.find? file = none ∧ f = file then some ⟨content, .ofString text⟩ else a.files.find? f := by
  unfold addFile Table.contains
  cases hfile : a.files.find? file with
  | some s => simp
  | none => simp [Table.find?_insert]

theorem exists_visit (x : Context) (file : String) :
    ∃ v, x.visit file = { x with visited := v } ∧ x.visited <+: v := by
  unfold Context.visit
  split
  · exact ⟨_, rfl, List.prefix_refl _⟩
  · exact ⟨_, rfl, List.prefix_append ..⟩

/-- Adding a copy member enters it under its name, unless there is one of that name. -/
theorem exists_addCopyMember (x : Context) (m : CopyMember) :
    ∃ v t, x.addCopyMember m = { x with visited := v, copyMembers := t } ∧ x.visited <+: v ∧
      ∀ n, t.find? n = if x.copyMembers.find? m.name = none ∧ n = m.name then some m
        else x.copyMembers.find? n := by
  obtain ⟨v, hv, hprefix⟩ := exists_visit x m.location.file
  unfold Context.addCopyMember
  simp only [hv, Table.contains]
  cases hm : x.copyMembers.find? m.name with
  | some m' => exact ⟨v, x.copyMembers, rfl, hprefix, by simp⟩
  | none => exact ⟨v, _, rfl, hprefix, by simp⟩

/-- A copy member of the library is loaded with its file. -/
theorem loads_addCopyMember {a : Assembly} {name : String} {found : LibraryMember}
    (hfound : a.library.find? name = some found) :
    a.Loads ((a.mapContext (·.addCopyMember (found.copyMember name))).addFile found.uri
      (.member (found.copyMember name)) found.text) := by
  obtain ⟨v, t, hx, hprefix, ht⟩ := exists_addCopyMember a.context (found.copyMember name)
  have hmap : a.mapContext (·.addCopyMember (found.copyMember name)) =
      { a with context := { a.context with visited := v, copyMembers := t } } := by
    change { a with context := a.context.addCopyMember (found.copyMember name) } = _
    rw [hx]
  rw [hmap, addFile_eq]
  refine ⟨rfl, fun _ => id, hprefix, fun n => ?_, fun file => ?_⟩
  · change t.find? n = _ ∨ _ ∧ ∃ f, _ ∧ t.find? n = _
    rw [ht n]
    by_cases hnew : a.context.copyMembers.find? (found.copyMember name).name = none ∧ n = (found.copyMember name).name
    · rw [if_pos hnew]
      obtain ⟨hnone, rfl⟩ := hnew
      exact .inr ⟨hnone, found, hfound, rfl⟩
    · rw [if_neg hnew]
      exact .inl rfl
  · dsimp only
    rw [find?_files_addFile]
    by_cases hnew : a.files.find? found.uri = none ∧ file = found.uri
    · rw [if_pos hnew]
      obtain ⟨hnone, rfl⟩ := hnew
      exact .inr ⟨hnone, name, found, hfound, rfl, rfl⟩
    · rw [if_neg hnew]
      exact .inl rfl

theorem loads_copyMember? (a : Assembly) (name : String) : a.Loads (a.copyMember? name).1 := by
  unfold copyMember?
  refine (loads_meet a [name]).trans ?_
  dsimp only
  split
  · exact .refl _
  · split
    · rename_i found hfound
      exact loads_addCopyMember hfound
    · exact .refl _

/-! ### Statements of a definition -/

theorem loads_note (r : Reading) (n : NestedStatement) (callee : Option MacroDefinition) :
    r.assembly.Loads (r.note n callee).assembly := loads_meet ..

theorem loads_noteBody (r : Reading) (n : NestedStatement) : r.assembly.Loads (r.noteBody n).assembly :=
  (loads_meet ..).trans (loads_note { r with assembly := r.assembly.meet [n.statement.opcode] } ..)

theorem loads_copied? (r : Reading) (openMembers : List String) (n : NestedStatement) :
    r.assembly.Loads (r.copied? openMembers n).1.assembly := by
  unfold Reading.copied?
  split
  · exact .refl _
  · exact loads_copyMember? ..

theorem loads_appendOne {inner : List String → Reading → List NestedStatement → Reading}
    (h : ∀ openMembers (r : Reading) items, r.assembly.Loads (inner openMembers r items).assembly)
    (openMembers : List String) (r : Reading) (n : NestedStatement) :
    r.assembly.Loads (r.appendOne inner openMembers n).assembly := by
  unfold Reading.appendOne
  refine (loads_noteBody r n).trans ?_
  dsimp only
  split
  · have hc := loads_copied? (r.noteBody n) openMembers n
    split
    · rename_i r' m hr
      rw [hr] at hc
      exact hc.trans (h ..)
    · rename_i r' hr
      rwa [hr] at hc
  · exact .refl _

theorem loads_append (depth : Nat) (openMembers : List String) (r : Reading)
    (items : List NestedStatement) : r.assembly.Loads (r.append depth openMembers items).assembly := by
  induction depth generalizing openMembers r items with
  | zero => exact .refl _
  | succ depth ih =>
    unfold Reading.append
    induction items generalizing r with
    | nil => exact .refl _
    | cons n rest ihr => exact (loads_appendOne ih openMembers r n).trans (ihr _)

section Properties

variable {a : Assembly} {P : NestedStatement → Prop}

/-- The statements of a copy member inherit the property, which may depend on the members that are open, from the `COPY`
that names it. -/
def InheritedWithin (a : Assembly) (P : List String → NestedStatement → Prop) : Prop :=
  ∀ {r r' : Reading} {openMembers : List String} {n : NestedStatement} {m : CopyMember}, a.Loads r.assembly →
    P openMembers n → n.statement.opcode = "COPY" → r.copied? openMembers n = (r', some m) →
      ∀ k ∈ n.copied m, P (m.name :: openMembers) k

/-- The statements of a copy member inherit the property from the `COPY` that names it. -/
def Inherited (a : Assembly) (P : NestedStatement → Prop) : Prop := a.InheritedWithin fun _ => P

/-- What is preserved when a statement is noted, and then kept unless it is a `COPY`. -/
def Kept (a : Assembly) (P : NestedStatement → Prop) (I : List NestedStatement → FileOccurrences → Prop) : Prop :=
  ∀ {body : List NestedStatement} {os : FileOccurrences} {n : NestedStatement} {callee : Option MacroDefinition},
    I body os → P n → (∀ d ∈ callee, ∃ name, a.context.macros.find? name = some d) →
      I (if n.statement.opcode = "COPY" then body else n :: body)
        (((n.statement.occurrences callee).map (n.file, ·)).reverse ++ os)

variable {Q : List String → NestedStatement → Prop} {I : List NestedStatement → FileOccurrences → Prop}

theorem appendOne_induction (hinherited : InheritedWithin a Q) (hkept : ∀ openMembers, Kept a (Q openMembers) I)
    {inner : List String → Reading → List NestedStatement → Reading}
    (hinner : ∀ openMembers {r : Reading} {items}, a.Loads r.assembly → I r.body r.occurrences →
      (∀ n ∈ items, Q openMembers n) → I (inner openMembers r items).body (inner openMembers r items).occurrences)
    {r : Reading} (hr : a.Loads r.assembly) (h : I r.body r.occurrences) (openMembers : List String)
    {n : NestedStatement} (hn : Q openMembers n) :
    I (r.appendOne inner openMembers n).body (r.appendOne inner openMembers n).occurrences := by
  have hnote := hr.trans (loads_noteBody r n)
  have hknown : ∀ name d, r.assembly.context.macros.find? name = some d →
      ∃ name, a.context.macros.find? name = some d := by
    intro name d hd
    rw [hr.frame] at hd
    exact ⟨name, hd⟩
  have hnoted : I (if n.statement.opcode = "COPY" then r.body else n :: r.body) (r.noteBody n).occurrences :=
    hkept openMembers h hn fun d hd => hknown _ d hd
  unfold Reading.appendOne
  dsimp only
  split
  · rename_i copies
    rw [if_pos copies] at hnoted
    have hloads := hnote.trans (loads_copied? (r.noteBody n) openMembers n)
    have hsame : ((r.noteBody n).copied? openMembers n).1.body = r.body ∧
        ((r.noteBody n).copied? openMembers n).1.occurrences = (r.noteBody n).occurrences := by
      unfold Reading.copied?
      split <;> exact ⟨rfl, rfl⟩
    split
    · rename_i r' m hcopied
      rw [hcopied] at hloads hsame
      refine hinner _ hloads ?_ (hinherited hnote hn copies hcopied)
      rw [hsame.1, hsame.2]
      exact hnoted
    · rename_i r' hcopied
      rw [hcopied] at hsame
      rw [hsame.1, hsame.2]
      exact hnoted
  · rename_i copies
    rw [if_neg copies] at hnoted
    exact hnoted

/-- **What noting and keeping a statement preserve holds of all that is read**, where the given statements have a
property that those of copy members inherit within the members that are open. -/
theorem append_induction (hinherited : InheritedWithin a Q) (hkept : ∀ openMembers, Kept a (Q openMembers) I)
    (depth : Nat) {r : Reading} (hr : a.Loads r.assembly) (h : I r.body r.occurrences) (openMembers : List String)
    {items : List NestedStatement} (hitems : ∀ n ∈ items, Q openMembers n) :
    I (r.append depth openMembers items).body (r.append depth openMembers items).occurrences := by
  induction depth generalizing openMembers items r with
  | zero => exact h
  | succ depth ih =>
    unfold Reading.append
    induction items generalizing r with
    | nil => exact h
    | cons n rest ihr =>
      obtain ⟨hn, hrest⟩ := List.forall_mem_cons.1 hitems
      refine ihr (hr.trans (loads_appendOne (loads_append depth) openMembers r n)) ?_ hrest
      exact appendOne_induction hinherited hkept (fun o _ _ hr h hi => ih hr h o hi) hr h openMembers hn

/-- All statements that are kept have the property. -/
theorem forall_append (hinherited : Inherited a P) (depth : Nat) {r : Reading} (hr : a.Loads r.assembly)
    (hbody : ∀ n ∈ r.body, P n) (openMembers : List String) {items : List NestedStatement}
    (hitems : ∀ n ∈ items, P n) : ∀ n ∈ (r.append depth openMembers items).body, P n := by
  refine append_induction (I := fun body _ => ∀ n ∈ body, P n) hinherited ?_ depth hr hbody openMembers hitems
  intro _ body _ n _ hbody hn _
  split
  · exact hbody
  · exact List.forall_mem_cons.2 ⟨hn, hbody⟩

theorem forall_read (hinherited : Inherited a P) (opening prototype : NestedStatement) {rest : List NestedStatement}
    (hrest : ∀ n ∈ rest, P n) : ∀ n ∈ (a.read opening prototype rest).body, P n :=
  forall_append hinherited _ ((loads_note ⟨a, [], []⟩ opening none).trans (loads_note _ prototype none))
    (fun n hn => by cases hn) [] hrest

/-- The occurrence in a file is one in a statement with the property, and a macro that the statement calls is known. -/
def OccursIn (a : Assembly) (Q : NestedStatement → Prop) (e : String × Occurrence) : Prop :=
  ∃ n callee, Q n ∧ e.1 = n.file ∧ e.2 ∈ n.statement.occurrences callee ∧
    ∀ d ∈ callee, ∃ name, a.context.macros.find? name = some d

theorem OccursIn.imp {Q Q' : NestedStatement → Prop} {e : String × Occurrence} (h : a.OccursIn Q e)
    (hQ : ∀ n, Q n → Q' n) : a.OccursIn Q' e := by
  obtain ⟨n, callee, hn, h⟩ := h
  exact ⟨n, callee, hQ n hn, h⟩

theorem occursIn_of_mem_note {Q : NestedStatement → Prop} {n : NestedStatement} (callee : Option MacroDefinition)
    (hn : Q n) (hcallee : ∀ d ∈ callee, ∃ name, a.context.macros.find? name = some d) {e : String × Occurrence}
    (he : e ∈ ((n.statement.occurrences callee).map (n.file, ·)).reverse) : a.OccursIn Q e := by
  obtain ⟨o, ho, rfl⟩ := List.mem_map.1 (List.mem_reverse.1 he)
  exact ⟨n, callee, hn, rfl, ho, hcallee⟩

/-- Every occurrence of a definition that is read is one in its opening, in its prototype, or in a statement that was
kept unless it is a `COPY`. -/
theorem occursIn_read (hinherited : Inherited a P) (opening prototype : NestedStatement) {rest : List NestedStatement}
    (hrest : ∀ n ∈ rest, P n) : ∀ e ∈ (a.read opening prototype rest).occurrences, a.OccursIn (fun n =>
      n = opening ∨ n = prototype ∨
        P n ∧ (n.statement.opcode = "COPY" ∨ n ∈ (a.read opening prototype rest).body)) e := by
  refine append_induction (I := fun body os => ∀ e ∈ os, a.OccursIn (fun n => n = opening ∨ n = prototype ∨
    P n ∧ (n.statement.opcode = "COPY" ∨ n ∈ body)) e) hinherited ?_ _
    ((loads_note ⟨a, [], []⟩ opening none).trans (loads_note _ prototype none)) ?_ [] hrest
  · intro _ body os n callee h hn hcallee e he
    rcases List.mem_append.1 he with he | he
    · refine occursIn_of_mem_note callee (.inr (.inr ⟨hn, ?_⟩)) hcallee he
      split
      · exact .inl ‹_›
      · exact .inr List.mem_cons_self
    · refine (h e he).imp fun k => Or.imp_right (Or.imp_right (And.imp_right (Or.imp_right fun hk => ?_)))
      split
      · exact hk
      · exact List.mem_cons_of_mem _ hk
  · intro e he
    rcases List.mem_append.1 he with he | he
    · exact occursIn_of_mem_note none (.inr (.inl rfl)) nofun he
    · exact occursIn_of_mem_note none (.inl rfl) nofun ((List.mem_append.1 he).resolve_right nofun)

end Properties

theorem loads_read (a : Assembly) (opening prototype : NestedStatement)
    (rest : List NestedStatement) : a.Loads (a.read opening prototype rest).assembly :=
  (loads_note ⟨a, [], []⟩ opening none).trans ((loads_note _ prototype none).trans (loads_append ..))

/-! ### Definitions -/

theorem define_of_none {items : List NestedStatement} (h : definedName? items = none) (a : Assembly)
    (isExternal : Bool) : a.define items isExternal = (a, none) := by
  match items with
  | [] => rfl
  | [_] => rfl
  | opening :: prototype :: rest =>
    unfold definedName? at h
    unfold define
    dsimp only at h ⊢
    split at h
    · rename_i hname
      rw [if_pos hname]
    · cases h

/-- A definition with a usable prototype is read and registered. -/
theorem define_of_some {items : List NestedStatement} {name : String} (h : definedName? items = some name)
    (a : Assembly) (isExternal : Bool) :
    ∃ b r, a.Loads b ∧ name ∈ b.context.names ∧ r.definition.name = name ∧
      a.define items isExternal = ((b.register r).1, some (b.register r).2) := by
  match items with
  | [] => cases h
  | [_] => cases h
  | opening :: prototype :: rest =>
    unfold definedName? at h
    unfold define
    dsimp only at h ⊢
    split at h
    · cases h
    · rename_i hname
      rw [if_neg hname]
      obtain rfl := Option.some.inj h
      refine ⟨_, _, ?_, ?_, rfl, rfl⟩
      · exact (loads_meet ..).trans ((loads_read ..).trans (loads_meet ..))
      · exact ((loads_read ..).trans (loads_meet ..)).names _ (mem_names_meet.2 (.inr List.mem_cons_self))

end Assembly

end AssemblerIndex
