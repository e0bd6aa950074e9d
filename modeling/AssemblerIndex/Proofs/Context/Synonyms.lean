import AssemblerIndex.Proofs.Context.StackOrder

/-!
# Synonyms of operation codes

A synonym is entered with what its target stands for at that time.  When it is used, one more look tells whether the
code that was entered has been taken out of use since.

* `code?` — what a synonym of a code is entered with;
* `synonymEntries` — the entries that operations make in the table of synonyms;
* `find?_synonyms_run` — **the table holds for every name the entry that was made last**;
* `synonym_of_removed_code` — **a synonym goes out of use with the code that it was entered with**, so with its target
  if that was no synonym of another code; `synonym_of_removed_synonym` shows that it goes on otherwise.
-/

namespace AssemblerIndex.Context

variable {x y : Context} {name target code : String}

/-! ### The operation that a code denotes -/

theorem operation_of_none (h : x.synonyms.find? name = none) : x.operation name = name := by
  unfold operation
  rw [h]

theorem operation_of_target (h : x.synonyms.find? name = some code)
    (hstays : code ≠ name → x.synonyms.find? code ≠ some "") : x.operation name = code := by
  unfold operation
  rw [h]
  exact if_neg fun hremoved => hstays hremoved.1 hremoved.2

/-- The operation of a code depends on two entries of the table. -/
theorem operation_of_some (h : x.synonyms.find? name = some code) :
    x.operation name = if code ≠ name ∧ x.synonyms.find? code = some "" then "" else code := by
  unfold operation
  rw [h]

/-! ### Entering a synonym -/

/-- What a synonym of a code is entered with; nothing if there is no such code. -/
def code? (x : Context) (target : String) : Option String :=
  match x.synonyms.find? target with
  | some t => some t
  | none => if x.macros.contains target || (instructionKind? target).isSome then some target else none

theorem code?_eq_some (h : x.code? target = some code) : code = (x.synonyms.find? target).getD target := by
  unfold code? at h
  split at h
  · rename_i t ht
    rw [ht, Option.getD_some, Option.some.inj h]
  · rename_i hnone
    split at h
    · rw [hnone, Option.getD_none, Option.some.inj h]
    · cases h

theorem addSynonym_eq (x : Context) (name target : String) :
    x.addSynonym name target = match x.code? target with
      | some t => .ok { x with synonyms := x.synonyms.insert name t }
      | none => .error (.undefinedOpcode target) := by
  unfold addSynonym code?
  cases x.synonyms.find? target with
  | some t => rfl
  | none =>
    dsimp only
    split <;> rfl

theorem addSynonym_eq_ok (h : x.addSynonym name target = .ok y) :
    ∃ t, x.code? target = some t ∧ y = { x with synonyms := x.synonyms.insert name t } := by
  rw [addSynonym_eq] at h
  split at h
  · rename_i t ht
    exact ⟨t, ht, (Except.ok.inj h).symm⟩
  · cases h

/-! ### What operations enter -/

/-- The entry that an operation makes in the table of synonyms: a name and what it stands for. -/
def Operation.synonymEntry? (x : Context) : Operation → Option (String × String)
  | addSynonym name target => (x.code? target).map (name, ·)
  | removeSynonym name => some (name, "")
  | _ => none

/-- The entries that operations make in the table of synonyms, one after the other. -/
def synonymEntries (x : Context) : List Operation → List (String × String)
  | [] => []
  | op :: rest => (op.synonymEntry? x).toList ++ (op.after x).synonymEntries rest

@[simp] theorem synonyms_mapScope (x : Context) (f : Scope → Scope) : (x.mapScope f).synonyms = x.synonyms := by
  unfold mapScope
  split <;> rfl

@[simp] theorem synonyms_bind (x : Context) (name : String) (b : Binding) : (x.bind name b).synonyms = x.synonyms :=
  synonyms_mapScope ..

@[simp] theorem synonyms_mapSource (x : Context) (f : Source → Source) : (x.mapSource f).synonyms = x.synonyms := by
  unfold mapSource
  split <;> rfl

@[simp] theorem synonyms_visit (x : Context) (file : String) : (x.visit file).synonyms = x.synonyms := by
  unfold visit
  split <;> rfl

/-- An operation that succeeds changes the table by its entry only. -/
theorem synonyms_apply {op : Operation} (h : op.apply x = .ok y) :
    y.synonyms = match op.synonymEntry? x with
      | some e => x.synonyms.insert e.1 e.2
      | none => x.synonyms := by
  cases op with
  | addSynonym name target =>
    obtain ⟨t, ht, rfl⟩ := addSynonym_eq_ok h
    rw [Operation.synonymEntry?, ht]
    rfl
  | removeSynonym name =>
    cases h
    rfl
  | declareLocal name type isScalar =>
    cases h
    unfold declareLocal
    split
    · rfl
    · exact synonyms_bind ..
  | declareGlobal name type isScalar =>
    cases h
    refine (synonyms_bind ..).trans ?_
    split <;> rfl
  | assign name subscript v =>
    cases h
    unfold assign?
    split
    · exact synonyms_bind ..
    · cases x.globals.find? name <;> rfl
    · cases x.systemGlobals.find? name <;> rfl
    · rfl
  | setBranchCounter n =>
    cases h
    exact synonyms_mapScope ..
  | countBranch =>
    cases h
    exact synonyms_mapScope ..
  | addSequenceSymbol s =>
    replace h : x.addSequenceSymbol s = .ok y := h
    unfold addSequenceSymbol at h
    split at h
    · cases h
    · split at h <;> cases h <;> rfl
  | enterMacro name label args =>
    replace h : x.enterMacro name label args = .ok y := h
    unfold enterMacro at h
    split at h
    · cases h
    · cases h
      exact (synonyms_visit ..).trans (synonyms_mapScope ..)
  | leaveMacro =>
    replace h : x.leaveMacro = .ok y := h
    unfold leaveMacro at h
    split at h <;> cases h
    rfl
  | setMacroStatement index =>
    cases h
    unfold setMacroStatement
    split <;> rfl
  | addCopyMember m =>
    cases h
    unfold addCopyMember
    dsimp only
    split <;> exact synonyms_visit ..
  | enterCopy name =>
    replace h : x.enterCopy name = .ok y := h
    unfold enterCopy at h
    split at h <;> cases h
    exact synonyms_mapSource ..
  | leaveCopy =>
    replace h : x.leaveCopy = .ok y := h
    unfold leaveCopy at h
    split at h <;> cases h
    exact synonyms_mapSource ..
  | setCursor level index =>
    cases h
    exact synonyms_mapSource ..
  | setPosition p =>
    cases h
    exact synonyms_mapSource ..
  | setIndices beginIndex endIndex endLine =>
    cases h
    exact synonyms_mapSource ..
  | popLevel =>
    replace h : x.popLevel = .ok y := h
    unfold popLevel at h
    split at h <;> cases h
    rfl
  | restore p =>
    replace h : x.restore p = .ok y := h
    unfold restore at h
    split at h
    · split at h <;> cases h
      exact synonyms_mapSource ..
    · cases h
  | meet names =>
    cases h
    rfl
  | setSymbols symbols =>
    cases h
    rfl
  | addMacro d =>
    cases h
    rfl
  | pushLevel kind =>
    cases h
    rfl
  | pushSource kind file =>
    cases h
    rfl

/-- An operation makes its entry, or leaves the table alone. -/
theorem find?_synonyms_after (op : Operation) (x : Context) (name : String) :
    (op.after x).synonyms.find? name =
      (((op.synonymEntry? x).toList.find? (·.1 == name)).map (·.2)).or (x.synonyms.find? name) := by
  have hentry : (op.after x).synonyms = match op.synonymEntry? x with
      | some e => x.synonyms.insert e.1 e.2
      | none => x.synonyms := by
    rw [after_eq]
    cases h : op.apply x with
    | ok y => exact synonyms_apply h
    | error e =>
      -- an operation that fails makes no entry
      cases op with
      | addSynonym name target =>
        replace h : x.addSynonym name target = .error e := h
        rw [addSynonym_eq] at h
        rw [Operation.synonymEntry?]
        cases hcode : x.code? target with
        | none => rfl
        | some t =>
          rw [hcode] at h
          cases h
      | removeSynonym name => cases h
      | _ => rfl
  rw [hentry]
  cases op.synonymEntry? x with
  | none => rfl
  | some e =>
    rw [Table.find?_insert, Option.toList_some, List.find?_singleton]
    simp only [beq_iff_eq, eq_comm (a := name)]
    split <;> rfl

/-- **The table holds the entry that was made last.** -/
theorem find?_synonyms_run (x : Context) (ops : List Operation) (name : String) :
    (x.run ops).synonyms.find? name =
      (((x.synonymEntries ops).reverse.find? (·.1 == name)).map (·.2)).or (x.synonyms.find? name) := by
  induction ops generalizing x with
  | nil => rfl
  | cons op rest ih =>
    rw [run_cons, ih, find?_synonyms_after, synonymEntries, List.reverse_append, List.find?_append, Option.map_or,
      Option.or_assoc]
    congr 2
    cases op.synonymEntry? x <;> rfl

/-- A name that operations make no entry for keeps the one that it has. -/
theorem find?_synonyms_of_kept {ops : List Operation} (h : ∀ e ∈ x.synonymEntries ops, e.1 ≠ name) :
    (x.run ops).synonyms.find? name = x.synonyms.find? name := by
  have hnone : (x.synonymEntries ops).reverse.find? (·.1 == name) = none :=
    List.find?_eq_none.2 fun e he => by simpa using h e (List.mem_reverse.1 he)
  rw [find?_synonyms_run, hnone, Option.map_none, Option.none_or]

/-! ### Synonyms and the codes they stand for -/

/-- What a synonym is entered with. -/
theorem find?_addSynonym (h : x.addSynonym name target = .ok y) (n : String) :
    y.synonyms.find? n = if n = name then some ((x.synonyms.find? target).getD target) else x.synonyms.find? n := by
  obtain ⟨t, ht, rfl⟩ := addSynonym_eq_ok h
  rw [Table.find?_insert, code?_eq_some ht]

/-- **A new synonym denotes what its target denotes.** -/
theorem operation_addSynonym (hne : name ≠ target) (h : x.addSynonym name target = .ok y) :
    y.operation name = y.operation target := by
  have hname := find?_addSynonym h name
  have htarget := find?_addSynonym h target
  rw [if_pos rfl] at hname
  rw [if_neg (Ne.symm hne)] at htarget
  cases hcode : x.synonyms.find? target with
  | none =>
    rw [hcode, Option.getD_none] at hname
    rw [hcode] at htarget
    rw [operation_of_none htarget, operation_of_target hname fun _ => by rw [htarget]; exact nofun]
  | some code =>
    rw [hcode, Option.getD_some] at hname
    rw [hcode] at htarget
    rw [operation_of_some hname, operation_of_some htarget]
    -- the two differ only where the code is one of the two names, and then it is empty if it was removed
    by_cases hcodeName : code = name
    · subst hcodeName
      rw [if_neg (not_and_of_not_left _ (not_not_intro rfl))]
      split
      · rename_i hremoved
        exact Option.some.inj (hname.symm.trans hremoved.2)
      · rfl
    · by_cases hcodeTarget : code = target
      · subst hcodeTarget
        rw [if_neg (c := code ≠ code ∧ _) (not_and_of_not_left _ (not_not_intro rfl))]
        split
        · rename_i hremoved
          exact Option.some.inj (hremoved.2.symm.trans htarget)
        · rfl
      · simp only [ne_eq, hcodeName, hcodeTarget, not_false_eq_true, true_and]

/-- **A synonym goes out of use with the code that it was entered with.**  That is its target, if the target is no
synonym of another code at that time, and what the target stands for otherwise.  A new synonym denotes what its target
denotes.  After any operations that make no entry for the synonym, and the removal of its target, it is out of use if
it was entered with its target or with a code that is out of use then, and else it denotes that code. -/
theorem synonym_of_removed_code (hne : name ≠ target) (h : x.addSynonym name target = .ok y) (ops : List Operation)
    (hkept : ∀ e ∈ y.synonymEntries ops, e.1 ≠ name) :
    let code := (x.synonyms.find? target).getD target
    y.operation name = y.operation target ∧
      (y.run (ops ++ [.removeSynonym target])).operation name =
        if code = target ∨ code ≠ name ∧ (y.run ops).synonyms.find? code = some "" then "" else code := by
  intro code
  refine ⟨operation_addSynonym hne h, ?_⟩
  have hz (n : String) : (y.run (ops ++ [.removeSynonym target])).synonyms.find? n =
      if n = target then some "" else (y.run ops).synonyms.find? n := by
    rw [run_append]
    exact Table.find?_insert ..
  have hname : (y.run (ops ++ [.removeSynonym target])).synonyms.find? name = some code := by
    rw [hz, if_neg hne, find?_synonyms_of_kept hkept, find?_addSynonym h, if_pos rfl]
  rw [operation_of_some hname, hz]
  by_cases hcode : code = target
  · rw [if_pos ⟨hcode ▸ Ne.symm hne, if_pos hcode⟩, if_pos (.inl hcode)]
  · simp only [hcode, if_false, false_or]

/-- A synonym of an instruction is out of use behind the removal of the instruction, with another synonym in between. -/
theorem synonym_of_removed_instruction :
    let x := start "P" {} default
    let y := { x with synonyms := x.synonyms.insert "MOVE" "LR" }
    x.addSynonym "MOVE" "LR" = .ok y ∧
      (y.run ([.addSynonym "COPIES" "MOVE"] ++ [.removeSynonym "LR"])).operation "MOVE" = "" := by
  intro x y
  have hadd : x.addSynonym "MOVE" "LR" = .ok y := rfl
  refine ⟨hadd, (synonym_of_removed_code (by decide) hadd [.addSynonym "COPIES" "MOVE"] ?_).2⟩
  decide +kernel

/-- **A synonym of a synonym goes on behind the removal of its target**: it was entered with what that one stands
for. -/
theorem synonym_of_removed_synonym :
    let x := (start "P" {} default).run [.addSynonym "X1" "LR"]
    let y := { x with synonyms := x.synonyms.insert "A1" "LR" }
    x.addSynonym "A1" "X1" = .ok y ∧ y.operation "A1" = "LR" ∧ y.operation "X1" = "LR" ∧
      (y.run [.removeSynonym "X1"]).operation "X1" = "" ∧ (y.run [.removeSynonym "X1"]).operation "A1" = "LR" := by
  intro x y
  refine ⟨rfl, ?_⟩
  decide +kernel

end AssemblerIndex.Context
