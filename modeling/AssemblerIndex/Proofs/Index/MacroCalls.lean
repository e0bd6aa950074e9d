import AssemblerIndex.Proofs.Index.FileOccurrences

/-!
# Calls of the same macro

Calls are told apart by the number that a definition has been given when it was registered, while `definition` tells
them apart by the place of the definition.  A definition in the body of a macro is registered again whenever that macro
is called.

* `Chronicle.pairwise_of_records` — if every definition has a record of its own, no two have the same place;
* `Spot.Calls` — an instruction calls a macro;
* `calls_refer_to_each_other` — **calls with one place of definition refer to each other, if no definition has been
  registered twice**;
* `calls_of_repeated_definition_apart` — if one has, they need not.
-/

namespace AssemblerIndex

open Assembly (Job)

/-! ### Definitions in the same place -/

/-- Two definitions begin in the same line of a file. -/
def MacroDefinition.SamePlace (d e : MacroDefinition) : Prop :=
  d.location.file = e.location.file ∧ d.location.pos.line = e.location.pos.line

section

variable {j : Job} {n : Annals} {ds : List MacroDefinition}

/-- If there are as many records as definitions, no two definitions are in the same place. -/
theorem Chronicle.pairwise_of_records (h : Chronicle j n ds) :
    n.records.length ≤ ds.length ∧ (n.records.length = ds.length →
      n.records.map (·.definition) = ds.reverse ∧ ds.Pairwise fun d e => ¬d.SamePlace e) := by
  induction h with
  | start => exact ⟨Nat.le_refl _, fun _ => ⟨rfl, .nil⟩⟩
  | noted _ _ _ ih => exact ih
  | @registered n ds r h captured ih =>
    obtain ⟨hle, hall⟩ := ih
    unfold Annals.registered
    dsimp only
    split
    · simp only [List.length_append, List.length_cons, List.length_nil]
      exact ⟨by omega, fun heq => absurd heq (by omega)⟩
    · next hnew =>
      simp only [List.length_append, List.length_cons, List.length_nil]
      refine ⟨by omega, fun heq => ?_⟩
      obtain ⟨hmap, hdiffer⟩ := hall (by omega)
      refine ⟨by simp [hmap], List.pairwise_append.2 ⟨hdiffer, List.pairwise_singleton .., fun e he d hd hsame => ?_⟩⟩
      cases List.mem_singleton.1 hd
      -- the earlier definition has a record, so the new one would have been left out
      obtain ⟨q, hq, rfl⟩ := List.mem_map.1 (hmap ▸ List.mem_reverse.2 he)
      refine hnew (List.any_eq_true.2 ⟨q, hq, ?_⟩)
      rw [MacroRecord.isAt, Bool.and_eq_true, beq_iff_eq, beq_iff_eq]
      exact hsame

/-- If there are as many records as definitions, a place determines the definition there. -/
theorem Chronicle.eq_of_location_eq (h : Chronicle j n ds) (hrecords : n.records.length = n.registrations)
    {d e : MacroDefinition} (hd : d ∈ ds) (he : e ∈ ds) (hplace : d.location = e.location) : d = e := by
  have hdiffer := (h.pairwise_of_records.2 (hrecords.trans h.registrations_eq)).2.imp
    (S := fun d e => d.location = e.location → d = e)
    fun hne heq => absurd ⟨congrArg _ heq, congrArg (·.pos.line) heq⟩ hne
  exact hdiffer.forall_of_forall_of_flip (fun _ _ _ => rfl) (hdiffer.imp fun heq hplace => (heq hplace.symm).symm)
    hd he hplace

/-- A macro that a recorded occurrence calls has been registered. -/
theorem Recorded.mem_of_callee {e : String × Occurrence} (h : Recorded j ds e) {d : MacroDefinition}
    (hd : e.2.callee = some d) : d ∈ ds := by
  obtain ⟨s, callee, -, ho, hknown⟩ := h
  rcases callee_of_mem_occurrences ho with hcallee | ⟨-, hcallee⟩
  · rw [hd] at hcallee
    cases hcallee
  · exact hknown d (hcallee ▸ hd)

end

/-! ### References -/

theorem Assembly.length_records_index (a : Assembly) : a.index.records.length = a.records.length := by
  rw [a.records_index_perm.length_eq]
  simp [resolvedRecords]

/-- An instruction calls a macro. -/
structure Spot.Calls (s : Spot) (d : MacroDefinition) : Prop where
  kind : s.occurrence.kind = .instruction
  callee : s.occurrence.callee = some d

section

variable {x : Index} {name name' : String} {p p' : Position} {s s' : Spot} {d : MacroDefinition}

theorem Index.definition_of_calls (hs : x.spot? name p = some s) (calls : s.Calls d) :
    x.definition name p = d.location := by
  simp [definition, hs, definitionOf?, calls.kind, calls.callee]

/-- What is at a spot has been recorded there. -/
theorem mem_recorded_of_spot? {a : Assembly} (hs : a.index.spot? name p = some s) :
    (name, s.occurrence) ∈ a.index.recorded := by
  obtain ⟨f, hf, hs⟩ := Option.bind_eq_some_iff.1 hs
  obtain ⟨o, ho, rfl⟩ := Option.map_eq_some_iff.1 hs
  obtain ⟨q, -, hq⟩ := List.mem_map.1 (Table.mem_of_lookup hf)
  obtain ⟨rfl, rfl⟩ := Prod.mk.inj hq
  have hmem := (gathered_occurrencesIn q.1 a.index.recorded).sound (List.mem_of_find?_eq_some ho)
  obtain ⟨e, he, rfl⟩ := List.mem_map.1 hmem
  obtain ⟨he, hfile⟩ := List.mem_filter.1 he
  rwa [← show e.1 = q.1 by simpa using hfile]

/-- A symbol that is not scoped is referred to from wherever there is one like it. -/
theorem mem_references_of_isSimilar {a : Assembly} (hs : a.index.spot? name p = some s)
    (hs' : a.index.spot? name' p' = some s') (hscoped : s.occurrence.isScoped = false)
    (hsimilar : s'.occurrence.isSimilar s.occurrence) : ⟨name', s'.occurrence.span⟩ ∈ a.index.references name p := by
  have hmem : (name', s'.occurrence) ∈ a.index.occurrencesFor s := by
    rw [Index.occurrencesFor, hscoped]
    exact mem_recorded_of_spot? hs'
  exact (mem_references hs).2 ⟨_, hmem, hsimilar, rfl⟩

/-- A macro that is called at a spot has been registered. -/
theorem mem_of_calls {a : Assembly} {j : Job} {ds : List MacroDefinition} (h : Chronicle j a.annals ds)
    (hs : a.index.spot? name p = some s) (calls : s.Calls d) : d ∈ ds := by
  obtain ⟨o, ho, heq⟩ := exists_of_mem_recorded (mem_recorded_of_spot? hs)
  have hcallee : (o.resolved a.context).callee = some d := heq ▸ calls.callee
  unfold Occurrence.resolved at hcallee
  split at hcallee
  · exact h.mem_of_find? hcallee
  · exact (h.recorded ho).mem_of_callee hcallee

end

/-- **Calls of the same macro refer to each other.**  Let two instructions of one name call macros for which the same
place of definition is given.  If it is one definition that they call, which is so if every definition that was
registered has a record, so that none was registered twice, then each of them is among the references to the other. -/
theorem calls_refer_to_each_other {file text : String} {library : Library} {settings : Settings} {now : Moment}
    {x : Index} (analyzed : Index.analyze (.start file settings now) text library settings = .ok x)
    {name name' : String} {p p' : Position} {s s' : Spot} {d d' : MacroDefinition}
    (here : x.spot? name p = some s) (there : x.spot? name' p' = some s') (calls : s.Calls d) (calls' : s'.Calls d')
    (named : s.occurrence.name = s'.occurrence.name) (defined : x.definition name p = x.definition name' p')
    (once : d.serial = d'.serial ∨ x.records.length = x.context.registrations) :
    ⟨name', s'.occurrence.span⟩ ∈ x.references name p ∧ ⟨name, s.occurrence.span⟩ ∈ x.references name' p' := by
  obtain ⟨a, ha, rfl⟩ := Assembly.exists_of_analyze analyzed
  have hserial : d.serial = d'.serial := by
    refine once.elim id fun hrecords => ?_
    obtain ⟨ds, hds⟩ := ha.chronicled
    rw [Index.definition_of_calls here calls, Index.definition_of_calls there calls'] at defined
    have hrecords : a.annals.records.length = a.annals.registrations := a.length_records_index ▸ hrecords
    rw [hds.chronicle.eq_of_location_eq hrecords (mem_of_calls hds.chronicle here calls)
      (mem_of_calls hds.chronicle there calls') defined]
  have hsimilar : s.occurrence.isSimilar s'.occurrence :=
    Occurrence.isSimilar_iff.2 ⟨calls.kind.trans calls'.kind.symm, named, by
      simp [Occurrence.calleeSerial, calls.callee, calls'.callee, hserial]⟩
  exact ⟨mem_references_of_isSimilar here there (by simp [Occurrence.isScoped, calls.kind])
      (Occurrence.isSimilar_comm hsimilar),
    mem_references_of_isSimilar there here (by simp [Occurrence.isScoped, calls'.kind]) hsimilar⟩

/-- A macro whose body defines another one, called once before that one is called twice. -/
def nestedCalls : String := " MACRO\n OUTER\n MACRO\n INNER\n MEND\n MEND\n OUTER\n INNER\n INNER\n"

theorem calls_of_nested_definition :
    ∃ x, Index.analyze (.start "S" {} default) nestedCalls .empty {} = .ok x ∧ x.records.length = 2 ∧
      ∃ s s' : Spot, x.spot? "S" ⟨7, 1⟩ = some s ∧ x.spot? "S" ⟨8, 1⟩ = some s' ∧
        s.occurrence.name = "INNER" ∧ s'.occurrence.name = "INNER" ∧
        ⟨"S", s'.occurrence.span⟩ ∈ x.references "S" ⟨7, 1⟩ ∧ ⟨"S", s.occurrence.span⟩ ∈ x.references "S" ⟨8, 1⟩ := by
  obtain ⟨x, analyzed, hspots⟩ : ∃ x, Index.analyze (.start "S" {} default) nestedCalls .empty {} = .ok x ∧
      (x.spot? "S" ⟨7, 1⟩).any fun s => (x.spot? "S" ⟨8, 1⟩).any fun s' =>
        decide (x.records.length = 2 ∧ x.context.registrations = 2 ∧
          s.occurrence.kind = .instruction ∧ s'.occurrence.kind = .instruction ∧
          s.occurrence.name = "INNER" ∧ s'.occurrence.name = "INNER" ∧
          s.occurrence.callee.isSome ∧ s'.occurrence.callee.isSome ∧
          x.definition "S" ⟨7, 1⟩ = x.definition "S" ⟨8, 1⟩) :=
    Assembly.exists_analyze_of_pairwise (n := 12) (by decide) (by decide +kernel)
  obtain ⟨s, hs, hspots⟩ := (Option.any_eq_true ..).1 hspots
  obtain ⟨s', hs', hspots⟩ := (Option.any_eq_true ..).1 hspots
  obtain ⟨hrecords, hregistrations, hkind, hkind', hname, hname', hcalls, hcalls', hdefined⟩ := of_decide_eq_true hspots
  obtain ⟨d, hd⟩ := Option.isSome_iff_exists.1 hcalls
  obtain ⟨d', hd'⟩ := Option.isSome_iff_exists.1 hcalls'
  refine ⟨x, analyzed, hrecords, s, s', hs, hs', hname, hname', ?_⟩
  exact calls_refer_to_each_other analyzed hs hs' ⟨hkind, hd⟩ ⟨hkind', hd'⟩ (hname.trans hname'.symm) hdefined
    (.inr (hrecords.trans hregistrations.symm))

/-- The same macro, called again between the calls of the other one. -/
def repeatedCalls : String := " MACRO\n OUTER\n MACRO\n INNER\n MEND\n MEND\n OUTER\n INNER\n OUTER\n INNER\n"

/-- A definition that is registered twice in one place: the calls before and behind the second time call macros of one
name and one place of definition, and do not refer to each other. -/
theorem calls_of_repeated_definition_apart :
    ∃ x, Index.analyze (.start "S" {} default) repeatedCalls .empty {} = .ok x ∧
      ∃ (s s' : Spot) (d d' : MacroDefinition), x.spot? "S" ⟨7, 1⟩ = some s ∧ x.spot? "S" ⟨9, 1⟩ = some s' ∧
        s.Calls d ∧ s'.Calls d' ∧ s.occurrence.name = s'.occurrence.name ∧
        x.definition "S" ⟨7, 1⟩ = x.definition "S" ⟨9, 1⟩ ∧
        ⟨"S", s'.occurrence.span⟩ ∉ x.references "S" ⟨7, 1⟩ ∧ ⟨"S", s.occurrence.span⟩ ∉ x.references "S" ⟨9, 1⟩ := by
  obtain ⟨x, analyzed, hspots⟩ : ∃ x, Index.analyze (.start "S" {} default) repeatedCalls .empty {} = .ok x ∧
      (x.spot? "S" ⟨7, 1⟩).any fun s => (x.spot? "S" ⟨9, 1⟩).any fun s' =>
        decide (s.occurrence.kind = .instruction ∧ s'.occurrence.kind = .instruction ∧
          s.occurrence.callee.isSome ∧ s'.occurrence.callee.isSome ∧ s.occurrence.name = s'.occurrence.name ∧
          x.definition "S" ⟨7, 1⟩ = x.definition "S" ⟨9, 1⟩ ∧
          (∀ e ∈ x.occurrencesFor s, e.2.isSimilar s.occurrence → e.2.span ≠ s'.occurrence.span) ∧
          ∀ e ∈ x.occurrencesFor s', e.2.isSimilar s'.occurrence → e.2.span ≠ s.occurrence.span) :=
    Assembly.exists_analyze_of_pairwise (n := 16) (by decide) (by decide +kernel)
  obtain ⟨s, hs, hspots⟩ := (Option.any_eq_true ..).1 hspots
  obtain ⟨s', hs', hspots⟩ := (Option.any_eq_true ..).1 hspots
  obtain ⟨hkind, hkind', hcalls, hcalls', hname, hdefined, happart, happart'⟩ := of_decide_eq_true hspots
  obtain ⟨d, hd⟩ := Option.isSome_iff_exists.1 hcalls
  obtain ⟨d', hd'⟩ := Option.isSome_iff_exists.1 hcalls'
  refine ⟨x, analyzed, s, s', d, d', hs, hs', ⟨hkind, hd⟩, ⟨hkind', hd'⟩, hname, hdefined, fun hmem => ?_,
    fun hmem => ?_⟩
  · obtain ⟨e, he, hsimilar, heq⟩ := (mem_references hs).1 hmem
    exact happart e he hsimilar (congrArg FileSpan.span heq).symm
  · obtain ⟨e, he, hsimilar, heq⟩ := (mem_references hs').1 hmem
    exact happart' e he hsimilar (congrArg FileSpan.span heq).symm

end AssemblerIndex
