import AssemblerIndex.Proofs.Assembly.Chronicle
import AssemblerIndex.Proofs.Assembly.Labels

/-!
# The parts of a captured definition

A definition keeps its body, the nests of the statements and the labels in three tables that are used together.

* `NestedStatement.WellNested` — the nest leads from the file of the definition through copy members that are all
  different to the place where the statement was written;
* `MacroDefinition.Labels` — what is entered under the name of a sequence symbol: the first statement that it labels;
* `MacroDefinition.WellFormed` — the three tables fit together;
* `inheritedWithin_opened` — a `COPY` in a member that is open already is passed over, so the members that a statement
  came from are different;
* `Chronicle.wellFormed`, `captured_definitions_well_formed` — **every definition that is registered in a run is
  well-formed**, be it read from a file or from the body of another one.
-/

namespace AssemblerIndex

open Assembly (Job)

/-! ### Nests -/

/-- The nest begins outside of copy members, and leads through copy members that are all different. -/
structure NestedStatement.Guarded (n : NestedStatement) : Prop where
  first : ∃ i, n.nest.head? = some i ∧ i.member = none
  members : ∃ names : List String, n.nest.tail.map (·.member) = names.map some ∧ names.Nodup

/-- The nest ends at the place of the statement, in a file where the statement was written. -/
structure NestedStatement.WellNested (j : Job) (n : NestedStatement) : Prop extends n.Guarded where
  last : ∃ i, n.nest.getLast? = some i ∧ i.location.pos = n.statement.position ∧ Written j i.location.file n.statement

/-- The statement may be read while the members are open: they are those that a `COPY` came from. -/
structure NestedStatement.Opened (openMembers : List String) (n : NestedStatement) : Prop where
  guarded : n.Guarded
  distinct : openMembers.Nodup
  copies : n.statement.opcode = "COPY" → n.nest.tail.map (·.member) = openMembers.reverse.map some

namespace NestedStatement

variable {j : Job} {n : NestedStatement}

theorem guarded_direct (file : String) (s : Statement) : (direct file s).Guarded :=
  ⟨⟨_, rfl, rfl⟩, [], rfl, List.nodup_nil⟩

theorem opened_direct (file : String) (s : Statement) : (direct file s).Opened [] :=
  ⟨guarded_direct file s, List.nodup_nil, fun _ => rfl⟩

/-- The nest of a statement that is traced ends at its place. -/
theorem Guarded.wellNested (h : n.Guarded) (traced : n.Traced j) : n.WellNested j := by
  refine ⟨h, ?_⟩
  obtain ⟨f, hf, hlocation⟩ := (traced "").getLast?
  obtain ⟨i, hi⟩ : ∃ i, n.nest.getLast? = some i :=
    Option.isSome_iff_exists.1 (List.getLast?_isSome.2 traced.nest_ne_nil)
  have hfile : n.file = i.location.file := by rw [NestedStatement.file, hi]; rfl
  -- the last frame stands where the last item of the nest does
  have hsame : f.location = i.location := by
    obtain ⟨way, hway⟩ := List.getLast?_eq_some_iff.1 hi
    cases way with
    | nil =>
      rw [hway] at hf
      cases hf
      rfl
    | cons first rest =>
      rw [hway, nestFrames_concat (List.cons_ne_nil first rest), List.getLast?_concat] at hf
      cases hf
      rfl
  exact ⟨i, hi, hsame ▸ congrArg Location.pos hlocation, hfile ▸ (traced "").written⟩

end NestedStatement

/-- A member that takes the place of a `COPY` is not open yet. -/
theorem Reading.notMem_of_copied? {r r' : Reading} {openMembers : List String} {n : NestedStatement} {m : CopyMember}
    (h : r.copied? openMembers n = (r', some m)) : m.name ∉ openMembers := by
  unfold Reading.copied? at h
  split at h
  · cases h
  · dsimp only at h
    obtain ⟨-, hm⟩ := Prod.mk.inj h
    simpa using (Option.filter_eq_some_iff.1 hm).2

namespace Assembly

variable {a : Assembly}

/-- **The statements of a copy member may be read when it is open, too.** -/
theorem inheritedWithin_opened (a : Assembly) : a.InheritedWithin NestedStatement.Opened := by
  intro r r' openMembers n m _ hn copies hcopied k hk
  have hnew := Reading.notMem_of_copied? hcopied
  have hdistinct : (m.name :: openMembers).Nodup := List.nodup_cons.2 ⟨hnew, hn.distinct⟩
  obtain ⟨s, -, rfl⟩ := List.mem_map.1 hk
  obtain ⟨i, hi, hmember⟩ := hn.guarded.first
  have hne : n.nest ≠ [] := by
    rintro hnil
    rw [hnil] at hi
    cases hi
  have hmembers : (n.nest ++ [(⟨⟨m.location.file, s.position⟩, some m.name⟩ : NestItem)]).tail.map (·.member) =
      (m.name :: openMembers).reverse.map some := by
    rw [List.tail_append_of_ne_nil hne, List.map_append, hn.copies copies, List.reverse_cons, List.map_append]
    rfl
  refine ⟨⟨⟨i, ?_, hmember⟩, _, hmembers, List.nodup_reverse.2 hdistinct⟩, hdistinct, fun _ => hmembers⟩
  rw [List.head?_append, hi, Option.some_or]

/-- What is read for a definition is guarded, and no `COPY` is left in it. -/
theorem guarded_read (a : Assembly) (opening prototype : NestedStatement) {rest : List NestedStatement}
    (hrest : ∀ n ∈ rest, n.Opened []) :
    ∀ n ∈ (a.read opening prototype rest).statements, n.Guarded ∧ n.statement.opcode ≠ "COPY" := by
  intro n hn
  refine append_induction (I := fun body _ => ∀ n ∈ body, n.Guarded ∧ n.statement.opcode ≠ "COPY")
    (inheritedWithin_opened a) ?_ _ ((loads_note ⟨a, [], []⟩ opening none).trans (loads_note _ prototype none))
    nofun [] hrest n (List.mem_reverse.1 hn)
  intro _ body _ n _ hbody hn _
  split
  · exact hbody
  · rename_i keeps
    exact List.forall_mem_cons.2 ⟨⟨hn.guarded, keeps⟩, hbody⟩

end Assembly

/-! ### Labels -/

/-- What is entered for a sequence symbol in a definition: a statement that it labels, of which no earlier one is seen
by a search through the body.  The location is that of the label, in the file where the statement was written. -/
structure MacroDefinition.Labels (d : MacroDefinition) (name : String) (l : SequenceSymbol) : Prop where
  name_eq : l.name = name
  statement : ∃ n p, d.nestedBody[l.offset]? = some n ∧ n.statement.sequenceLabel? = some (name, p) ∧
    l.location = ⟨n.file, p⟩
  seen : seenAt 0 d.body.toList l.offset
  first : ∀ i < l.offset, seenAt 0 d.body.toList i → labelAt? d.body.toList i ≠ some name

/-- A search from the start sees every statement outside of all blocks. -/
theorem seenAt_start_of_outside {l : List Statement} {k : Nat} {s : Statement} (h : Outside l k) (hk : l[k]? = some s) :
    seenAt 0 l k := by
  obtain ⟨h0, hs⟩ := (outside_iff hk).1 h
  have hopen : openBefore l (k + 1) = 0 := by
    rw [openBefore_succ hk, h0, openBehind, if_neg hs]
    split <;> rfl
  have hle := foldl_openDefinitions_le (Int.le_refl ((0 : Nat) : Int)) (l.take (k + 1))
  rwa [show (l.take (k + 1)).foldl openBehind 0 = 0 from hopen] at hle

/-- No earlier statement outside of nested definitions has the label. -/
theorem MacroDefinition.Labels.first_outside {d : MacroDefinition} {name : String} {l : SequenceSymbol}
    (h : d.Labels name l) {i : Nat} (hi : i < l.offset) (outside : Outside d.body.toList i) :
    labelAt? d.body.toList i ≠ some name := by
  cases hs : d.body.toList[i]? with
  | none => simp [labelAt?, hs]
  | some s => exact h.first i hi (seenAt_start_of_outside outside hs)

/-- The first label of a name counts. -/
theorem find?_labelTable (labels : List SequenceSymbol) (name : String) :
    (labelTable labels).find? name = labels.find? (·.name == name) := by
  have hfold (t : Table SequenceSymbol) :
      (labels.foldl (fun t l => if t.contains l.name then t else t.insert l.name l) t).find? name =
        (t.find? name).or (labels.find? (·.name == name)) := by
    induction labels generalizing t with
    | nil => exact (Option.or_none ..).symm
    | cons l rest ih =>
      rw [List.foldl_cons, ih, List.find?_cons]
      by_cases hname : l.name = name
      · subst hname
        rw [beq_self_eq_true]
        cases hfound : t.find? l.name with
        | some s => rw [if_pos (by rw [Table.contains, hfound]; rfl), hfound, Option.some_or, Option.some_or]
        | none => simp [Table.contains, hfound]
      · rw [beq_eq_false_iff_ne.2 hname]
        congr 1
        split
        · rfl
        · rw [Table.find?_insert, if_neg (Ne.symm hname)]
  exact hfold {}

/-- The first label of a name among those outside of nested definitions. -/
theorem exists_of_find?_labels {depth : Int} {index : Nat} {ns : List NestedStatement} {name : String}
    {l : SequenceSymbol}
    (h : ((ownStatements depth index ns).filterMap fun e => bodyLabel? e.1 e.2).find? (·.name == name) = some l) :
    ∃ k n p, ns[k]? = some n ∧ n.statement.sequenceLabel? = some (name, p) ∧ l = ⟨name, ⟨n.file, p⟩, index + k⟩ ∧
      seenAt depth (ns.map (·.statement)) k ∧
      ∀ i < k, seenAt depth (ns.map (·.statement)) i → labelAt? (ns.map (·.statement)) i ≠ some name := by
  induction ns generalizing depth index with
  | nil => cases h
  | cons n rest ih =>
    -- a label further on counts if the first statement is not seen, or has another label
    have later (h : ((ownStatements (openDefinitions depth n.statement.opcode) (index + 1) rest).filterMap
          fun e => bodyLabel? e.1 e.2).find? (·.name == name) = some l)
        (hfirst : openDefinitions depth n.statement.opcode ≤ 0 → n.statement.sequenceLabel?.map (·.1) ≠ some name) :
        ∃ k m p, (n :: rest)[k]? = some m ∧ m.statement.sequenceLabel? = some (name, p) ∧
          l = ⟨name, ⟨m.file, p⟩, index + k⟩ ∧ seenAt depth ((n :: rest).map (·.statement)) k ∧
          ∀ i < k, seenAt depth ((n :: rest).map (·.statement)) i →
            labelAt? ((n :: rest).map (·.statement)) i ≠ some name := by
      obtain ⟨k, m, p, hm, hlabel, hl, hseen, hearlier⟩ := ih h
      refine ⟨k + 1, m, p, hm, hlabel, by rw [hl, Nat.add_right_comm, Nat.add_assoc], hseen, fun i hi hseen => ?_⟩
      cases i with
      | zero => exact hfirst hseen
      | succ i => exact hearlier i (Nat.lt_of_succ_lt_succ hi) hseen
    rw [ownStatements] at h
    split at h
    · rename_i hopen
      exact later h fun hle => absurd hopen (Int.not_lt.2 hle)
    · rename_i hopen
      rw [List.filterMap_cons] at h
      cases hlabel : n.statement.sequenceLabel? with
      | none =>
        rw [bodyLabel?, hlabel] at h
        exact later h fun _ => by rw [hlabel]; exact nofun
      | some label =>
        rw [bodyLabel?, hlabel] at h
        dsimp only [Option.map_some] at h
        rw [List.find?_cons] at h
        split at h
        · rename_i hname
          obtain rfl := Option.some.inj h
          obtain rfl : label.1 = name := by simpa using hname
          exact ⟨0, n, label.2, rfl, hlabel, rfl, Int.not_lt.1 hopen, nofun⟩
        · rename_i hname
          refine later h fun _ hsame => ?_
          rw [hlabel] at hsame
          simp [Option.some.inj hsame] at hname

/-! ### Well-formed definitions -/

/-- The body, the nests and the labels of a definition fit together: each statement comes with a nest that leads to it,
no `COPY` is left in the body, and what is entered for a sequence symbol is the first statement that it labels. -/
structure MacroDefinition.WellFormed (j : Job) (d : MacroDefinition) : Prop where
  sizes : d.nests.size = d.body.size
  nested : ∀ n ∈ d.nestedBody, n.WellNested j
  keeps : ∀ n ∈ d.nestedBody, n.statement.opcode ≠ "COPY"
  labelled : ∀ {name l}, d.labels.find? name = some l → d.Labels name l

section

variable {j : Job} {n : Annals} {ds : List MacroDefinition} {listing : List NestedStatement}

/-- The statements of a listing may be read with no member open. -/
theorem Listed.opened (h : Listed j ds listing) (hds : ∀ d ∈ ds, d.WellFormed j) : ∀ n ∈ listing, n.Opened [] := by
  intro n hn
  cases h with
  | openCode =>
    obtain ⟨s, -, rfl⟩ := List.mem_map.1 hn
    exact NestedStatement.opened_direct ..
  | member find =>
    obtain ⟨s, -, rfl⟩ := List.mem_map.1 hn
    exact NestedStatement.opened_direct ..
  | body hd =>
    exact ⟨((hds _ hd).nested n hn).toGuarded, List.nodup_nil, fun copies => absurd copies ((hds _ hd).keeps n hn)⟩

/-- What is entered for the labels of a definition. -/
theorem Reading.labels_definition (r : Reading) (file : String) (prototype : Statement) {name : String}
    {l : SequenceSymbol} (h : (r.definition file prototype).labels.find? name = some l) :
    (r.definition file prototype).Labels name l := by
  have hbody : (r.definition file prototype).body.toList = r.statements.map (·.statement) := rfl
  obtain ⟨k, m, p, hm, hlabel, rfl, hseen, hfirst⟩ :=
    exists_of_find?_labels ((find?_labelTable r.labels name).symm.trans h)
  refine ⟨rfl, ⟨m, p, ?_, hlabel, rfl⟩, ?_, ?_⟩
  · rw [nestedBody_definition, Nat.zero_add, hm]
  · rw [hbody, Nat.zero_add]
    exact hseen
  · intro i hi
    rw [hbody]
    exact hfirst i (Nat.zero_add k ▸ hi)

/-- A definition that is read from a file, or from the body of a well-formed one, is well-formed. -/
theorem Captured.wellFormed {r : MacroRecord} (h : Captured j ds r) (hds : ∀ d ∈ ds, d.WellFormed j) :
    r.definition.WellFormed j := by
  obtain ⟨isExternal, informed, library, known, listed, found, traced⟩ := h
  rename_i a opening prototype rest listing
  have hsub : rest ⊆ listing := ((List.suffix_append [opening, prototype] rest).isInfix.trans found.isPiece).subset
  have hguarded := a.guarded_read opening prototype fun n hn => listed.opened hds n (hsub hn)
  have hrest (n : NestedStatement) (hn : n ∈ rest) := traced n (by simp [hn])
  have htraced := informed.read opening prototype hrest
  refine ⟨?_, fun n hn => ?_, fun n hn => ?_, fun hl => Reading.labels_definition _ _ _ hl⟩
  · simp [Reading.record, Reading.definition]
  · replace hn : n ∈ (a.read opening prototype rest).statements := Reading.nestedBody_definition .. ▸ hn
    exact (hguarded n hn).1.wellNested (htraced n (List.mem_reverse.1 hn))
  · replace hn : n ∈ (a.read opening prototype rest).statements := Reading.nestedBody_definition .. ▸ hn
    exact (hguarded n hn).2

/-- **All definitions that have been registered are well-formed.** -/
theorem Chronicle.wellFormed (h : Chronicle j n ds) : ∀ d ∈ ds, d.WellFormed j := by
  induction h with
  | start => exact nofun
  | noted _ _ _ ih => exact ih
  | registered _ captured ih =>
    refine List.forall_mem_append.2 ⟨ih, fun d hd => ?_⟩
    cases List.mem_singleton.1 hd
    -- the serial, which tells the definition as it is registered, is not among its parts
    obtain ⟨sizes, nested, keeps, labelled⟩ := captured.wellFormed ih
    exact ⟨sizes, nested, keeps, fun hl => let ⟨hname, hs, hseen, hfirst⟩ := labelled hl; ⟨hname, hs, hseen, hfirst⟩⟩

end

namespace Assembly

variable {file text : String} {library : Library} {settings : Settings} {now : Moment} {a : Assembly}

/-- **Every definition that is registered in a run is well-formed.**  There are as many as have been registered, in
order, and those that can be called, those that are recorded and those that are being expanded are among them.  No
statement of the body that stands in front of the one that is entered for a sequence symbol, outside of nested
definitions, has that label. -/
theorem captured_definitions_well_formed (h : (fresh file text library settings now).Reaches a) :
    ∃ ds : List MacroDefinition,
      Chronicle ⟨(statementsOf text.toList).toArray, file, library, settings⟩ a.annals ds ∧
      ds.length = a.context.registrations ∧ (∀ (i : Nat) d, ds[i]? = some d → d.serial = i) ∧
      (∀ name d, a.context.macros.find? name = some d → d ∈ ds) ∧ (∀ r ∈ a.records, r.definition ∈ ds) ∧
      (∀ p ∈ a.control, ∀ d ∈ p.definition?, d ∈ ds) ∧
      (∀ d ∈ ds, d.WellFormed ⟨(statementsOf text.toList).toArray, file, library, settings⟩) ∧
      ∀ d ∈ ds, ∀ name l, d.labels.find? name = some l →
        ∀ i < l.offset, Outside d.body.toList i → labelAt? d.body.toList i ≠ some name := by
  obtain ⟨ds, chronicle, expanded⟩ := h.chronicled
  refine ⟨ds, chronicle, chronicle.registrations_eq.symm, fun _ _ => chronicle.serial_eq,
    fun _ _ => chronicle.mem_of_find?, fun _ => chronicle.definition_mem, expanded, chronicle.wellFormed,
    fun d hd _ _ hl _ hi outside => ((chronicle.wellFormed d hd).labelled hl).first_outside hi outside⟩

/-- Two members that copy each other, one of which defines a macro. -/
def mutualLibrary : Library :=
  .ofMembers [("M", ⟨"m", " COPY N\n MACRO\n INNER\n.A ANOP\n MEND\n"⟩), ("N", ⟨"n", " COPY M\n.A ANOP\n"⟩)]

/-- A macro that copies one of them is called, and a macro is defined in its body. -/
def mutualText : String := " MACRO\n OUTER\n COPY M\n MEND\n OUTER"

/-- The copy members of the nests of a definition, and the places of its labels. -/
def membersAndLabels (d : MacroDefinition) : List (List (Option String)) × List (String × Location × Nat) :=
  (d.nests.toList.map fun nest => nest.map (·.member), d.labels.entries.map fun e => (e.1, e.2.location, e.2.offset))

/-- The macro that is defined in the body of the other one has the nests of that body. -/
theorem captured_of_mutual_copy :
    ∃ a d e, (fresh "S" mutualText mutualLibrary {} default).Reaches a ∧ a.context.macros.find? "OUTER" = some d ∧
      a.context.macros.find? "INNER" = some e ∧
      membersAndLabels d = ([[none, some "M", some "N"], [none, some "M"], [none, some "M"], [none, some "M"],
        [none, some "M"], [none]], [("A", ⟨"n", 1, 0⟩, 0)]) ∧
      membersAndLabels e = ([[none, some "M"], [none, some "M"]], [("A", ⟨"m", 3, 0⟩, 0)]) ∧
      d.WellFormed ⟨(statementsOf mutualText.toList).toArray, "S", mutualLibrary, {}⟩ ∧
      e.WellFormed ⟨(statementsOf mutualText.toList).toArray, "S", mutualLibrary, {}⟩ := by
  have h : ((fresh "S" mutualText mutualLibrary {} default).run 4).toOption.any fun a =>
      (a.context.macros.find? "OUTER").any (fun d => membersAndLabels d == ([[none, some "M", some "N"],
        [none, some "M"], [none, some "M"], [none, some "M"], [none, some "M"], [none]], [("A", ⟨"n", 1, 0⟩, 0)])) &&
      (a.context.macros.find? "INNER").any (fun e => membersAndLabels e ==
        ([[none, some "M"], [none, some "M"]], [("A", ⟨"m", 3, 0⟩, 0)])) := by decide +kernel
  obtain ⟨a, ha, h⟩ := exists_of_any h
  obtain ⟨⟨d, hd, hdparts⟩, e, he, heparts⟩ : (∃ d, a.context.macros.find? "OUTER" = some d ∧ _) ∧
      ∃ e, a.context.macros.find? "INNER" = some e ∧ _ := by
    simpa only [Bool.and_eq_true, Option.any_eq_true, beq_iff_eq] using h
  have hreach : (fresh "S" mutualText mutualLibrary {} default).Reaches a := ⟨4, ha⟩
  obtain ⟨ds, -, -, -, hmacros, -, -, hformed, -⟩ := captured_definitions_well_formed hreach
  exact ⟨a, d, e, hreach, hd, he, hdparts, heparts, hformed d (hmacros _ d hd), hformed e (hmacros _ e he)⟩

end Assembly

end AssemblerIndex
