import AssemblerIndex.Proofs.Assembly.SharedStatements
import AssemblerIndex.Proofs.Index.FileOccurrences

/-!
# The scopes of references

A variable symbol or a sequence symbol means something in one scope, a macro definition or open code.  References to it
are looked for among what has been recorded for the scope of a line, while the scope of a line is found by the lines of
the definitions.

* `Index.RecordsFor` — a symbol has been recorded for a scope in a stretch of a file;
* `IndexedFile.Overlaid` — a line of a scope belongs to another macro, of which the slice there is the innermost one;
* `scoped_references` — **references to a scoped symbol have been recorded for its scope, and are in this scope unless
  another macro that has recorded the symbol in the same place is laid over it**.
-/

namespace AssemblerIndex

open Assembly (Job)

/-! ### What is recorded for a scope -/

/-- What has been recorded for a macro, or else for open code. -/
def Index.occurrencesOf (x : Index) : Option MacroRecord → FileOccurrences
  | some r => r.occurrences
  | none => x.occurrences

/-- A symbol like that of the occurrence has been recorded for the scope in the stretch of a file. -/
def Index.RecordsFor (x : Index) (scope : Option MacroRecord) (o : Occurrence) (r : FileSpan) : Prop :=
  ∃ e ∈ x.occurrencesOf scope, e.2.isSimilar o ∧ r = ⟨e.1, e.2.span⟩

/-- The line belongs to a macro other than the scope, of which the slice is the innermost one there.  If the scope is a
macro, it has a slice there, too. -/
structure IndexedFile.Overlaid (f : IndexedFile) (line : Nat) (scope : Option MacroRecord) (t : Slice) : Prop where
  innermost : f.Innermost line t
  other : some t.record ≠ scope
  shared : ∀ m ∈ scope, ∃ u ∈ f.slices, u.record = m ∧ u.lines.contains line

/-- A line belongs to the scope or to a macro that is laid over it, if the scope has a slice with the line. -/
theorem IndexedFile.same_or_overlaid {f : IndexedFile} {line : Nat} {scope : Option MacroRecord}
    (hshared : ∀ m ∈ scope, ∃ u ∈ f.slices, u.record = m ∧ u.lines.contains line) :
    f.recordAt? line = scope ∨ ∃ t, f.Overlaid line scope t := by
  cases hat : f.recordAt? line with
  | none =>
    have hnone := recordAt?_eq_none_iff.1 hat
    refine .inl (Option.eq_none_iff_forall_not_mem.2 fun m hm => ?_).symm
    obtain ⟨u, hu, -, hline⟩ := hshared m hm
    exact hnone u hu hline
  | some m =>
    obtain ⟨t, ht, rfl⟩ := recordAt?_eq_some_iff.1 hat
    by_cases hsame : some t.record = scope
    · exact .inl hsame
    · exact .inr ⟨t, ht, hsame, hshared⟩

theorem occurrencesFor_of_isScoped {x : Index} {s : Spot} (hscoped : s.occurrence.isScoped) :
    x.occurrencesFor s = x.occurrencesOf s.record := by
  refine Eq.trans (if_pos hscoped) ?_
  cases s.record <;> rfl

section

variable {a : Assembly} {file : String} {f : IndexedFile} {line : Nat} {m : MacroRecord}

/-- A record of the index is one of the assembly, with its calls resolved. -/
theorem Assembly.exists_record (h : m ∈ a.index.records) :
    ∃ r ∈ a.records, m = { r with occurrences := r.occurrences.map fun e => (e.1, e.2.resolved a.context) } := by
  obtain ⟨r, hr, rfl⟩ := List.mem_map.1 (a.records_index_perm.subset h)
  exact ⟨r, List.mem_reverse.1 hr, rfl⟩

theorem mem_records_of_spot? {name : String} {p : Position} {s : Spot} (hs : a.index.spot? name p = some s)
    (hm : m ∈ s.record) : m ∈ a.index.records := by
  obtain ⟨f, hf, hs⟩ := Option.bind_eq_some_iff.1 hs
  obtain ⟨o, -, rfl⟩ := Option.map_eq_some_iff.1 hs
  exact mem_records_of_recordAt? (Table.mem_of_lookup hf) hm

/-- The slices of an indexed file that have a line are those of the records that cover it. -/
theorem exists_slice_iff (hf : a.index.files.find? file = some f) :
    (∃ t ∈ f.slices, t.record = m ∧ t.lines.contains line) ↔ m ∈ a.index.records ∧ m.Covers file line := by
  obtain ⟨q, -, hq⟩ := List.mem_map.1 (Table.mem_of_lookup hf)
  obtain ⟨rfl, rfl⟩ := Prod.mk.inj hq
  constructor
  · rintro ⟨t, ht, rfl, hline⟩
    obtain ⟨hmem, hlines⟩ := mem_slicesIn.1 ht
    exact ⟨hmem, t.lines, hlines, hline⟩
  · rintro ⟨hmem, lines, hlines, hline⟩
    exact ⟨⟨lines, m⟩, mem_slicesIn.2 ⟨hmem, hlines⟩, rfl, hline⟩

end

/-! ### Occurrences of scoped symbols -/

namespace Occurrence

variable {o q : Occurrence}

theorem kind_ne_of_isScoped (h : o.isScoped) : o.kind ≠ .instruction := by
  intro hkind
  simp [isScoped, hkind] at h

/-- A scoped symbol is no call to be resolved. -/
theorem resolved_of_isScoped (h : o.isScoped) (x : Context) : o.resolved x = o :=
  if_neg fun hkind => kind_ne_of_isScoped h hkind.1

@[simp] theorem kind_resolved (x : Context) (o : Occurrence) : (o.resolved x).kind = o.kind := by
  unfold resolved
  split <;> rfl

theorem isSimilar_trans {o' : Occurrence} (h : o.isSimilar q) (h' : q.isSimilar o') : o.isSimilar o' := by
  simp only [isSimilar_iff] at *
  exact ⟨h.1.trans h'.1, h.2.1.trans h'.2.1, h.2.2.trans h'.2.2⟩

theorem isScoped_of_isSimilar (h : o.isSimilar q) (hq : q.isScoped) : o.isScoped := by
  rw [isScoped, (isSimilar_iff.1 h).1]
  exact hq

end Occurrence

/-- A statement that has been noted for a macro has been recorded with all symbols like those in it. -/
theorem exists_of_notedIn {file : String} {s : Statement} {os : FileOccurrences}
    (h : (NestedStatement.direct file s).NotedIn os) {callee : Option MacroDefinition} {o : Occurrence}
    (ho : o ∈ s.occurrences callee) (hscoped : o.isScoped) : ∃ q, (file, q) ∈ os ∧ q.isSimilar o ∧ q.span = o.span := by
  obtain ⟨callee', h⟩ := h
  obtain ⟨q, hq, hsame⟩ : ∃ q ∈ s.occurrences callee', (q.kind, q.name, q.span) = (o.kind, o.name, o.span) := by
    rw [← List.mem_map, map_occurrences (fun o => (o.kind, o.name, o.span)) (fun _ _ => rfl) s callee' callee]
    exact List.mem_map_of_mem ho
  obtain ⟨hkind, hname, hspan⟩ : q.kind = o.kind ∧ q.name = o.name ∧ q.span = o.span := by simpa using hsame
  have hcallee {c : Option MacroDefinition} {q : Occurrence} (hq : q ∈ s.occurrences c) (hscoped : q.isScoped) :
      q.callee = none :=
    (callee_of_mem_occurrences hq).resolve_right fun h => Occurrence.kind_ne_of_isScoped hscoped h.1
  have hscoped' : q.isScoped := by rwa [Occurrence.isScoped, hkind]
  refine ⟨q, h q hq, Occurrence.isSimilar_iff.2 ⟨hkind, hname, ?_⟩, hspan⟩
  rw [Occurrence.calleeSerial, Occurrence.calleeSerial, hcallee hq hscoped', hcallee ho hscoped]

/-! ### Scopes of references -/

/-- The definition is one in the body of another macro, with its `MACRO`, its prototype and its end having come
different ways into that. -/
def MacroDefinition.Scattered (j : Job) (d : MacroDefinition) : Prop :=
  ∃ outer, Defines j outer ∧ d.ScatteredIn outer.nestedBody

/-- The stretch of a file is a reference to the symbol at a spot. -/
structure ScopedReference (j : Job) (x : Index) (s : Spot) (r : FileSpan) : Prop where
  /-- the symbol was recorded there for the scope of the spot -/
  recorded : x.RecordsFor s.record s.occurrence r
  /-- it is in this scope, or in that of another macro that is laid over it -/
  scope : ∀ {f}, x.files.find? r.file = some f → f.recordAt? r.span.start.line = s.record ∨
    (∃ t, f.Overlaid r.span.start.line s.record t) ∨
      r.span.InCopy (j.library.Holds r.file) ∨ ∃ m ∈ s.record, m.definition.Scattered j
  /-- for that macro the symbol was recorded there as well -/
  overlay : ∀ {f t}, x.files.find? r.file = some f → f.Overlaid r.span.start.line s.record t → SameStatements j →
    x.RecordsFor (some t.record) s.occurrence r ∨
      r.span.InCopy (Written j r.file) ∨ t.record.definition.Scattered j

section

variable {j : Job} {a : Assembly} {ds : List MacroDefinition} {source : List Char} {e : String × Occurrence}
  {m : MacroRecord}

/-- What has been recorded for a macro stands in its lines. -/
theorem covers_of_mem (h : Chronicle j a.annals ds) (hsource : j.statements.toList = statementsOf source)
    (hm : m ∈ a.index.records) (he : e ∈ m.occurrences) : m.Covers e.1 e.2.span.start.line ∨
      e.2.span.InCopy (j.library.Holds e.1) ∨ m.definition.Scattered j := by
  obtain ⟨r, hr, rfl⟩ := Assembly.exists_record hm
  obtain ⟨q, hq, rfl⟩ := List.mem_map.1 he
  rw [Occurrence.span_resolved]
  refine (h.covers hsource hr hq).imp_right (Or.imp_right ?_)
  exact fun ⟨d, hd, hscattered⟩ => ⟨d, h.defines d hd, hscattered⟩

/-- What stands in the lines of a macro has been recorded for it, if it has been recorded at all. -/
theorem recordsFor_of_covers (h : Chronicle j a.annals ds) (hsource : j.statements.toList = statementsOf source)
    (same : SameStatements j) (hm : m ∈ a.index.records) {o : Occurrence} (ho : Recorded j ds (e.1, o))
    (hscoped : o.isScoped) (hcovers : m.Covers e.1 o.span.start.line) :
    a.index.RecordsFor (some m) o ⟨e.1, o.span⟩ ∨ o.span.InCopy (Written j e.1) ∨ m.definition.Scattered j := by
  obtain ⟨r, hr, rfl⟩ := Assembly.exists_record hm
  obtain ⟨s, callee, hs, ho, -⟩ := ho
  obtain ⟨source', hs'⟩ := mem_statementsOf_of_written hs hsource
  have hline := line_of_mem_occurrences hs' ho
  rcases h.notedIn hsource same hr hcovers hs hline with hnoted | copies | ⟨d, hd, hscattered⟩
  · obtain ⟨q, hq, hsimilar, hspan⟩ := exists_of_notedIn hnoted ho hscoped
    refine .inl ⟨_, List.mem_map_of_mem hq, ?_, by simp [hspan]⟩
    rwa [Occurrence.resolved_of_isScoped (Occurrence.isScoped_of_isSimilar hsimilar hscoped)]
  · exact .inr (.inl (Span.inCopy_of_mem hs copies ho))
  · exact .inr (.inr ⟨d, h.defines d hd, hscattered⟩)

end

/-- **References to a scoped symbol stay in its scope, but for lines that other macros share.**  Every stretch that is
listed has been recorded for the scope of the spot, and the line where it begins belongs to this scope or to a macro that
is laid over it.  If each name of a file stands for the same statements, the symbol has been recorded there for that
macro as well. -/
theorem scoped_references {file text : String} {library : Library} {settings : Settings} {now : Moment} {x : Index}
    (analyzed : Index.analyze (.start file settings now) text library settings = .ok x) {name : String} {p : Position}
    {s : Spot} (here : x.spot? name p = some s) (hscoped : s.occurrence.isScoped) :
    ∀ r ∈ x.references name p,
      ScopedReference ⟨(statementsOf text.toList).toArray, file, library, settings⟩ x s r := by
  obtain ⟨a, ha, rfl⟩ := Assembly.exists_of_analyze analyzed
  obtain ⟨ds, hds⟩ := ha.chronicled
  have hsource : (statementsOf text.toList).toArray.toList = statementsOf text.toList := rfl
  intro r hr
  obtain ⟨e, he, hsimilar, rfl⟩ := (mem_references here).1 hr
  rw [occurrencesFor_of_isScoped hscoped] at he
  refine ⟨⟨e, he, hsimilar, rfl⟩, fun {f} hf => ?_, fun {f t} hf ht same => ?_⟩
  · -- the scope, if it is a macro, has a slice with the line
    have hslices : (∀ m ∈ s.record, ∃ u ∈ f.slices, u.record = m ∧ u.lines.contains e.2.span.start.line) ∨
        e.2.span.InCopy (library.Holds e.1) ∨ ∃ m ∈ s.record, m.definition.Scattered
          ⟨(statementsOf text.toList).toArray, file, library, settings⟩ := by
      cases hrecord : s.record with
      | none => exact .inl nofun
      | some m =>
        have hm := mem_records_of_spot? here hrecord
        rw [hrecord] at he
        refine (covers_of_mem hds.chronicle hsource hm he).imp (fun hcovers m' hm' => ?_)
          (Or.imp_right fun hscattered => ⟨m, rfl, hscattered⟩)
        cases hm'
        exact (exists_slice_iff hf).2 ⟨hm, hcovers⟩
    rcases hslices with hshared | hexcepted
    · exact (IndexedFile.same_or_overlaid hshared).imp_right .inl
    · exact .inr (.inr hexcepted)
  · -- the overlying macro has the line, so it has read the statement
    obtain ⟨hmem, hline⟩ := ht.innermost.mem
    obtain ⟨hrecord, hcovers⟩ := (exists_slice_iff hf).1 ⟨t, hmem, rfl, hline⟩
    obtain ⟨o, ho, heq⟩ := exists_of_mem_recorded (occurrencesFor_subset here (occurrencesFor_of_isScoped hscoped ▸ he))
    have hscoped' : o.isScoped := by
      have := Occurrence.isScoped_of_isSimilar hsimilar hscoped
      rwa [heq, Occurrence.isScoped, Occurrence.kind_resolved] at this
    rw [Occurrence.resolved_of_isScoped hscoped'] at heq
    rw [heq] at hcovers hsimilar ⊢
    have hrecorded := hds.chronicle.recorded ho
    refine (recordsFor_of_covers hds.chronicle hsource same hrecord hrecorded hscoped' hcovers).imp_left ?_
    exact fun ⟨e', he', hsimilar', hplace⟩ => ⟨e', he', Occurrence.isSimilar_trans hsimilar' hsimilar, hplace⟩

/-- A macro that copies a member, and open code with a symbol of the same name. -/
def copyingMacro : String := " MACRO\n A\n COPY M\n&X SETA 2\n MEND\n A\n&X SETA 3\n"

/-- The references to a symbol of the macro are in the member and in the macro, and not in open code. -/
theorem scoped_references_of_copying_macro :
    ∃ x, Index.analyze (.start "S" {} default) copyingMacro assignmentLibrary {} = .ok x ∧
      ∃ s, x.spot? "S" ⟨3, 0⟩ = some s ∧ s.record.map (·.definition.name) = some "A" ∧
        (∀ r, r ∈ x.references "S" ⟨3, 0⟩ ↔ r = ⟨"M", ⟨0, 0⟩, ⟨0, 2⟩⟩ ∨ r = ⟨"S", ⟨3, 0⟩, ⟨3, 2⟩⟩) ∧
        SameStatements ⟨(statementsOf copyingMacro.toList).toArray, "S", assignmentLibrary, {}⟩ ∧
        ∀ r ∈ x.references "S" ⟨3, 0⟩, ScopedReference
          ⟨(statementsOf copyingMacro.toList).toArray, "S", assignmentLibrary, {}⟩ x s r := by
  obtain ⟨x, analyzed, hspot⟩ : ∃ x, Index.analyze (.start "S" {} default) copyingMacro assignmentLibrary {} = .ok x ∧
      (x.spot? "S" ⟨3, 0⟩).any fun s => decide (s.occurrence.isScoped ∧ s.record.map (·.definition.name) = some "A" ∧
        ((x.occurrencesFor s).filter (·.2.isSimilar s.occurrence)).map (fun e => (⟨e.1, e.2.span⟩ : FileSpan)) =
          [⟨"M", ⟨0, 0⟩, ⟨0, 2⟩⟩, ⟨"S", ⟨3, 0⟩, ⟨3, 2⟩⟩]) :=
    Assembly.exists_analyze_of_pairwise (n := 12) (by decide) (by decide +kernel)
  obtain ⟨s, hs, hspot⟩ := (Option.any_eq_true ..).1 hspot
  obtain ⟨hscoped, hname, hfound⟩ := of_decide_eq_true hspot
  refine ⟨x, analyzed, s, hs, hname, fun r => ?_, (oneText_assignmentLibrary copyingMacro).sameStatements {},
    scoped_references analyzed hs hscoped⟩
  rw [mem_references hs]
  have hmem : (r ∈ ((x.occurrencesFor s).filter (·.2.isSimilar s.occurrence)).map fun e => ⟨e.1, e.2.span⟩) = _ :=
    congrArg (r ∈ ·) hfound
  simp only [List.mem_map, List.mem_filter, and_assoc, List.mem_cons, List.not_mem_nil, or_false,
    eq_comm (b := r)] at hmem
  exact iff_of_eq hmem

/-- Two macros that copy the same member. -/
def sharedMember : String :=
  " MACRO\n A\n COPY M\n MEND\n MACRO\n B\n COPY M\n&X SETA 2\n MEND\n A\n B\n"

/-- A reference that is not in the scope of the symbol: it is in a member that two macros copy, and the scope of that is
the first one. -/
theorem reference_out_of_scope :
    ∃ x, Index.analyze (.start "S" {} default) sharedMember assignmentLibrary {} = .ok x ∧
      ∃ s r f, x.spot? "S" ⟨7, 0⟩ = some s ∧ s.occurrence.isScoped ∧ r ∈ x.references "S" ⟨7, 0⟩ ∧
        x.files.find? r.file = some f ∧ f.recordAt? r.span.start.line ≠ s.record := by
  obtain ⟨x, analyzed, hspot⟩ : ∃ x, Index.analyze (.start "S" {} default) sharedMember assignmentLibrary {} = .ok x ∧
      (x.spot? "S" ⟨7, 0⟩).any fun s => decide (s.occurrence.isScoped ∧ s.record.map (·.definition.name) = some "B" ∧
        (∃ e ∈ x.occurrencesFor s, e.2.isSimilar s.occurrence ∧ e.1 = "M" ∧ e.2.span = ⟨⟨0, 0⟩, ⟨0, 2⟩⟩) ∧
        (x.files.find? "M").map (fun f => (f.recordAt? 0).map (·.definition.name)) = some (some "A")) :=
    Assembly.exists_analyze_of_pairwise (n := 20) (by decide) (by decide +kernel)
  obtain ⟨s, hs, hspot⟩ := (Option.any_eq_true ..).1 hspot
  obtain ⟨hscoped, hname, ⟨e, he, hsimilar, hfile, hspan⟩, hscope⟩ := of_decide_eq_true hspot
  obtain ⟨f, hf, hrecord⟩ := Option.map_eq_some_iff.1 hscope
  refine ⟨x, analyzed, s, ⟨"M", ⟨0, 0⟩, ⟨0, 2⟩⟩, f, hs, hscoped, ?_, hf, fun hsame => ?_⟩
  · exact (mem_references hs).2 ⟨e, he, hsimilar, by rw [hfile, hspan]⟩
  · have : some "A" = some "B" := by rw [← hrecord, ← hname, ← hsame]
    exact absurd this (by decide)

end AssemblerIndex
