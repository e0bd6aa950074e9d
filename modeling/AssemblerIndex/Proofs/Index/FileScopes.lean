import AssemblerIndex.Index.Navigation

/-!
# The scope of a line

A line of a file belongs to the innermost macro definition that has it, which is the one with the smallest slice there.

* `IndexedFile.Innermost` — the slice is the first of the smallest ones that have a line;
* `recordAt?_eq_some_iff`, `recordAt?_eq_none_iff` — **the scope of a line is that of its innermost slice**, and it is
  open code where no slice has the line;
* `Assembly.indexOf` — the index, with the records in a given order;
* `mem_slicesIn` — the slices of a file are those of the records that have lines there.
-/

namespace AssemblerIndex

namespace IndexedFile

/-- The slice has the line, and it is smaller than the others before it that have the line, and not larger than those
behind it. -/
def Innermost (f : IndexedFile) (line : Nat) (s : Slice) : Prop :=
  ∃ before after, f.slices = before ++ s :: after ∧ s.lines.contains line ∧
    (∀ t ∈ before, t.lines.contains line → s.lines.size < t.lines.size) ∧
    ∀ t ∈ after, t.lines.contains line → s.lines.size ≤ t.lines.size

variable {f : IndexedFile} {line : Nat} {s : Slice}

theorem Innermost.mem (h : f.Innermost line s) : s ∈ f.slices ∧ s.lines.contains line := by
  obtain ⟨before, after, hslices, hline, -⟩ := h
  exact ⟨hslices ▸ by simp, hline⟩

/-- The smallest of some slices, if there is one before them. -/
theorem foldl_smaller (slices : List Slice) (best : Slice) :
    (slices.foldl smaller (some best) = some best ∧ ∀ t ∈ slices, best.lines.size ≤ t.lines.size) ∨
      ∃ before s after, slices = before ++ s :: after ∧ slices.foldl smaller (some best) = some s ∧
        s.lines.size < best.lines.size ∧ (∀ t ∈ before, s.lines.size < t.lines.size) ∧
        ∀ t ∈ after, s.lines.size ≤ t.lines.size := by
  induction slices generalizing best with
  | nil => exact .inl ⟨rfl, nofun⟩
  | cons t rest ih =>
    rw [List.foldl_cons, smaller]
    split
    · next hlt =>
      refine .inr ?_
      rcases ih t with ⟨hfold, hall⟩ | ⟨before, s, after, rfl, hfold, hs, hbefore, hafter⟩
      · exact ⟨[], t, rest, rfl, hfold, hlt, nofun, hall⟩
      · exact ⟨t :: before, s, after, rfl, hfold, by omega, List.forall_mem_cons.2 ⟨hs, hbefore⟩, hafter⟩
    · next hle =>
      rcases ih best with ⟨hfold, hall⟩ | ⟨before, s, after, rfl, hfold, hs, hbefore, hafter⟩
      · exact .inl ⟨hfold, List.forall_mem_cons.2 ⟨by omega, hall⟩⟩
      · exact .inr ⟨t :: before, s, after, rfl, hfold, hs, List.forall_mem_cons.2 ⟨by omega, hbefore⟩, hafter⟩

/-- A slice that is innermost among those that have the line is so among all. -/
theorem innermost_of_filter (before : List Slice) {after : List Slice}
    (h : f.slices.filter (·.lines.contains line) = before ++ s :: after)
    (hbefore : ∀ t ∈ before, s.lines.size < t.lines.size) (hafter : ∀ t ∈ after, s.lines.size ≤ t.lines.size) :
    f.Innermost line s := by
  obtain ⟨front, back, hslices, rfl, hback⟩ := List.filter_eq_append_iff.1 h
  obtain ⟨more, after', rfl, hmore, hs, rfl⟩ := List.filter_eq_cons_iff.1 hback
  refine ⟨front ++ more, after', by rw [hslices, List.append_assoc], hs, fun t ht hline => ?_, fun t ht hline => ?_⟩
  · rcases List.mem_append.1 ht with ht | ht
    · exact hbefore t (List.mem_filter.2 ⟨ht, hline⟩)
    · exact absurd hline (hmore t ht)
  · exact hafter t (List.mem_filter.2 ⟨ht, hline⟩)

theorem exists_innermost {t : Slice} (ht : t ∈ f.slices) (hline : t.lines.contains line) :
    ∃ s, f.Innermost line s := by
  cases h : f.slices.filter (·.lines.contains line) with
  | nil => exact absurd hline (List.filter_eq_nil_iff.1 h t ht)
  | cons first rest =>
    rcases foldl_smaller rest first with ⟨-, hall⟩ | ⟨before, s, after, rfl, -, hs, hbefore, hafter⟩
    · exact ⟨first, innermost_of_filter [] h nofun hall⟩
    · exact ⟨s, innermost_of_filter (first :: before) h (List.forall_mem_cons.2 ⟨hs, hbefore⟩) hafter⟩

theorem Innermost.recordAt? (h : f.Innermost line s) : f.recordAt? line = some s.record := by
  obtain ⟨before, after, hslices, hline, hbefore, hafter⟩ := h
  have hfirst : smaller ((before.filter (·.lines.contains line)).foldl smaller none) s = some s := by
    cases hfilter : before.filter (·.lines.contains line) with
    | nil => rfl
    | cons first rest =>
      have hlt (t : Slice) (ht : t ∈ first :: rest) : s.lines.size < t.lines.size := by
        rw [← hfilter, List.mem_filter] at ht
        exact hbefore t ht.1 ht.2
      rcases foldl_smaller rest first with ⟨hfold, -⟩ | ⟨front, t, back, rfl, hfold, -⟩
      · exact (congrArg (smaller · s) hfold).trans (if_pos (hlt first List.mem_cons_self))
      · exact (congrArg (smaller · s) hfold).trans (if_pos (hlt t (by simp)))
  have hrest : (after.filter (·.lines.contains line)).foldl smaller (some s) = some s := by
    rcases foldl_smaller (after.filter (·.lines.contains line)) s with ⟨hfold, -⟩ | ⟨front, t, back, heq, -, hlt, -⟩
    · exact hfold
    · obtain ⟨ht, hcontains⟩ := List.mem_filter.1 (heq ▸ List.mem_append_right front List.mem_cons_self)
      exact absurd hlt (Nat.not_lt.2 (hafter t ht hcontains))
  unfold IndexedFile.recordAt?
  rw [hslices, List.filter_append, List.filter_cons, if_pos hline, List.foldl_append, List.foldl_cons, hfirst, hrest]
  rfl

/-- Where no slice has the line, it belongs to open code. -/
theorem recordAt?_eq_none_iff : f.recordAt? line = none ↔ ∀ t ∈ f.slices, ¬t.lines.contains line := by
  constructor
  · intro h t ht hline
    obtain ⟨s, hs⟩ := exists_innermost ht hline
    rw [hs.recordAt?] at h
    cases h
  · intro h
    unfold recordAt?
    rw [List.filter_eq_nil_iff.2 h]
    rfl

/-- **The scope of a line is that of the innermost slice there.** -/
theorem recordAt?_eq_some_iff {r : MacroRecord} :
    f.recordAt? line = some r ↔ ∃ s, f.Innermost line s ∧ s.record = r := by
  constructor
  · intro h
    obtain ⟨t, ht, hline⟩ : ∃ t ∈ f.slices, t.lines.contains line := by
      refine Classical.byContradiction fun hnone => ?_
      rw [recordAt?_eq_none_iff.2 fun t ht hline => hnone ⟨t, ht, hline⟩] at h
      cases h
    obtain ⟨s, hs⟩ := exists_innermost ht hline
    rw [hs.recordAt?] at h
    exact ⟨s, hs, Option.some.inj h⟩
  · rintro ⟨s, hs, rfl⟩
    exact hs.recordAt?

end IndexedFile

/-! ### The records of an index -/

/-- The records of an assembly in the order in which they were made, with their calls resolved. -/
def Assembly.resolvedRecords (a : Assembly) : List MacroRecord :=
  a.records.reverse.map fun r => { r with occurrences := r.occurrences.map fun e => (e.1, e.2.resolved a.context) }

/-- The index of an assembly with its records in a given order. -/
def Assembly.indexOf (a : Assembly) (records : List MacroRecord) : Index :=
  let occurrences := a.occurrences.reverse.map fun e => (e.1, e.2.resolved a.context)
  { context := a.context
    settings := a.settings
    files := ⟨a.files.entries.map fun e => (e.1,
      { content := e.2.content
        text := e.2.text
        occurrences := occurrencesIn e.1 (records.flatMap (·.occurrences) ++ occurrences)
        slices := slicesIn e.1 records })⟩
    records
    occurrences
    declarations := a.declarations }

theorem Assembly.index_eq_indexOf (a : Assembly) :
    a.index = a.indexOf (a.resolvedRecords.mergeSort MacroRecord.le) := rfl

/-- Records that are made in their order need not be sorted. -/
theorem Assembly.index_of_pairwise {a : Assembly} (h : a.resolvedRecords.Pairwise fun r r' => r.le r') :
    a.index = a.indexOf a.resolvedRecords := by
  rw [index_eq_indexOf, List.mergeSort_of_pairwise h]

theorem Assembly.records_index_perm (a : Assembly) : a.index.records.Perm a.resolvedRecords :=
  List.mergeSort_perm ..

/-! ### The slices of an index -/

theorem mem_slicesIn {file : String} {records : List MacroRecord} {s : Slice} :
    s ∈ slicesIn file records ↔ s.record ∈ records ∧ ∃ ranges ∈ s.record.scopes.find? file, s.lines ∈ ranges := by
  unfold slicesIn
  simp only [List.mem_flatMap, List.mem_map]
  constructor
  · rintro ⟨r, hr, lines, hlines, rfl⟩
    cases h : r.scopes.find? file with
    | none => simp [h] at hlines
    | some ranges => exact ⟨hr, ranges, rfl, by simpa [h] using hlines⟩
  · rintro ⟨hr, ranges, hranges, hlines⟩
    exact ⟨s.record, hr, s.lines, by simpa [Option.mem_def.1 hranges] using hlines, rfl⟩

/-- The scope of a line in the index of an assembly is one of its records. -/
theorem mem_records_of_recordAt? {a : Assembly} {e : String × IndexedFile} (he : e ∈ a.index.files.entries)
    {line : Nat} {r : MacroRecord} (h : e.2.recordAt? line = some r) : r ∈ a.index.records := by
  obtain ⟨s, hs, rfl⟩ := IndexedFile.recordAt?_eq_some_iff.1 h
  obtain ⟨file, -, rfl⟩ := List.mem_map.1 he
  exact (mem_slicesIn.1 hs.mem.1).1

end AssemblerIndex
