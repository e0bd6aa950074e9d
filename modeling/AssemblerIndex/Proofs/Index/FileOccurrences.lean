import AssemblerIndex.Proofs.Assembly.Chronicle
import AssemblerIndex.Proofs.Index.FileScopes
import AssemblerIndex.Proofs.Index.OpenCodeOutline
import AssemblerIndex.Proofs.Statement.OccurrenceOrder

/-!
# The occurrences of a file

Occurrences are recorded by open code and by every macro, many of them more than once, and are put together by file.

* `Gathered os found` — of some occurrences, those that are alike in the same place are found once;
* `FileSpan.Before` — the order in which references are listed, and `pairwise_eraseReps`, which brings it about;
* `OneText` — each name of a file stands for one text;
* `fileOccurrences_gathered` — **the index of a file holds what was recorded for it, each occurrence once**.
-/

namespace AssemblerIndex

/-! ### Gathering occurrences -/

theorem Occurrence.isSimilar_iff {o p : Occurrence} :
    o.isSimilar p ↔ o.kind = p.kind ∧ o.name = p.name ∧ o.calleeSerial = p.calleeSerial := by
  simp [isSimilar, and_assoc]

@[simp] theorem Occurrence.isSimilar_self (o : Occurrence) : o.isSimilar o := isSimilar_iff.2 ⟨rfl, rfl, rfl⟩

theorem Occurrence.isSimilar_comm {o p : Occurrence} (h : o.isSimilar p) : p.isSimilar o := by
  simp only [isSimilar_iff] at *
  exact ⟨h.1.symm, h.2.1.symm, h.2.2.symm⟩

/-- Of the occurrences `os`, those that are alike in the same place are found once. -/
structure Gathered (os found : List Occurrence) : Prop where
  complete : ∀ o ∈ os, ∃ p ∈ found, p.span = o.span ∧ p.isSimilar o
  apart : found.Pairwise fun o p => ¬(o.span = p.span ∧ o.isSimilar p)
  sound : found ⊆ os

namespace Gathered

variable {os found : List Occurrence}

theorem nil : Gathered [] [] := ⟨nofun, .nil, fun _ => id⟩

theorem add (h : Gathered os found) (o : Occurrence) : Gathered (os ++ [o]) (addOccurrence found o) := by
  unfold addOccurrence
  split
  · next hany =>
    obtain ⟨p, hp, hlike⟩ := List.any_eq_true.1 hany
    simp only [Bool.and_eq_true, beq_iff_eq] at hlike
    refine ⟨fun q hq => ?_, h.apart, List.Subset.trans h.sound (List.subset_append_left ..)⟩
    rcases List.mem_append.1 hq with hq | hq
    · exact h.complete q hq
    · cases List.mem_singleton.1 hq
      exact ⟨p, hp, hlike⟩
  · next hany =>
    refine ⟨fun q hq => ?_, List.pairwise_cons.2 ⟨fun p hp hlike => hany ?_, h.apart⟩, ?_⟩
    · rcases List.mem_append.1 hq with hq | hq
      · obtain ⟨p, hp, hlike⟩ := h.complete q hq
        exact ⟨p, List.mem_cons_of_mem _ hp, hlike⟩
      · cases List.mem_singleton.1 hq
        exact ⟨o, List.mem_cons_self, rfl, o.isSimilar_self⟩
    · refine List.any_eq_true.2 ⟨p, hp, ?_⟩
      simp [hlike.1, Occurrence.isSimilar_comm hlike.2]
    · exact List.cons_subset.2 ⟨by simp, List.Subset.trans h.sound (List.subset_append_left ..)⟩

theorem reverse (h : Gathered os found) : Gathered os found.reverse where
  complete o ho := by
    obtain ⟨p, hp, hlike⟩ := h.complete o ho
    exact ⟨p, List.mem_reverse.2 hp, hlike⟩
  apart := List.pairwise_reverse.2 (h.apart.imp fun hne hlike =>
    hne ⟨hlike.1.symm, Occurrence.isSimilar_comm hlike.2⟩)
  sound := fun o ho => h.sound (List.mem_reverse.1 ho)

end Gathered

/-- The occurrences in a file are gathered of those recorded for it. -/
theorem gathered_occurrencesIn (file : String) (os : FileOccurrences) :
    Gathered ((os.filter (·.1 == file)).map Prod.snd) (occurrencesIn file os) := by
  have hfold : ∀ (es : FileOccurrences) {os found : List Occurrence}, Gathered os found →
      Gathered (os ++ es.map Prod.snd) (es.foldl (fun found e => addOccurrence found e.2) found) := by
    intro es
    induction es with
    | nil => exact fun h => by simpa using h
    | cons e es ih => exact fun h => by simpa using ih (h.add e.2)
  exact (hfold _ .nil).reverse

/-! ### Sorting references -/

/-- The stretch begins in an earlier file, or in an earlier place of the same. -/
def FileSpan.Before (a b : FileSpan) : Prop :=
  a.file < b.file ∨ a.file = b.file ∧ (a.span.start.line < b.span.start.line ∨
    a.span.start.line = b.span.start.line ∧ a.span.start.column < b.span.start.column)

/-- A list without the repetitions that stand next to each other is in strict order, if all that follow one another are
the same or in order. -/
theorem pairwise_eraseReps {α : Type} [DecidableEq α] {r : α → α → Prop} (trans : ∀ {a b c}, r a b → r b c → r a c)
    {l : List α} (h : l.Pairwise fun a b => a = b ∨ r a b) : l.eraseReps.Pairwise r := by
  have hloop : ∀ (l : List α) {a : α} {acc : List α}, (a :: l).Pairwise (fun a b => a = b ∨ r a b) →
      (a :: acc).Pairwise (flip r) → (List.eraseRepsBy.loop (· == ·) a l acc).Pairwise r := by
    intro l
    induction l with
    | nil => exact fun _ hacc => List.pairwise_reverse.2 hacc
    | cons b l ih =>
      intro a acc hl hacc
      obtain ⟨hab, hrest⟩ := List.pairwise_cons.1 hl
      unfold List.eraseRepsBy.loop
      split
      · next heq =>
        obtain rfl := eq_of_beq heq
        exact ih hrest hacc
      · next hne =>
        have hab : r a b := (hab b List.mem_cons_self).resolve_left (by simpa using hne)
        refine ih hrest (List.pairwise_cons.2 ⟨fun c hc => ?_, hacc⟩)
        rcases List.mem_cons.1 hc with rfl | hc
        · exact hab
        · exact trans ((List.pairwise_cons.1 hacc).1 c hc) hab
  cases l with
  | nil => exact .nil
  | cons a l => exact hloop l h (List.pairwise_singleton ..)

theorem mem_eraseReps {α : Type} [DecidableEq α] {l : List α} {a : α} : a ∈ l.eraseReps ↔ a ∈ l := by
  have hloop : ∀ (l : List α) (b : α) (acc : List α),
      a ∈ List.eraseRepsBy.loop (· == ·) b l acc ↔ a ∈ acc ∨ a ∈ b :: l := by
    intro l
    induction l with
    | nil => simp [List.eraseRepsBy.loop, or_comm]
    | cons c l ih =>
      intro b acc
      unfold List.eraseRepsBy.loop
      split
      · next heq =>
        obtain rfl := eq_of_beq heq
        rw [ih]
        simp
      · rw [ih]
        simp only [List.mem_cons]
        tauto
  cases l with
  | nil => rfl
  | cons b l => exact (hloop l b []).trans (by simp)

namespace FileSpan

variable {a b c : FileSpan}

theorem Before.trans (h : a.Before b) (h' : b.Before c) : a.Before c := by
  unfold Before at *
  rcases h with h | ⟨hf, h⟩ <;> rcases h' with h' | ⟨hf', h'⟩
  · exact .inl (String.lt_trans h h')
  · exact .inl (hf' ▸ h)
  · exact .inl (hf ▸ h')
  · exact .inr ⟨hf.trans hf', by omega⟩

theorem le_iff : a.le b ↔ a.Before b ∨ a.file = b.file ∧ a.span.start = b.span.start := by
  obtain ⟨file, ⟨line, column⟩, stop⟩ := a
  obtain ⟨file', ⟨line', column'⟩, stop'⟩ := b
  unfold le Before
  by_cases hfile : file = file'
  · subst hfile
    simp only [String.lt_irrefl, if_true, Position.mk.injEq]
    split <;> simp <;> omega
  · simp [hfile]

theorem before_or (a b : FileSpan) :
    a.Before b ∨ (a.file = b.file ∧ a.span.start = b.span.start) ∨ b.Before a := by
  obtain ⟨file, ⟨line, column⟩, stop⟩ := a
  obtain ⟨file', ⟨line', column'⟩, stop'⟩ := b
  unfold Before
  simp only [Position.mk.injEq]
  by_cases hfile : file = file'
  · simp only [hfile, true_and]
    omega
  · rcases String.le_total file file' with hle | hle
    · exact .inl (.inl (String.not_le.1 fun hle' => hfile (String.le_antisymm hle hle')))
    · exact .inr (.inr (.inl (String.not_le.1 fun hle' => hfile (String.le_antisymm hle' hle))))

theorem le_total (a b : FileSpan) : a.le b || b.le a := by
  rw [Bool.or_eq_true, le_iff, le_iff]
  rcases before_or a b with h | h | h
  · exact .inl (.inl h)
  · exact .inl (.inr h)
  · exact .inr (.inl h)

theorem le_trans (a b c : FileSpan) (h : a.le b) (h' : b.le c) : a.le c := by
  rw [le_iff] at *
  rcases h with h | ⟨hfile, hstart⟩
  · rcases h' with h' | ⟨hfile, hstart⟩
    · exact .inl (h.trans h')
    · unfold Before at *
      rw [← hfile, ← hstart]
      exact .inl h
  · unfold Before at *
    rw [hfile, hstart]
    exact h'

end FileSpan

/-! ### The index -/

/-- An analysis comes to the index of an assembly that is finished within a number of steps and has made its records in
their order. -/
theorem Assembly.exists_analyze_of_pairwise {file text : String} {library : Library} {settings : Settings}
    {now : Moment} {p : Index → Bool} {n : Nat} (hn : n ≤ stepLimit)
    (h : ((fresh file text library settings now).run n).toOption.any fun a => a.isFinished &&
      (decide (a.resolvedRecords.Pairwise fun r r' => r.le r') && p (a.indexOf a.resolvedRecords))) :
    ∃ x, Index.analyze (.start file settings now) text library settings = .ok x ∧ p x := by
  obtain ⟨a, analyzed, hp⟩ := exists_analyze hn h
  rw [Bool.and_eq_true] at hp
  exact ⟨a.index, analyzed, index_of_pairwise (of_decide_eq_true hp.1) ▸ hp.2⟩

/-- Each name of a file stands for one text. -/
structure OneText (file text : String) (library : Library) : Prop where
  openCode : ∀ {name found}, library.find? name = some found → found.uri = file → found.text = text
  members : ∀ {name name' found found'}, library.find? name = some found → library.find? name' = some found' →
    found.uri = found'.uri → found.text = found'.text

/-- All that has been recorded by macros and by open code. -/
def Index.recorded (x : Index) : FileOccurrences := x.records.flatMap (·.occurrences) ++ x.occurrences

/-- What has been recorded for a file. -/
def Index.recordedIn (x : Index) (file : String) : List Occurrence :=
  (x.recorded.filter (·.1 == file)).map Prod.snd

section

variable {file text : String} {library : Library} {settings : Settings} {now : Moment}

theorem OneText.sameStatements (h : OneText file text library) (settings : Settings) :
    SameStatements ⟨(statementsOf text.toList).toArray, file, library, settings⟩ where
  openCode {s} hs := by
    generalize huri : file = uri at hs
    cases hs with
    | openCode hs => exact hs
    | member find hs => exact Array.mem_toList_iff.1 (h.openCode find huri.symm ▸ hs)
  member {name found s} find hs := by
    generalize huri : found.uri = uri at hs
    cases hs with
    | openCode hs => exact h.openCode find huri ▸ Array.mem_toList_iff.2 hs
    | member find' hs => rwa [h.members find find' huri]

/-- Two occurrences in statements of one file that begin in the same place take the same stretch. -/
theorem OneText.span_eq (h : OneText file text library) {ds : List MacroDefinition} {e e' : String × Occurrence}
    (he : Recorded ⟨(statementsOf text.toList).toArray, file, library, settings⟩ ds e)
    (he' : Recorded ⟨(statementsOf text.toList).toArray, file, library, settings⟩ ds e') (hfile : e.1 = e'.1)
    (hstart : e.2.span.start = e'.2.span.start) : e.2.span = e'.2.span := by
  obtain ⟨s, callee, hwritten, ho, -⟩ := he
  obtain ⟨s', callee', hwritten', ho', -⟩ := he'
  obtain ⟨source, hsource⟩ := (h.sameStatements settings).exists_source rfl e.1
  have hs := hsource hwritten
  have hs' := hsource (hfile ▸ hwritten')
  -- the statements share a line, so they are one
  have hline := line_of_mem_occurrences hs ho
  have hline' := line_of_mem_occurrences hs' ho'
  rw [← hstart] at hline'
  obtain rfl := eq_of_line hs hs' hline hline'
  exact span_eq_of_start_eq hs ho ho' hstart

end

@[simp] theorem Occurrence.span_resolved (x : Context) (o : Occurrence) : (o.resolved x).span = o.span := by
  unfold resolved
  split <;> rfl

/-- What the index holds has been recorded in the run. -/
theorem exists_of_mem_recorded {a : Assembly} {e : String × Occurrence} (h : e ∈ a.index.recorded) :
    ∃ o, ((e.1, o) ∈ a.occurrences ∨ ∃ r ∈ a.records, (e.1, o) ∈ r.occurrences) ∧ e.2 = o.resolved a.context := by
  rcases List.mem_append.1 h with h | h
  · obtain ⟨r, hr, he⟩ := List.mem_flatMap.1 h
    obtain ⟨r', hr', rfl⟩ := List.mem_map.1 (a.records_index_perm.subset hr)
    obtain ⟨q, hq, rfl⟩ := List.mem_map.1 he
    exact ⟨q.2, .inr ⟨r', List.mem_reverse.1 hr', hq⟩, rfl⟩
  · obtain ⟨q, hq, rfl⟩ := List.mem_map.1 h
    exact ⟨q.2, .inl (List.mem_reverse.1 hq), rfl⟩

/-- The occurrences among which references are looked for have been recorded. -/
theorem occurrencesFor_subset {a : Assembly} {file : String} {p : Position} {s : Spot}
    (hs : a.index.spot? file p = some s) : a.index.occurrencesFor s ⊆ a.index.recorded := by
  obtain ⟨f, hf, hs⟩ := Option.bind_eq_some_iff.1 hs
  obtain ⟨o, -, rfl⟩ := Option.map_eq_some_iff.1 hs
  unfold Index.occurrencesFor
  split
  · split
    · next r hr =>
      refine fun e he => List.mem_append_left _ (List.mem_flatMap.2 ⟨r, ?_, he⟩)
      exact mem_records_of_recordAt? (Table.mem_of_lookup hf) hr
    · exact List.subset_append_right ..
  · exact fun _ => id

/-- The references to a symbol are the places where one like it is. -/
theorem mem_referencesOf {x : Index} {s : Spot} {r : FileSpan} :
    r ∈ x.referencesOf s ↔ ∃ e ∈ x.occurrencesFor s, e.2.isSimilar s.occurrence ∧ r = ⟨e.1, e.2.span⟩ := by
  simp only [Index.referencesOf, mem_eraseReps, List.mem_mergeSort, List.mem_map, List.mem_filter, and_assoc,
    eq_comm (a := r)]

theorem mem_references {x : Index} {name : String} {p : Position} {s : Spot} (hs : x.spot? name p = some s)
    {r : FileSpan} : r ∈ x.references name p ↔
      ∃ e ∈ x.occurrencesFor s, e.2.isSimilar s.occurrence ∧ r = ⟨e.1, e.2.span⟩ := by
  rw [Index.references, hs]
  exact mem_referencesOf

/-- References among occurrences that take the same stretch where they begin in the same place are in strict order. -/
theorem pairwise_referencesOf {x : Index} {s : Spot}
    (h : ∀ e ∈ x.occurrencesFor s, ∀ e' ∈ x.occurrencesFor s, e.1 = e'.1 → e.2.span.start = e'.2.span.start →
      e.2.span = e'.2.span) : (x.referencesOf s).Pairwise FileSpan.Before := by
  have hsorted := List.pairwise_mergeSort FileSpan.le_trans FileSpan.le_total
    (((x.occurrencesFor s).filter (·.2.isSimilar s.occurrence)).map fun e => (⟨e.1, e.2.span⟩ : FileSpan))
  refine pairwise_eraseReps (r := FileSpan.Before) FileSpan.Before.trans
    (hsorted.imp_of_mem fun {r r'} hr hr' hle => ?_)
  obtain ⟨e, he, -, rfl⟩ := mem_referencesOf.1 (mem_eraseReps.2 hr)
  obtain ⟨e', he', -, rfl⟩ := mem_referencesOf.1 (mem_eraseReps.2 hr')
  rcases FileSpan.le_iff.1 hle with hbefore | ⟨hfile, hstart⟩
  · exact .inr hbefore
  · exact .inl (FileSpan.mk.injEq .. ▸ ⟨hfile, h e he e' he' hfile hstart⟩)

/-- **The index of a file neither loses nor repeats occurrences.**  The occurrences of an indexed file are gathered of
those that open code and macros have recorded for it: each of these has one like it in the same place, no two are alike
in the same place, and all have been recorded.  If each name of a file stands for one text, references are listed in
strict order of their files, lines and columns. -/
theorem fileOccurrences_gathered {file text : String} {library : Library} {settings : Settings} {now : Moment}
    {x : Index} (analyzed : Index.analyze (.start file settings now) text library settings = .ok x) :
    (∀ f ∈ x.files.entries, Gathered (x.recordedIn f.1) f.2.occurrences) ∧
      (OneText file text library → ∀ name p, (x.references name p).Pairwise FileSpan.Before) := by
  obtain ⟨a, ha, rfl⟩ := Assembly.exists_of_analyze analyzed
  refine ⟨fun f hf => ?_, fun honce name p => ?_⟩
  · obtain ⟨q, -, rfl⟩ := List.mem_map.1 hf
    exact gathered_occurrencesIn q.1 a.index.recorded
  · obtain ⟨ds, hds⟩ := ha.chronicled
    unfold Index.references
    cases hs : a.index.spot? name p with
    | none => exact .nil
    | some s =>
      refine pairwise_referencesOf fun e he e' he' hfile hstart => ?_
      obtain ⟨o, ho, heq⟩ := exists_of_mem_recorded (occurrencesFor_subset hs he)
      obtain ⟨o', ho', heq'⟩ := exists_of_mem_recorded (occurrencesFor_subset hs he')
      simp only [heq, heq', Occurrence.span_resolved] at hstart ⊢
      exact honce.span_eq (hds.chronicle.recorded ho) (hds.chronicle.recorded ho') hfile hstart

/-- A library with one member, which assigns a variable symbol. -/
def assignmentLibrary : Library := .ofMembers [("M", ⟨"M", "&X SETA 1\n"⟩)]

theorem oneText_assignmentLibrary (text : String) : OneText "S" text assignmentLibrary := by
  have honly : ∀ {name found}, assignmentLibrary.find? name = some found → found = ⟨"M", "&X SETA 1\n"⟩ :=
    fun hfound => List.mem_singleton.1 (assignmentLibrary.mem_of_find? _ _ hfound)
  exact
    { openCode := fun hfound huri => absurd huri (honly hfound ▸ by decide)
      members := fun hfound hfound' _ => by rw [honly hfound, honly hfound'] }

/-- A member that is copied twice is recorded twice and found once. -/
theorem fileOccurrences_of_member_copied_twice :
    ∃ x, Index.analyze (.start "S" {} default) " COPY M\n COPY M\n" assignmentLibrary {} = .ok x ∧
      (x.recordedIn "M").map (·.name) = ["X", "SETA", "X", "SETA"] ∧
      (x.files.find? "M").map (·.occurrences.map (·.name)) = some ["X", "SETA"] ∧
      (∀ f ∈ x.files.entries, Gathered (x.recordedIn f.1) f.2.occurrences) ∧
      ∀ name p, (x.references name p).Pairwise FileSpan.Before := by
  have hrun : ((Assembly.fresh "S" " COPY M\n COPY M\n" assignmentLibrary {} default).run 9).toOption.any fun a =>
      a.isFinished && decide ((a.index.recordedIn "M").map (·.name) = ["X", "SETA", "X", "SETA"] ∧
        (a.index.files.find? "M").map (·.occurrences.map (·.name)) = some ["X", "SETA"]) := by
    decide +kernel
  obtain ⟨a, analyzed, hrun⟩ := Assembly.exists_analyze (by decide) hrun
  obtain ⟨hgathered, hreferences⟩ := fileOccurrences_gathered analyzed
  obtain ⟨hrecorded, hfound⟩ := of_decide_eq_true hrun
  exact ⟨a.index, analyzed, hrecorded, hfound, hgathered, hreferences (oneText_assignmentLibrary _)⟩

end AssemblerIndex
