import AssemblerIndex.Proofs.Index.ScopedReferences
import AssemblerIndex.Proofs.Statement.OccurrenceTexts

/-!
# The occurrence at a place

What is asked about a place is answered for the first occurrence that touches it, and an occurrence touches the place
right behind it, too.

* `HasOneText` — what stands in a file are the statements of one text;
* `Occurrence.Alike` — two occurrences say the same in the same stretch;
* `alike_or_apart` — two occurrences recorded for such a file are alike, or one ends before the other begins;
* `occurrence_found_at` — **at a place in an occurrence that occurrence is found, but for its first character: if another
  occurrence ends there, that one may be found**.
-/

namespace AssemblerIndex

open Assembly (Job)

/-! ### Places and stretches -/

/-- A stretch touches the places from its begin to its end, and the end as well. -/
theorem Span.touches_iff {span : Span} {p : Position} : span.touches p ↔ span.start ≤ p ∧ p ≤ span.stop := by
  simp only [touches, Bool.and_eq_true, Bool.or_eq_true, decide_eq_true_eq, bne_iff_ne, Position.le_def]
  omega

/-! ### Occurrences recorded for a file -/

/-- What stands in the file are statements of one text. -/
def HasOneText (j : Job) (file : String) : Prop := ∃ source, ∀ {s}, Written j file s → s ∈ statementsOf source

/-- The occurrences say the same in the same stretch. -/
structure Occurrence.Alike (o q : Occurrence) : Prop where
  kind : o.kind = q.kind
  name : o.name = q.name
  span : o.span = q.span

/-- Resolving a call changes nothing but the macro that is called. -/
theorem Occurrence.alike_resolved (x : Context) (o : Occurrence) : (o.resolved x).Alike o := by
  unfold resolved
  split <;> exact ⟨rfl, rfl, rfl⟩

theorem Occurrence.Alike.trans {o q r : Occurrence} (h : o.Alike q) (h' : q.Alike r) : o.Alike r :=
  ⟨h.kind.trans h'.kind, h.name.trans h'.name, h.span.trans h'.span⟩

theorem Occurrence.Alike.symm {o q : Occurrence} (h : o.Alike q) : q.Alike o := ⟨h.kind.symm, h.name.symm, h.span.symm⟩

/-- Two occurrences in a statement are alike, whatever the statement calls, or one ends before the other begins. -/
theorem alike_or_apart_of_statement {source : List Char} {s : Statement} (hs : s ∈ statementsOf source)
    {callee callee' : Option MacroDefinition} {o q : Occurrence} (ho : o ∈ s.occurrences callee)
    (hq : q ∈ s.occurrences callee') :
    o.Alike q ∨ o.span.stop ≤ q.span.start ∨ q.span.stop ≤ o.span.start := by
  -- the statement has an occurrence like `q` also with the macro of `o`
  obtain ⟨r, hr, hsame⟩ : ∃ r ∈ s.occurrences callee, (r.kind, r.name, r.span) = (q.kind, q.name, q.span) := by
    rw [← List.mem_map, map_occurrences (fun o => (o.kind, o.name, o.span)) (fun _ _ => rfl) s callee callee']
    exact List.mem_map_of_mem hq
  obtain ⟨hkind, hname, hspan⟩ : r.kind = q.kind ∧ r.name = q.name ∧ r.span = q.span := by simpa using hsame
  have horder := (placed_occurrences hs callee).order.imp
    (S := fun (o r : Occurrence) => o.Alike r ∨ o.span.stop ≤ r.span.start ∨ r.span.stop ≤ o.span.start) fun h => .inr (.inl h)
  have hor := horder.forall_of_forall_of_flip (fun _ _ => .inl ⟨rfl, rfl, rfl⟩)
    (horder.imp fun h => h.imp .symm Or.symm) ho hr
  rw [hspan] at hor
  exact hor.imp_left fun h => h.trans ⟨hkind, hname, hspan⟩

section

variable {j : Job} {ds : List MacroDefinition} {file : String} {o q : Occurrence}

/-- Two occurrences that touch a place and are recorded for a file with one text are alike, or one ends before the
other begins. -/
theorem alike_or_apart (hone : HasOneText j file) (ho : Recorded j ds (file, o)) (hq : Recorded j ds (file, q))
    {p : Position} (hop : o.span.start ≤ p ∧ p ≤ o.span.stop) (hqp : q.span.start ≤ p ∧ p ≤ q.span.stop) :
    o.Alike q ∨ o.span.stop ≤ q.span.start ∨ q.span.stop ≤ o.span.start := by
  obtain ⟨source, hsource⟩ := hone
  obtain ⟨s, callee, hwritten, ho, -⟩ := ho
  obtain ⟨t, callee', hwritten', hq, -⟩ := hq
  have hs := hsource hwritten
  have ht := hsource hwritten'
  obtain rfl := eq_of_line hs ht (line_of_touches hs ho hop) (line_of_touches ht hq hqp)
  exact alike_or_apart_of_statement hs ho hq

/-- What an indexed file holds is like an occurrence recorded in the run. -/
theorem exists_recorded_of_mem {a : Assembly} (h : Chronicle j a.annals ds) {f : IndexedFile}
    (hf : a.index.files.find? file = some f) (ho : o ∈ f.occurrences) :
    ∃ r, Recorded j ds (file, r) ∧ o.Alike r := by
  obtain ⟨e, -, he⟩ := List.mem_map.1 (Table.mem_of_lookup hf)
  obtain ⟨rfl, rfl⟩ := Prod.mk.inj he
  obtain ⟨e', he', rfl⟩ := List.mem_map.1 ((gathered_occurrencesIn e.1 a.index.recorded).sound ho)
  obtain ⟨hmem, hfile⟩ := List.mem_filter.1 he'
  obtain ⟨r, hr, heq⟩ := exists_of_mem_recorded hmem
  refine ⟨r, ?_, heq ▸ Occurrence.alike_resolved a.context r⟩
  rw [← show e'.1 = e.1 by simpa using hfile]
  exact h.recorded hr

end

/-- **A position inside an occurrence finds that occurrence, except where another one ends.**  In every indexed file that
stands for one text, what is found at a place in an occurrence has the same kind, name and stretch; only at the first
character the answer may be for another occurrence, which ends right in front of it. -/
theorem occurrence_found_at {file text : String} {library : Library} {settings : Settings} {now : Moment} {x : Index}
    (analyzed : Index.analyze (.start file settings now) text library settings = .ok x) {name : String}
    (hone : HasOneText ⟨(statementsOf text.toList).toArray, file, library, settings⟩ name) {f : IndexedFile}
    (hf : x.files.find? name = some f) {o : Occurrence} (ho : o ∈ f.occurrences) {p : Position}
    (hp : o.span.Covers p) :
    ∃ s, x.spot? name p = some s ∧
      (s.occurrence.Alike o ∨ p = o.span.start ∧ s.occurrence ∈ f.occurrences ∧ s.occurrence.span.stop = p) := by
  obtain ⟨a, ha, rfl⟩ := Assembly.exists_of_analyze analyzed
  obtain ⟨ds, hds⟩ := ha.chronicled
  have hlast : p ≤ o.span.stop := by
    have := hp.2
    simp only [Position.le_def] at this ⊢
    omega
  obtain ⟨q, hq⟩ : ∃ q, f.occurrenceAt? p = some q :=
    Option.isSome_iff_exists.1 (List.find?_isSome.2 ⟨o, ho, Span.touches_iff.2 ⟨hp.1, hlast⟩⟩)
  have hmem := List.mem_of_find?_eq_some hq
  have hqp := Span.touches_iff.1 (List.find?_some (p := fun q : Occurrence => q.span.touches p) hq)
  refine ⟨⟨q, f.recordAt? p.line⟩, by simp [Index.spot?, hf, hq], ?_⟩
  obtain ⟨r, hr, hor⟩ := exists_recorded_of_mem hds.chronicle hf ho
  obtain ⟨t, ht, hqt⟩ := exists_recorded_of_mem hds.chronicle hf hmem
  rcases alike_or_apart hone ht hr (hqt.span ▸ hqp) (hor.span ▸ ⟨hp.1, hlast⟩) with halike | hbefore | hbehind
  · exact .inl (hqt.trans (halike.trans hor.symm))
  · -- the one found ends before the other begins, so both are at the place
    rw [← hqt.span, ← hor.span] at hbefore
    have hstart := Position.le_antisymm (Position.le_trans hqp.2 hbefore) hp.1
    exact .inr ⟨hstart, hmem, Position.le_antisymm (hstart ▸ hbefore) hqp.2⟩
  · rw [← hqt.span, ← hor.span] at hbehind
    exact absurd (Position.le_trans hbehind hqp.1) hp.2

/-- Two variable symbols side by side. -/
def joinedSymbols : String := "&A SETA 1\n&B SETA 2\n&D SETC '&A&B'\n"

/-- Within its stretch, the second symbol is found. -/
theorem occurrence_found_in_joinedSymbols :
    ∃ x, Index.analyze (.start "S" {} default) joinedSymbols .empty {} = .ok x ∧
      ∃ f o, x.files.find? "S" = some f ∧ o ∈ f.occurrences ∧ o.name = "B" ∧ o.span = ⟨⟨2, 11⟩, ⟨2, 13⟩⟩ ∧
        HasOneText ⟨(statementsOf joinedSymbols.toList).toArray, "S", .empty, {}⟩ "S" ∧ o.span.Covers ⟨2, 12⟩ ∧
        ∃ s, x.spot? "S" ⟨2, 12⟩ = some s ∧ (s.occurrence.Alike o ∨
          (⟨2, 12⟩ : Position) = o.span.start ∧ s.occurrence ∈ f.occurrences ∧ s.occurrence.span.stop = ⟨2, 12⟩) := by
  obtain ⟨x, analyzed, hfound⟩ : ∃ x, Index.analyze (.start "S" {} default) joinedSymbols .empty {} = .ok x ∧
      (x.files.find? "S").any fun f => f.occurrences.any fun o =>
        decide (o.name = "B" ∧ o.span = ⟨⟨2, 11⟩, ⟨2, 13⟩⟩) :=
    Assembly.exists_analyze_of_pairwise (n := 6) (by decide) (by decide +kernel)
  obtain ⟨f, hf, hfound⟩ := (Option.any_eq_true ..).1 hfound
  obtain ⟨o, ho, hfound⟩ := List.any_eq_true.1 hfound
  obtain ⟨hname, hspan⟩ := of_decide_eq_true hfound
  have hone : HasOneText ⟨(statementsOf joinedSymbols.toList).toArray, "S", .empty, {}⟩ "S" := by
    have hnone : OneText "S" joinedSymbols .empty := ⟨nofun, nofun⟩
    exact (hnone.sameStatements {}).exists_source rfl "S"
  have hcovers : o.span.Covers ⟨2, 12⟩ := by
    rw [hspan]
    simp [Span.Covers, Position.le_def]
  exact ⟨x, analyzed, f, o, hf, ho, hname, hspan, hone, hcovers, occurrence_found_at analyzed hone hf ho hcovers⟩

/-- At the first character of the second symbol, the first symbol is found. -/
theorem first_character_finds_symbol_in_front :
    ¬ ∀ (file text : String) (library : Library) (settings : Settings) (now : Moment) (x : Index),
      Index.analyze (.start file settings now) text library settings = .ok x →
        ∀ name f o, x.files.find? name = some f → o ∈ f.occurrences → o.span.start.line = o.span.stop.line →
          ∀ p, o.span.Covers p → ∃ s, x.spot? name p = some s ∧ s.occurrence.Alike o := by
  intro hall
  obtain ⟨x, analyzed, hfound⟩ : ∃ x, Index.analyze (.start "S" {} default) joinedSymbols .empty {} = .ok x ∧
      ((x.files.find? "S").any (fun f => f.occurrences.any fun o =>
        decide (o.name = "B" ∧ o.span = ⟨⟨2, 11⟩, ⟨2, 13⟩⟩)) &&
      (x.spot? "S" ⟨2, 11⟩).all fun s => decide (s.occurrence.name = "A")) :=
    Assembly.exists_analyze_of_pairwise (n := 6) (by decide) (by decide +kernel)
  rw [Bool.and_eq_true] at hfound
  obtain ⟨hfound, hspot⟩ := hfound
  obtain ⟨f, hf, hfound⟩ := (Option.any_eq_true ..).1 hfound
  obtain ⟨o, ho, hfound⟩ := List.any_eq_true.1 hfound
  obtain ⟨hname, hspan⟩ := of_decide_eq_true hfound
  have hcovers : o.span.Covers ⟨2, 11⟩ := by
    rw [hspan]
    simp [Span.Covers, Position.le_def]
  obtain ⟨s, hs, halike⟩ := hall _ _ _ _ _ x analyzed "S" f o hf ho (by rw [hspan]) _ hcovers
  rw [hs, Option.all_some, decide_eq_true_eq, halike.name, hname] at hspot
  exact absurd hspot (by decide)

end AssemblerIndex
