import AssemblerIndex.Proofs.Assembly.BodyOrder

/-!
# The lines of a definition

The lines of a definition are kept by file: those from `MACRO` through the end in the file where it begins, and for each
file of a copy member those from the first statement of the body to the last one.

* `cases_of_hasLines` — the lines of a definition are its own or reach from one copied statement to another;
* `StandTogether` — `MACRO`, prototype and end came the same way.  Then what came this way lies between them
  (`within_own`), and everything else lies deeper (`same_way_or_deeper`);
* `Captured.covers` — **what occurs in a definition stands in its lines**, with the exception of a `COPY` in a copy
  member and of definitions that do not stand together.
-/

namespace AssemblerIndex

open Assembly (Job)
open NestedStatement

/-! ### Tables of lines -/

theorem LineRange.contains_iff {r : LineRange} {line : Nat} : r.contains line ↔ r.first ≤ line ∧ line < r.behind := by
  simp [contains]

/-- The lines of the first range are lines of the second. -/
def LineRange.Within (a b : LineRange) : Prop := b.first ≤ a.first ∧ a.behind ≤ b.behind

theorem LineRange.Within.trans {a b c : LineRange} (h : a.Within b) (h' : b.Within c) : a.Within c := by
  unfold Within at *
  omega

theorem LineRange.Within.contains {a b : LineRange} (h : a.Within b) {line : Nat} (hline : a.contains line) :
    b.contains line := by
  simp only [LineRange.contains_iff, Within] at *
  omega

/-- The table with the lines of a copied statement. -/
def addCopied (t : Table LineRange) (n : NestedStatement) : Table LineRange :=
  if 1 < n.nest.length then
    let lines := LineRange.ofSpan n.statement.span
    t.insert n.file (((t.find? n.file).map (·.hull lines)).getD lines)
  else t

theorem copiedLines_eq (body : List NestedStatement) : copiedLines body = body.foldl addCopied {} := rfl

/-- The table has the lines for the file, and maybe more. -/
def Spans (t : Table LineRange) (file : String) (lines : LineRange) : Prop :=
  ∃ lines' ∈ t.find? file, lines.Within lines'

theorem Spans.addCopied {t : Table LineRange} {file : String} {lines : LineRange} (h : Spans t file lines)
    (n : NestedStatement) : Spans (addCopied t n) file lines := by
  obtain ⟨lines', hfind, hwithin⟩ := h
  unfold AssemblerIndex.addCopied
  split
  · unfold Spans
    rw [Table.find?_insert]
    split
    · next hfile =>
      subst hfile
      rw [Option.mem_def.1 hfind]
      refine ⟨_, rfl, hwithin.trans ?_⟩
      exact ⟨Nat.min_le_left .., Nat.le_max_left ..⟩
    · exact ⟨lines', hfind, hwithin⟩
  · exact ⟨lines', hfind, hwithin⟩

theorem spans_addCopied (t : Table LineRange) {n : NestedStatement} (copied : 1 < n.nest.length) :
    Spans (addCopied t n) n.file (LineRange.ofSpan n.statement.span) := by
  unfold Spans addCopied
  rw [if_pos copied, Table.find?_insert, if_pos rfl]
  refine ⟨_, rfl, ?_⟩
  cases t.find? n.file with
  | none => exact ⟨Nat.le_refl _, Nat.le_refl _⟩
  | some lines => exact ⟨Nat.min_le_right .., Nat.le_max_right ..⟩

/-- The lines of copied statements are in the table. -/
theorem spans_copiedLines {body : List NestedStatement} {n : NestedStatement} (hn : n ∈ body)
    (copied : 1 < n.nest.length) : Spans (copiedLines body) n.file (LineRange.ofSpan n.statement.span) := by
  have hkept : ∀ (rest : List NestedStatement) {t : Table LineRange},
      Spans t n.file (LineRange.ofSpan n.statement.span) →
        Spans (rest.foldl addCopied t) n.file (LineRange.ofSpan n.statement.span) := by
    intro rest
    induction rest with
    | nil => exact id
    | cons k rest ih => exact fun h => ih (h.addCopied k)
  obtain ⟨before, after, rfl⟩ := List.append_of_mem hn
  rw [copiedLines_eq, List.foldl_append, List.foldl_cons]
  exact hkept after (spans_addCopied _ copied)

/-- The table with one more range of lines. -/
def addRange (t : Table (List LineRange)) (e : String × LineRange) : Table (List LineRange) :=
  t.insert e.1 (((t.find? e.1).getD []) ++ [e.2])

theorem definitionScopes_eq (file : String) (lines : LineRange) (body : List NestedStatement) :
    definitionScopes file lines body =
      (copiedLines body).entries.foldl addRange (({} : Table (List LineRange)).insert file [lines]) := rfl

/-- The table has the range for the file. -/
def HasLines (t : Table (List LineRange)) (file : String) (lines : LineRange) : Prop :=
  ∃ ranges ∈ t.find? file, lines ∈ ranges

theorem HasLines.addRange {t : Table (List LineRange)} {file : String} {lines : LineRange} (h : HasLines t file lines)
    (e : String × LineRange) : HasLines (addRange t e) file lines := by
  obtain ⟨ranges, hfind, hmem⟩ := h
  unfold HasLines AssemblerIndex.addRange
  rw [Table.find?_insert]
  split
  · next hfile =>
    rw [← hfile, Option.mem_def.1 hfind]
    exact ⟨_, rfl, List.mem_append_left _ hmem⟩
  · exact ⟨ranges, hfind, hmem⟩

theorem hasLines_addRange (t : Table (List LineRange)) (e : String × LineRange) :
    HasLines (addRange t e) e.1 e.2 := by
  unfold HasLines addRange
  rw [Table.find?_insert, if_pos rfl]
  exact ⟨_, rfl, by simp⟩

theorem HasLines.foldl {t : Table (List LineRange)} {file : String} {lines : LineRange} (h : HasLines t file lines)
    (entries : List (String × LineRange)) : HasLines (entries.foldl AssemblerIndex.addRange t) file lines := by
  induction entries generalizing t with
  | nil => exact h
  | cons e rest ih => exact ih (h.addRange e)

theorem hasLines_definitionScopes_own (file : String) (lines : LineRange) (body : List NestedStatement) :
    HasLines (definitionScopes file lines body) file lines := by
  rw [definitionScopes_eq]
  refine HasLines.foldl ?_ _
  unfold HasLines
  rw [Table.find?_insert, if_pos rfl]
  exact ⟨_, rfl, List.mem_singleton_self lines⟩

theorem hasLines_definitionScopes_copied (file : String) (lines : LineRange) {body : List NestedStatement}
    {n : NestedStatement} (hn : n ∈ body) (copied : 1 < n.nest.length) :
    ∃ lines', HasLines (definitionScopes file lines body) n.file lines' ∧
      (LineRange.ofSpan n.statement.span).Within lines' := by
  obtain ⟨lines', hfind, hwithin⟩ := spans_copiedLines hn copied
  refine ⟨lines', ?_, hwithin⟩
  obtain ⟨before, after, hentries⟩ := List.append_of_mem (Table.mem_of_lookup hfind)
  rw [definitionScopes_eq, hentries, List.foldl_append, List.foldl_cons]
  exact (hasLines_addRange _ (n.file, lines')).foldl after

theorem Table.mem_insert {α : Type} {t : Table α} {name : String} {a : α} {e : String × α}
    (h : e ∈ (t.insert name a).entries) : e = (name, a) ∨ e ∈ t.entries := by
  obtain ⟨l⟩ := t
  change e ∈ insertEntry name a l at h
  induction l with
  | nil => exact .inl (List.mem_singleton.1 h)
  | cons q rest ih =>
    rw [insertEntry] at h
    split at h
    · next hname => exact (List.mem_cons.1 h).imp (·.trans (hname ▸ rfl)) (List.mem_cons_of_mem _)
    · rcases List.mem_cons.1 h with rfl | h
      · exact .inr List.mem_cons_self
      · exact (ih h).imp_right (List.mem_cons_of_mem _)

/-- The lines reach from one copied statement of a file to another one. -/
structure BetweenCopied (body : List NestedStatement) (file : String) (lines : LineRange) : Prop where
  first : ∃ n ∈ body, 1 < n.nest.length ∧ n.file = file ∧ n.statement.span.start.line = lines.first
  last : ∃ n ∈ body, 1 < n.nest.length ∧ n.file = file ∧ n.statement.span.stop.line + 1 = lines.behind

theorem BetweenCopied.hull {body : List NestedStatement} {file : String} {a b : LineRange}
    (ha : BetweenCopied body file a) (hb : BetweenCopied body file b) : BetweenCopied body file (a.hull b) where
  first := by
    unfold LineRange.hull
    rcases min_choice a.first b.first with hmin | hmin <;> rw [hmin]
    · exact ha.first
    · exact hb.first
  last := by
    unfold LineRange.hull
    rcases max_choice a.behind b.behind with hmax | hmax <;> rw [hmax]
    · exact ha.last
    · exact hb.last

/-- The lines that copy members contribute reach from one copied statement to another. -/
theorem betweenCopied_of_mem {body : List NestedStatement} {e : String × LineRange}
    (h : e ∈ (copiedLines body).entries) : BetweenCopied body e.1 e.2 := by
  have hfold : ∀ (rest : List NestedStatement) {t : Table LineRange}, rest ⊆ body →
      (∀ e ∈ t.entries, BetweenCopied body e.1 e.2) →
        ∀ e ∈ (rest.foldl addCopied t).entries, BetweenCopied body e.1 e.2 := by
    intro rest
    induction rest with
    | nil => exact fun _ => id
    | cons n rest ih =>
      intro t hrest ht
      obtain ⟨hn, hrest⟩ := List.cons_subset.1 hrest
      refine ih hrest fun e he => ?_
      unfold addCopied at he
      split at he
      · next copied =>
        have hown : BetweenCopied body n.file (.ofSpan n.statement.span) :=
          ⟨⟨n, hn, copied, rfl, rfl⟩, n, hn, copied, rfl, rfl⟩
        rcases Table.mem_insert he with rfl | he
        · cases hfind : t.find? n.file with
          | none => exact hown
          | some lines => exact (ht _ (Table.mem_of_lookup hfind)).hull hown
        · exact ht e he
      · exact ht e he
  exact hfold body (fun _ => id) (fun e he => by cases he) e h

/-- The lines of a definition are its own or reach from one copied statement to another. -/
theorem cases_of_hasLines {file : String} {own lines : LineRange} {body : List NestedStatement} {f : String}
    (h : HasLines (definitionScopes file own body) f lines) : f = file ∧ lines = own ∨ BetweenCopied body f lines := by
  have hadd {t : Table (List LineRange)} {e : String × LineRange} (h : HasLines (addRange t e) f lines) :
      HasLines t f lines ∨ e = (f, lines) := by
    obtain ⟨ranges, hfind, hmem⟩ := h
    unfold addRange at hfind
    rw [Table.find?_insert] at hfind
    split at hfind
    · next hfile =>
      obtain rfl := Option.some.inj hfind
      rcases List.mem_append.1 hmem with hmem | hmem
      · cases hfound : t.find? e.1 with
        | none => simp [hfound] at hmem
        | some ranges => exact .inl ⟨ranges, hfile ▸ hfound, by simpa [hfound] using hmem⟩
      · exact .inr (Prod.ext hfile.symm (List.mem_singleton.1 hmem).symm)
    · exact .inl ⟨ranges, hfind, hmem⟩
  have hfold : ∀ (entries : List (String × LineRange)) {t : Table (List LineRange)},
      HasLines (entries.foldl addRange t) f lines → HasLines t f lines ∨ (f, lines) ∈ entries := by
    intro entries
    induction entries with
    | nil => exact fun h => .inl h
    | cons e rest ih =>
      intro t h
      rcases ih h with h | h
      · exact (hadd h).imp_right fun h : e = _ => h ▸ List.mem_cons_self
      · exact .inr (List.mem_cons_of_mem _ h)
  rw [definitionScopes_eq] at h
  rcases hfold _ h with ⟨ranges, hfind, hmem⟩ | h
  · rw [Table.find?_insert] at hfind
    split at hfind
    · next hfile =>
      obtain rfl := Option.some.inj hfind
      exact .inl ⟨hfile, List.mem_singleton.1 hmem⟩
    · cases hfind
  · exact .inr (betweenCopied_of_mem h)

/-! ### The lines between `MACRO` and the end -/

/-- The last statement of a definition with the given prototype and the rest behind it. -/
def lastOf (prototype : NestedStatement) (rest : List NestedStatement) : NestedStatement :=
  (rest.getLast?).getD prototype

/-- The first two statements of a definition and its last one came the same way. -/
def StandTogether : List NestedStatement → Prop
  | opening :: prototype :: rest =>
    prototype.nest.dropLast = opening.nest.dropLast ∧ (lastOf prototype rest).nest.dropLast = opening.nest.dropLast
  | _ => True

section

variable {opening prototype k : NestedStatement} {rest : List NestedStatement}

theorem eq_append_lastOf (prototype : NestedStatement) (rest : List NestedStatement) :
    ∃ front, prototype :: rest = front ++ [lastOf prototype rest] := by
  rcases List.eq_nil_or_concat rest with rfl | ⟨front, last, rfl⟩
  · exact ⟨[], rfl⟩
  · exact ⟨prototype :: front, by simp [lastOf]⟩

theorem lastOf_mem (prototype : NestedStatement) (rest : List NestedStatement) :
    lastOf prototype rest ∈ prototype :: rest := by
  obtain ⟨front, hfront⟩ := eq_append_lastOf prototype rest
  exact hfront ▸ List.mem_append_right _ (List.mem_singleton_self _)

/-- A statement behind the opening is the last one or stands in front of it. -/
theorem inFront_lastOf (horder : (prototype :: rest).Pairwise InFront) (hk : k ∈ prototype :: rest) :
    k = lastOf prototype rest ∨ k.InFront (lastOf prototype rest) := by
  obtain ⟨front, hfront⟩ := eq_append_lastOf prototype rest
  rw [hfront] at horder hk
  rcases List.mem_append.1 hk with hk | hk
  · exact .inr ((List.pairwise_append.1 horder).2.2 k hk _ (List.mem_singleton_self _))
  · exact .inl (List.mem_singleton.1 hk)

variable (horder : (opening :: prototype :: rest).Pairwise InFront)
  (together : StandTogether (opening :: prototype :: rest))

include horder together in
/-- A statement that came the same way as the opening stands in the lines between it and the last one. -/
theorem within_own (hlines : ∀ n ∈ opening :: prototype :: rest,
      n.statement.span.start.line ≤ n.statement.span.stop.line) (hk : k ∈ opening :: prototype :: rest)
    (hway : k.nest.dropLast = opening.nest.dropLast) :
    k.file = opening.file ∧ (LineRange.ofSpan k.statement.span).Within
      ⟨opening.statement.span.start.line, (lastOf prototype rest).statement.span.stop.line + 1⟩ := by
  obtain ⟨hfirst, hrest⟩ := List.pairwise_cons.1 horder
  have hlast := lastOf_mem prototype rest
  have hlinesk := hlines k hk
  have hlineslast := hlines _ (List.mem_cons_of_mem _ hlast)
  have hopening := hlines opening List.mem_cons_self
  have hends := (hfirst _ hlast).lines together.2.symm
  unfold LineRange.Within LineRange.ofSpan
  rcases List.mem_cons.1 hk with rfl | hk
  · exact ⟨rfl, Nat.le_refl _, by simp only; omega⟩
  · obtain ⟨hfile, hbegins⟩ := (hfirst k hk).lines hway.symm
    refine ⟨hfile.symm, by simp only; omega, ?_⟩
    rcases inFront_lastOf hrest hk with rfl | hfront
    · exact Nat.le_refl _
    · have := (hfront.lines (hway.trans together.2.symm)).2
      simp only
      omega

include horder together in
/-- A statement of the definition came the same way as the opening, or it lies deeper than both ends. -/
theorem same_way_or_deeper (hne : ∀ n ∈ opening :: prototype :: rest, n.nest ≠ [])
    (hk : k ∈ opening :: prototype :: rest) : k.nest.dropLast = opening.nest.dropLast ∨
      (opening.InFront k ∧ opening.nest.length < k.nest.length) ∧
        k.InFront (lastOf prototype rest) ∧ (lastOf prototype rest).nest.length < k.nest.length := by
  obtain ⟨hfirst, hrest⟩ := List.pairwise_cons.1 horder
  rcases List.mem_cons.1 hk with rfl | hk
  · exact .inl rfl
  rcases inFront_lastOf hrest hk with rfl | hfront
  · exact .inl together.2
  -- it lies between two statements that came the same way
  have hopening := List.dropLast_append_getLast (hne opening List.mem_cons_self)
  have hend := List.dropLast_append_getLast (hne _ (List.mem_cons_of_mem _ (lastOf_mem prototype rest)))
  rw [together.2] at hend
  obtain ⟨m, more, hway⟩ := exists_of_lex_between (hopening ▸ (hfirst k hk).nest) (hend ▸ hfront.nest)
  cases more with
  | nil => exact .inl (by rw [hway, List.dropLast_concat])
  | cons m' more =>
    refine .inr ⟨⟨hfirst k hk, ?_⟩, hfront, ?_⟩
    · rw [← hopening, hway]
      simp
    · rw [← hend, hway]
      simp

end

/-! ### Occurrences in the lines of a definition -/

/-- The record has the line of the file. -/
def MacroRecord.Covers (r : MacroRecord) (file : String) (line : Nat) : Prop :=
  ∃ lines, HasLines r.scopes file lines ∧ lines.contains line

/-- The stretch is that of an occurrence in a `COPY` among the statements. -/
def Span.InCopy (T : Statement → Prop) (span : Span) : Prop :=
  ∃ c, T c ∧ c.opcode = "COPY" ∧ span ∈ (c.occurrences none).map Occurrence.span

theorem Span.inCopy_of_mem {T : Statement → Prop} {c : Statement} (hc : T c) (copies : c.opcode = "COPY")
    {callee : Option MacroDefinition} {o : Occurrence} (ho : o ∈ c.occurrences callee) : o.span.InCopy T := by
  refine ⟨c, hc, copies, ?_⟩
  rw [map_occurrences Occurrence.span (fun _ _ => rfl) c none callee]
  exact List.mem_map_of_mem ho

/-- The statement is one of a member of the library, in the file of that. -/
def Library.Holds (l : Library) (file : String) (s : Statement) : Prop :=
  ∃ name found, l.find? name = some found ∧ found.uri = file ∧ s ∈ statementsOf found.text.toList

/-- The definition is one in a listing whose first two statements and last one came different ways. -/
def MacroDefinition.ScatteredIn (d : MacroDefinition) (listing : List NestedStatement) : Prop :=
  ∃ opening prototype rest, DefinitionIn listing (opening :: prototype :: rest) ∧
    d.location = ⟨opening.file, prototype.statement.position⟩ ∧ ¬StandTogether (opening :: prototype :: rest)

section

variable {j : Job} {ds : List MacroDefinition} {r : MacroRecord} {e : String × Occurrence} {n : NestedStatement}
  {source : List Char}

theorem mem_statementsOf_of_written {file : String} {s : Statement} (h : Written j file s)
    (hsource : j.statements.toList = statementsOf source) : ∃ source, s ∈ statementsOf source := by
  cases h with
  | openCode h => exact ⟨source, hsource ▸ Array.mem_toList_iff.2 h⟩
  | member _ h => exact ⟨_, h⟩

theorem length_nestFrames (called : String) (nest : List NestItem) : (nestFrames called nest).length = nest.length := by
  cases nest <;> simp [nestFrames]

/-- A traced statement that was copied is one of a member of the library. -/
theorem NestedStatement.Traced.holds (h : n.Traced j) (copied : 1 < n.nest.length) :
    j.library.Holds n.file n.statement := by
  have hstands : StandsIn j "" n.file n.statement (nestFrames "" n.nest) := h ""
  have hlength := length_nestFrames "" n.nest
  generalize nestFrames "" n.nest = frames at hstands hlength
  generalize n.file = file at hstands ⊢
  generalize n.statement = s at hstands ⊢
  cases hstands with
  | direct =>
    rw [← hlength] at copied
    cases copied with
    | step h => cases h
  | copied _ _ _ find mem => exact ⟨_, _, find, rfl, mem⟩

theorem NestedStatement.Traced.exists_source (h : n.Traced j) (hsource : j.statements.toList = statementsOf source) :
    ∃ source, n.statement ∈ statementsOf source := mem_statementsOf_of_written (h "").written hsource

theorem NestedStatement.Traced.line_le (h : n.Traced j) (hsource : j.statements.toList = statementsOf source) :
    n.statement.span.start.line ≤ n.statement.span.stop.line := by
  obtain ⟨_, hmem⟩ := h.exists_source hsource
  exact (rangesIn_of_mem hmem).lines.1

/-- In a piece of a file all statements stand together. -/
theorem standTogether_of_way {items : List NestedStatement} (h : ∀ n ∈ items, n.nest.dropLast = []) :
    StandTogether items := by
  unfold StandTogether
  split
  · rename_i opening prototype rest
    obtain ⟨hopening, hrest⟩ := List.forall_mem_cons.1 h
    exact ⟨(hrest _ List.mem_cons_self).trans hopening.symm, (hrest _ (lastOf_mem ..)).trans hopening.symm⟩
  · trivial

/-- A definition in a listing stands together, or it is scattered in the body of a macro. -/
theorem Listed.together_or_scattered {listing : List NestedStatement} (h : Listed j ds listing)
    (hsource : j.statements.toList = statementsOf source) {opening prototype : NestedStatement}
    {rest : List NestedStatement} (found : DefinitionIn listing (opening :: prototype :: rest)) {d : MacroDefinition}
    (hd : d.location = ⟨opening.file, prototype.statement.position⟩) :
    StandTogether (opening :: prototype :: rest) ∨ ∃ outer ∈ ds, d.ScatteredIn outer.nestedBody := by
  by_cases together : StandTogether (opening :: prototype :: rest)
  · exact .inl together
  rcases h.cases_file with h | ⟨outer, houter, rfl⟩
  · have hway := (h.of_file hsource).1
    exact .inl (standTogether_of_way fun n hn => (hway n (found.isPiece.subset hn)).2)
  · exact .inr ⟨outer, houter, opening, prototype, rest, found, hd, together⟩

/-- Every occurrence of a definition that is read is one in its opening, in its prototype, or in another statement,
which stands behind these or in a copy member and has been kept unless it is a `COPY`. -/
theorem exists_of_mem_read {a : Assembly} (informed : a.Informed (NestedStatement.Traced j))
    {opening prototype : NestedStatement} {rest : List NestedStatement}
    (traced : ∀ n ∈ opening :: prototype :: rest, n.Traced j)
    (he : e ∈ (a.read opening prototype rest).occurrences) :
    ∃ k callee, k.Traced j ∧ k.file = e.1 ∧ e.2 ∈ k.statement.occurrences callee ∧ (k = opening ∨ k = prototype ∨
      (k ∈ rest ∨ 1 < k.nest.length) ∧
        (k.statement.opcode = "COPY" ∨ k ∈ (a.read opening prototype rest).statements)) := by
  have hinherited : Assembly.Inherited a fun n => n.Traced j ∧ (n ∈ rest ∨ 1 < n.nest.length) := by
    intro r r' openMembers n m hr hn copies hcopied k hk
    refine ⟨informed.inherited hr hn.1 copies hcopied k hk, .inr ?_⟩
    obtain ⟨s, -, rfl⟩ := List.mem_map.1 hk
    have := List.length_pos_iff.2 hn.1.nest_ne_nil
    rw [List.length_append, List.length_singleton]
    omega
  obtain ⟨k, callee, hk, hfile, ho, -⟩ := Assembly.occursIn_read hinherited opening prototype
    (fun n hn => ⟨traced n (by simp [hn]), .inl hn⟩) e he
  rcases hk with rfl | rfl | ⟨⟨htraced, hplace⟩, hkept⟩
  · exact ⟨k, callee, traced _ List.mem_cons_self, hfile.symm, ho, .inl rfl⟩
  · exact ⟨k, callee, traced _ (by simp), hfile.symm, ho, .inr (.inl rfl)⟩
  · exact ⟨k, callee, htraced, hfile.symm, ho, .inr (.inr ⟨hplace, hkept.imp_right List.mem_reverse.2⟩)⟩

/-- **What occurs in a definition that is read stands in its lines.**  The exceptions are a `COPY` in a copy member,
which no lines are kept of, and definitions whose `MACRO`, prototype and end came different ways. -/
theorem Captured.covers (h : Captured j ds r) (hsource : j.statements.toList = statementsOf source)
    (hds : ∀ d ∈ ds, d.Orderly) (he : e ∈ r.occurrences) :
    r.Covers e.1 e.2.span.start.line ∨ e.2.span.InCopy (j.library.Holds e.1) ∨
      ∃ d ∈ ds, r.definition.ScatteredIn d.nestedBody := by
  obtain ⟨isExternal, informed, library, known, listed, found, traced⟩ := h
  rename_i a opening prototype rest listing
  refine (listed.together_or_scattered hsource found rfl).elim (fun together => ?_) fun h => .inr (.inr h)
  have horder := (listed.pairwise hsource hds).sublist found.isPiece.sublist
  obtain ⟨k, callee, htraced, hfile, ho, hk⟩ := exists_of_mem_read informed traced (List.mem_reverse.1 he)
  obtain ⟨_, hmem⟩ := htraced.exists_source hsource
  have hcontains : (LineRange.ofSpan k.statement.span).contains e.2.span.start.line :=
    LineRange.contains_iff.2 ((line_of_mem_occurrences hmem ho).imp_right Nat.lt_succ_of_le)
  have hown (hmem : k ∈ opening :: prototype :: rest) (hway : k.nest.dropLast = opening.nest.dropLast) :
      MacroRecord.Covers ((a.read opening prototype rest).record opening.file prototype.statement
        ⟨opening.statement.span.start.line, (lastOf prototype rest).statement.span.stop.line + 1⟩ isExternal)
        e.1 e.2.span.start.line := by
    obtain ⟨hsame, hwithin⟩ := within_own horder together (fun n hn => (traced n hn).line_le hsource) hmem hway
    rw [← hfile, hsame]
    exact ⟨_, hasLines_definitionScopes_own .., hwithin.contains hcontains⟩
  rcases hk with rfl | rfl | ⟨hplace, hkept⟩
  · exact .inl (hown List.mem_cons_self rfl)
  · exact .inl (hown (by simp) together.1)
  by_cases copied : 1 < k.nest.length
  · rcases hkept with copies | hbody
    · exact .inr (.inl (Span.inCopy_of_mem (hfile ▸ htraced.holds copied) copies ho))
    · obtain ⟨lines, hlines, hwithin⟩ := hasLines_definitionScopes_copied opening.file
        ⟨opening.statement.span.start.line, (lastOf prototype rest).statement.span.stop.line + 1⟩ hbody copied
      exact .inl ⟨lines, hfile ▸ hlines, hwithin.contains hcontains⟩
  · have hmem : k ∈ opening :: prototype :: rest := by simp [hplace.resolve_right copied]
    have hway := same_way_or_deeper horder together (fun n hn => (traced n hn).nest_ne_nil) hmem
    refine .inl (hown hmem (hway.resolve_right fun ⟨⟨_, hdeeper⟩, _⟩ => ?_))
    have := List.length_pos_iff.2 (traced opening List.mem_cons_self).nest_ne_nil
    omega

/-- What occurs in a definition that was recorded stands in its lines, with the same exceptions. -/
theorem Chronicle.covers {n : Annals} (h : Chronicle j n ds) (hsource : j.statements.toList = statementsOf source)
    (hr : r ∈ n.records) (he : e ∈ r.occurrences) : r.Covers e.1 e.2.span.start.line ∨
      e.2.span.InCopy (j.library.Holds e.1) ∨ ∃ d ∈ ds, r.definition.ScatteredIn d.nestedBody := by
  obtain ⟨m, known, q, hm, hknown, hq, rfl⟩ := h.exists_captured hr
  refine (hq.covers hsource (hm.orderly hsource) he).imp_right (Or.imp_right ?_)
  exact fun ⟨d, hd, hscattered⟩ => ⟨d, hknown hd, hscattered⟩

/-- The macro is one that open code and the library define, by themselves or in the bodies of other macros. -/
inductive Defines (j : Job) : MacroDefinition → Prop
  | captured {ds : List MacroDefinition} {r : MacroRecord} (serial : Nat) (known : ∀ d ∈ ds, Defines j d)
    (captured : Captured j ds r) : Defines j { r.definition with serial }

theorem Chronicle.defines {n : Annals} (h : Chronicle j n ds) : ∀ d ∈ ds, Defines j d := by
  induction h with
  | start => exact nofun
  | noted _ _ _ ih => exact ih
  | registered _ captured ih =>
    refine List.forall_mem_append.2 ⟨ih, fun d hd => ?_⟩
    cases List.mem_singleton.1 hd
    exact .captured _ ih captured

end

end AssemblerIndex
