import AssemblerIndex.Proofs.Assembly.DefinitionLines

/-!
# Statements in the lines of a definition

The lines of a definition are kept as ranges.  If each name of a file stands for one text, a statement that has one of
these lines is one that has been read for the definition, so that all of its occurrences have been recorded with it.

* `SameStatements.exists_sibling` — of what is read, the statements that came the same way are all that the file has
  there;
* `Captured.notedIn` — **what stands in the lines of a definition has been noted for it**, with the exception of
  a `COPY` and of definitions whose `MACRO`, prototype and end came different ways.
-/

namespace AssemblerIndex

open Assembly (Job)
open NestedStatement

/-! ### Pieces of a listing -/

/-- What is not in front of one element of a piece, nor behind another, is in the piece. -/
theorem mem_of_piece {α : Type} {r : α → α → Prop} {items l : List α} (hsub : items <:+: l) (horder : l.Pairwise r)
    {k n n' : α} (hk : k ∈ l) (hn : n ∈ items) (hn' : n' ∈ items) (hfirst : ¬r k n) (hlast : ¬r n' k) : k ∈ items := by
  obtain ⟨front, back, rfl⟩ := hsub
  obtain ⟨hfront, -, hback⟩ := List.pairwise_append.1 horder
  rcases List.mem_append.1 hk with hk | hk
  · rcases List.mem_append.1 hk with hk | hk
    · exact absurd ((List.pairwise_append.1 hfront).2.2 k hk n hn) hfirst
    · exact hk
  · exact absurd (hback n' (List.mem_append_right _ hn') k hk) hlast

section

variable {items l : List NestedStatement} {k n n' : NestedStatement}

/-- A statement between two statements of a piece that came the same way is in the piece. -/
theorem mem_of_lines (hsub : items <:+: l) (horder : l.Pairwise InFront) (hk : k ∈ l) (hn : n ∈ items)
    (hn' : n' ∈ items) (hway : k.nest.dropLast = n.nest.dropLast) (hway' : k.nest.dropLast = n'.nest.dropLast)
    (hfirst : n.statement.span.start.line ≤ k.statement.span.stop.line)
    (hlast : k.statement.span.start.line ≤ n'.statement.span.stop.line) : k ∈ items :=
  mem_of_piece hsub horder hk hn hn' (fun h => absurd (h.lines hway).2 (Nat.not_lt.2 hfirst))
    (fun h => absurd (h.lines hway'.symm).2 (Nat.not_lt.2 hlast))

/-- A statement that came the same way as one that lies deeper than the ends of a piece is in the piece. -/
theorem mem_of_deeper (hsub : items <:+: l) (horder : l.Pairwise InFront) {first last : NestedStatement}
    (hk : k ∈ l) (hfirst : first ∈ items) (hlast : last ∈ items) (hne : k.nest ≠ [] ∧ n.nest ≠ [])
    (hway : k.nest.dropLast = n.nest.dropLast) (hfront : first.InFront n ∧ first.nest.length < n.nest.length)
    (hback : n.InFront last ∧ last.nest.length < n.nest.length) : k ∈ items := by
  have hk' := List.dropLast_append_getLast hne.1
  have hn := List.dropLast_append_getLast hne.2
  rw [hway] at hk'
  have hlength := congrArg List.length hn
  rw [List.length_append, List.length_singleton] at hlength
  refine mem_of_piece hsub horder hk hfirst hlast (fun h => ?_) (fun h => ?_)
  -- an end between the two statements would have come at least as deep
  · obtain ⟨m, more, hnest⟩ := exists_of_lex_between (hk' ▸ h.nest) (hn ▸ hfront.1.nest)
    have hlt := hfront.2
    rw [hnest, List.length_append, List.length_cons] at hlt
    omega
  · obtain ⟨m, more, hnest⟩ := exists_of_lex_between (hn ▸ hback.1.nest) (hk' ▸ h.nest)
    have hlt := hback.2
    rw [hnest, List.length_append, List.length_cons] at hlt
    omega

end

/-! ### Statements that came the same way -/

section

variable {j : Job} {source : List Char} {listing items new : List NestedStatement} {n : NestedStatement} {s : Statement}

theorem SameStatements.exists_mem_listing (same : SameStatements j) (listed : Listed j [] listing) (hn : n ∈ listing)
    (hs : Written j n.file s) : ∃ k ∈ listing, k.statement = s ∧ k.file = n.file := by
  cases listed with
  | openCode =>
    obtain ⟨t, -, rfl⟩ := List.mem_map.1 hn
    exact ⟨.direct j.file s, List.mem_map_of_mem (Array.mem_toList_iff.2 (same.openCode hs)), rfl, rfl⟩
  | @member name found find =>
    obtain ⟨t, -, rfl⟩ := List.mem_map.1 hn
    exact ⟨.direct found.uri s, List.mem_map_of_mem (same.member find hs), rfl, rfl⟩
  | body hd => cases hd

/-- Of what is read of a file, all statements of a copy member came by the same way, and all of the file itself between
two that are read. -/
theorem SameStatements.exists_sibling (same : SameStatements j) (hsource : j.statements.toList = statementsOf source)
    (listed : Listed j [] listing) (hsub : items <:+: listing) (hexpands : Expands j.library items new)
    (hn : n ∈ new) (hs : Written j n.file s)
    (hown : n.nest.dropLast = [] → ∃ n' ∈ new, n'.nest.dropLast = [] ∧
      n.statement.span.start.line ≤ s.span.stop.line ∧ s.span.start.line ≤ n'.statement.span.stop.line) :
    ∃ k ∈ new, k.statement = s ∧ k.file = n.file ∧ k.nest ≠ [] ∧ k.nest.dropLast = n.nest.dropLast := by
  obtain ⟨hway, horder⟩ := listed.of_file hsource
  have hitems : ∀ n ∈ items, n.nest ≠ [] := fun n hn => (hway n (hsub.subset hn)).1
  rcases hexpands.mem_or_whole hitems n hn with hn | ⟨name, found, way, find, -, hmem, hwhole⟩
  · obtain ⟨-, hnway⟩ := hway n (hsub.subset hn)
    obtain ⟨n', hn', hnway', hfirst, hlast⟩ := hown hnway
    -- what came by no way is not one of a member
    have hn' : n' ∈ items := by
      refine (hexpands.mem_or_whole hitems n' hn').resolve_right ?_
      rintro ⟨name, found, way, -, hne, hmem, -⟩
      obtain ⟨t, -, rfl⟩ := List.mem_map.1 hmem
      exact hne (by simpa using hnway')
    obtain ⟨k, hk, rfl, hfile⟩ := same.exists_mem_listing listed (hsub.subset hn) hs
    obtain ⟨hkne, hkway⟩ := hway k hk
    have hmem := mem_of_lines hsub horder hk hn hn' (hkway.trans hnway.symm) (hkway.trans hnway'.symm) hfirst hlast
    exact ⟨k, hexpands.subset hmem, rfl, hfile, hkne, hkway.trans hnway.symm⟩
  · obtain ⟨t, -, rfl⟩ := List.mem_map.1 hmem
    rw [file_placed] at hs
    refine ⟨placed way found.uri (some name) s, hwhole (List.mem_map_of_mem (same.member find hs)), rfl, ?_, ?_, ?_⟩ <;>
      simp

/-- The body of a macro is a piece of statements in order that hold, with each of them, the other statements of its file
that came the same way and are kept. -/
theorem MacroDefinition.Pieced.exists_whole {d : MacroDefinition} (hd : d.Pieced j)
    (hsource : j.statements.toList = statementsOf source) (same : SameStatements j) :
    ∃ whole : List NestedStatement, d.nestedBody <:+: whole ∧ whole.Pairwise InFront ∧
      ∀ {n s}, n ∈ whole → Written j n.file s → s.opcode ≠ "COPY" →
        (n.nest.dropLast = [] → ∃ n' ∈ whole, n'.nest.dropLast = [] ∧
          n.statement.span.start.line ≤ s.span.stop.line ∧ s.span.start.line ≤ n'.statement.span.stop.line) →
        ∃ k ∈ whole, k.statement = s ∧ k.file = n.file ∧ k.nest ≠ [] ∧ k.nest.dropLast = n.nest.dropLast := by
  obtain ⟨listing, items, new, listed, hitems, hexpands, hbody⟩ := hd
  obtain ⟨hway, horder⟩ := listed.of_file hsource
  have hnew := hexpands.pairwise [] (fun n hn => hway n (hitems.subset hn)) (horder.sublist hitems.sublist)
  refine ⟨new.filter (·.keeps), hbody, hnew.sublist List.filter_sublist, fun {n s} hn hs keeps hown => ?_⟩
  have hmem {n : NestedStatement} (hn : n ∈ new.filter (·.keeps)) : n ∈ new := (List.mem_filter.1 hn).1
  obtain ⟨k, hk, rfl, hsame⟩ := same.exists_sibling hsource listed hitems hexpands (hmem hn) hs fun hnil => by
    obtain ⟨n', hn', h⟩ := hown hnil
    exact ⟨n', hmem hn', h⟩
  exact ⟨k, List.mem_filter.2 ⟨hk, NestedStatement.keeps_iff.2 keeps⟩, rfl, hsame⟩

end

/-! ### What is read for a definition -/

section

variable {j : Job} {ds : List MacroDefinition} {source : List Char} {listing new : List NestedStatement}
  {opening prototype : NestedStatement} {rest : List NestedStatement} {file : String} {line : Nat} {s : Statement}

/-- The line of a file lies between the opening of a definition and its end, or between two copied statements of its
body. -/
inductive LiesIn (opening prototype : NestedStatement) (rest body : List NestedStatement) : String → Nat → Prop
  | own {line : Nat} (first : opening.statement.span.start.line ≤ line)
    (last : line ≤ (lastOf prototype rest).statement.span.stop.line) : LiesIn _ _ _ _ opening.file line
  | copied {n n' : NestedStatement} {line : Nat} (mem : n ∈ body ∧ 1 < n.nest.length)
    (mem' : n' ∈ body ∧ 1 < n'.nest.length) (file : n.file = n'.file) (first : n.statement.span.start.line ≤ line)
    (last : line ≤ n'.statement.span.stop.line) : LiesIn _ _ _ _ n.file line

theorem liesIn_of_hasLines {body : List NestedStatement} {lines : LineRange}
    (h : HasLines (definitionScopes opening.file
      ⟨opening.statement.span.start.line, (lastOf prototype rest).statement.span.stop.line + 1⟩ body) file lines)
    (hline : lines.contains line) : LiesIn opening prototype rest body file line := by
  rw [LineRange.contains_iff] at hline
  rcases cases_of_hasLines h with ⟨rfl, rfl⟩ | ⟨⟨n, hn, copied, hfile, hfirst⟩, n', hn', copied', hfile', hlast⟩
  · exact .own hline.1 (Nat.le_of_lt_succ hline.2)
  · subst hfile
    exact .copied ⟨hn, copied⟩ ⟨hn', copied'⟩ hfile'.symm (by omega) (by omega)

/-- A statement in the lines of a definition in a file has been read for it. -/
theorem SameStatements.exists_mem_of_file (same : SameStatements j)
    (hsource : j.statements.toList = statementsOf source) (listed : Listed j [] listing)
    (hsub : opening :: prototype :: rest <:+: listing) (hexpands : Expands j.library rest new)
    (h : LiesIn opening prototype rest (new.filter (·.keeps)) file line) (hs : Written j file s)
    (hline : s.span.start.line ≤ line ∧ line ≤ s.span.stop.line) :
    ∃ k ∈ opening :: prototype :: new, k.statement = s ∧ k.file = file := by
  have hwhole : Expands j.library (opening :: prototype :: rest) (opening :: prototype :: new) :=
    (hexpands.cons _).cons _
  cases h with
  | own first last =>
    have hlast : lastOf prototype rest ∈ opening :: prototype :: rest := List.mem_cons_of_mem _ (lastOf_mem ..)
    obtain ⟨k, hk, hstatement, hfile, -⟩ := same.exists_sibling hsource listed hsub hwhole List.mem_cons_self hs
      fun _ => ⟨_, hwhole.subset hlast, ((listed.of_file hsource).1 _ (hsub.subset hlast)).2, by omega, by omega⟩
    exact ⟨k, hk, hstatement, hfile⟩
  | @copied n _ _ mem _ _ _ _ =>
    have hn : n ∈ opening :: prototype :: new := by simp [(List.mem_filter.1 mem.1).1]
    obtain ⟨k, hk, hstatement, hfile, -⟩ := same.exists_sibling hsource listed hsub hwhole hn hs fun hway => by
      have := congrArg List.length hway
      rw [List.length_dropLast, List.length_nil] at this
      omega
    exact ⟨k, hk, hstatement, hfile⟩

/-- A statement in the lines of a definition in the body of a macro, unless it is a `COPY`, has been read for it. -/
theorem SameStatements.exists_mem_of_body (same : SameStatements j)
    (hsource : j.statements.toList = statementsOf source) {d : MacroDefinition} (hd : d.Pieced j)
    (hsub : opening :: prototype :: rest <:+: d.nestedBody) (together : StandTogether (opening :: prototype :: rest))
    (hne : ∀ n ∈ opening :: prototype :: rest, n.nest ≠ []) (h : LiesIn opening prototype rest rest file line)
    (hs : Written j file s) (hline : s.span.start.line ≤ line ∧ line ≤ s.span.stop.line) (keeps : s.opcode ≠ "COPY") :
    ∃ k ∈ opening :: prototype :: rest, k.statement = s ∧ k.file = file := by
  obtain ⟨whole, hbody, horder, hwhole⟩ := hd.exists_whole hsource same
  have hpiece := hsub.trans hbody
  have hlast : lastOf prototype rest ∈ opening :: prototype :: rest := List.mem_cons_of_mem _ (lastOf_mem ..)
  -- the statement comes the same way as two statements of the definition, and stands between them
  have hbetween {n n' : NestedStatement} (hn : n ∈ opening :: prototype :: rest)
      (hn' : n' ∈ opening :: prototype :: rest) (hnway : n.nest.dropLast = n'.nest.dropLast)
      (hfirst : n.statement.span.start.line ≤ line) (hlast : line ≤ n'.statement.span.stop.line)
      (hs : Written j n.file s) :
      ∃ k ∈ opening :: prototype :: rest, k.statement = s ∧ k.file = n.file := by
    obtain ⟨k, hk, rfl, hfile, -, hkway⟩ := hwhole (hpiece.subset hn) hs keeps
      fun hnil => ⟨n', hpiece.subset hn', hnway ▸ hnil, by omega, by omega⟩
    exact ⟨k, mem_of_lines hpiece horder hk hn hn' hkway (hkway.trans hnway) (by omega) (by omega), rfl, hfile⟩
  -- the statement comes the same way as one that was copied into the definition
  have hdeeper {n : NestedStatement} (hn : n ∈ opening :: prototype :: rest)
      (hnway : n.nest.dropLast ≠ opening.nest.dropLast) (hs : Written j n.file s) :
      ∃ k ∈ opening :: prototype :: rest, k.statement = s ∧ k.file = n.file := by
    obtain ⟨hfront, hback⟩ := (same_way_or_deeper (horder.sublist hpiece.sublist) together hne hn).resolve_left hnway
    obtain ⟨k, hk, rfl, hfile, hkne, hkway⟩ := hwhole (hpiece.subset hn) hs keeps fun hnil => by
      have := congrArg List.length hnil
      have := List.length_pos_iff.2 (hne opening List.mem_cons_self)
      rw [List.length_dropLast, List.length_nil] at *
      omega
    exact ⟨k, mem_of_deeper hpiece horder hk List.mem_cons_self hlast ⟨hkne, hne n hn⟩ hkway hfront hback, rfl, hfile⟩
  cases h with
  | own first last => exact hbetween List.mem_cons_self hlast together.2.symm first last hs
  | @copied n n' _ mem mem' hfile first last =>
    have hn : n ∈ opening :: prototype :: rest := by simp [mem.1]
    have hn' : n' ∈ opening :: prototype :: rest := by simp [mem'.1]
    by_cases hnway : n.nest.dropLast = opening.nest.dropLast
    · by_cases hnway' : n'.nest.dropLast = opening.nest.dropLast
      · exact hbetween hn hn' (hnway.trans hnway'.symm) first last hs
      · rw [hfile] at hs ⊢
        exact hdeeper hn' hnway' hs
    · exact hdeeper hn hnway hs

/-- **What stands in the lines of a definition that is read has been noted for it.**  The exceptions are a `COPY`, which
is left out of the body of a macro from which a definition is read, and definitions whose `MACRO`, prototype and end
came different ways. -/
theorem Captured.notedIn {r : MacroRecord} (h : Captured j ds r) (hsource : j.statements.toList = statementsOf source)
    (hds : ∀ d ∈ ds, d.Pieced j) (same : SameStatements j) (hcovers : r.Covers file line) (hs : Written j file s)
    (hline : s.span.start.line ≤ line ∧ line ≤ s.span.stop.line) :
    (NestedStatement.direct file s).NotedIn r.occurrences ∨ s.opcode = "COPY" ∨
      ∃ d ∈ ds, r.definition.ScatteredIn d.nestedBody := by
  obtain ⟨isExternal, informed, library, known, listed, found, traced⟩ := h
  rename_i a opening prototype rest listing
  refine (listed.together_or_scattered hsource found rfl).elim (fun together => ?_) fun h => .inr (.inr h)
  obtain ⟨new, hexpands, hstatements, hnoted⟩ := Assembly.exists_expands_read informed.sound opening prototype rest
  rw [library] at hexpands
  obtain ⟨lines, hlines, hcontains⟩ := hcovers
  have hlies := liesIn_of_hasLines hlines hcontains
  rw [hstatements] at hlies
  have hread : (∃ k ∈ opening :: prototype :: new, k.statement = s ∧ k.file = file) →
      (NestedStatement.direct file s).NotedIn (a.read opening prototype rest).occurrences.reverse := by
    rintro ⟨k, hk, rfl, rfl⟩
    obtain ⟨callee, hcallee⟩ := hnoted k hk
    exact ⟨callee, fun o ho => List.mem_reverse.2 (hcallee o ho)⟩
  rcases listed.cases_file with listed | ⟨d, hd, rfl⟩
  · exact .inl (hread (same.exists_mem_of_file hsource listed found.isPiece hexpands hlies hs hline))
  · by_cases copies : s.opcode = "COPY"
    · exact .inr (.inl copies)
    have hkeeps : ∀ n ∈ rest, n.statement.opcode ≠ "COPY" := fun n hn =>
      ((hds d hd).orderly hsource).keeps n (found.isPiece.subset (by simp [hn]))
    rw [hexpands.eq_of_forall_ne hkeeps] at hlies hread
    rw [List.filter_eq_self.2 fun n hn => NestedStatement.keeps_iff.2 (hkeeps n hn)] at hlies
    exact .inl (hread (same.exists_mem_of_body hsource (hds d hd) found.isPiece together
      (fun n hn => (traced n hn).nest_ne_nil) hlies hs hline copies))

/-- What stands in the lines of a definition that was recorded has been noted for it, with the same exceptions. -/
theorem Chronicle.notedIn {n : Annals} {r : MacroRecord} (h : Chronicle j n ds)
    (hsource : j.statements.toList = statementsOf source) (same : SameStatements j) (hr : r ∈ n.records)
    (hcovers : r.Covers file line) (hs : Written j file s)
    (hline : s.span.start.line ≤ line ∧ line ≤ s.span.stop.line) :
    (NestedStatement.direct file s).NotedIn r.occurrences ∨ s.opcode = "COPY" ∨
      ∃ d ∈ ds, r.definition.ScatteredIn d.nestedBody := by
  obtain ⟨m, known, q, hm, hknown, hq, rfl⟩ := h.exists_captured hr
  refine (hq.notedIn hsource (hm.pieced hsource) same hcovers hs hline).imp_right (Or.imp_right ?_)
  exact fun ⟨d, hd, hscattered⟩ => ⟨d, hknown hd, hscattered⟩

end

end AssemblerIndex
