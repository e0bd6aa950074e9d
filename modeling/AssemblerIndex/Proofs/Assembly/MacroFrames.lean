import AssemblerIndex.Proofs.Assembly.SharedStatements

/-!
# The frames of macros

The frames of a statement of a macro are told by its nest, and nests are handed on: a definition in the body of another
macro keeps those of that body.  So the first frame lies in the file in which the outermost definition is written.

* `NestedStatement.Comes` — a statement is another one, or was copied in its place;
* `MacroDefinition.ReadFrom` — the statements that a definition was read from;
* `MacroText` — what is written for a definition in a file, from its `MACRO` on;
* `FramesIn` — the frames of a statement in such a text or in a copy member that the text includes;
* `MacroDefinition.ReadFrom.framesIn` — the nests of a definition of which the `MACRO` was not copied tell such frames;
* `macro_frames_lie_in_own_file` — **unless the `MACRO` of a macro was copied into the body of another one, the frames of
  its statements begin in its own text and lead through the copy members that this text includes**.
-/

namespace AssemblerIndex

open Assembly (Job)
open NestedStatement

/-! ### Where statements come from -/

/-- The statement is the given one, or was copied in the place of a `COPY` that came from that. -/
inductive NestedStatement.Comes (l : Library) (n : NestedStatement) : NestedStatement → Prop
  | self : Comes l n n
  | copied {c k : NestedStatement} {name : String} {found : LibraryMember} (h : Comes l n c)
    (copies : c.statement.opcode = "COPY") (names : c.copyName? = some name) (find : l.find? name = some found)
    (mem : k ∈ c.copied (found.copyMember name)) : Comes l n k

namespace NestedStatement.Comes

variable {l : Library} {n c k : NestedStatement}

theorem trans (h : Comes l n c) (h' : Comes l c k) : Comes l n k := by
  induction h' with
  | self => exact h
  | copied _ copies names find mem ih => exact .copied ih copies names find mem

/-- What was copied in the place of a statement takes its place. -/
theorem under (h : Comes l n k) : n.Under k := by
  induction h with
  | self => exact .inl rfl
  | copied _ _ _ _ mem ih =>
    obtain ⟨s, -, rfl⟩ := List.mem_map.1 mem
    exact .inr (by simpa using ih.leads)

/-- Only a `COPY` is replaced. -/
theorem eq_of_keeps (h : Comes l n k) (keeps : n.statement.opcode ≠ "COPY") : k = n := by
  induction h with
  | self => rfl
  | copied _ copies _ _ _ ih => exact absurd (ih ▸ copies) keeps

/-- What was not copied comes from itself only. -/
theorem eq_of_length (h : Comes l n k) (hne : n.nest ≠ []) (hlength : k.nest.length = 1) : k = n := by
  refine h.under.resolve_right fun hlonger => hne ?_
  have := hlonger.length_le
  rw [List.length_dropLast, hlength] at this
  exact List.length_eq_zero_iff.1 (Nat.le_zero.1 this)

/-- The way of what comes from a statement of a file begins at that. -/
theorem head?_nest {file : String} {s : Statement} (h : Comes l (direct file s) k) :
    k.nest.head? = some ⟨⟨file, s.position⟩, none⟩ := by
  obtain ⟨more, hmore⟩ := h.under.leads
  rw [← hmore]
  rfl

end NestedStatement.Comes

/-- What is read of statements comes from them. -/
theorem exists_comes_read {a : Assembly} (sound : a.Sound) (opening prototype : NestedStatement)
    (rest : List NestedStatement) :
    ∀ k ∈ (a.read opening prototype rest).statements, ∃ n ∈ rest, n.Comes a.library k := by
  have hinherited : Assembly.Inherited a fun k => ∃ n ∈ rest, n.Comes a.library k := by
    intro r r' openMembers c m hr ⟨n, hn, hcomes⟩ copies hcopied k hk
    obtain ⟨name, found, names, find, rfl⟩ := Reading.copied?_eq_some (hr.spares.sound sound) hcopied
    exact ⟨n, hn, .copied hcomes copies names (hr.library ▸ find) hk⟩
  intro k hk
  exact Assembly.forall_read hinherited opening prototype (fun n hn => ⟨n, hn, .self⟩) k (List.mem_reverse.1 hk)

/-! ### What definitions are read from -/

/-- A definition begins at a `MACRO`. -/
theorem DefinitionIn.opcode_eq {listing rest : List NestedStatement} {opening : NestedStatement}
    (h : DefinitionIn listing (opening :: rest)) : opening.statement.opcode = "MACRO" := by
  obtain ⟨tail, -, hopens, heq⟩ := h
  rw [throughMend_eq_take] at heq
  obtain ⟨more, rfl⟩ : opening :: rest <+: tail := heq ▸ List.take_prefix ..
  exact hopens opening rfl

/-- The definition was read from the statements `opening`, `prototype` and `rest` of a listing; when it was, the macros
were among `ds`. -/
structure MacroDefinition.ReadFrom (j : Job) (ds : List MacroDefinition) (d : MacroDefinition)
    (listing : List NestedStatement) (opening prototype : NestedStatement) (rest : List NestedStatement) : Prop where
  listed : Listed j ds listing
  found : DefinitionIn listing (opening :: prototype :: rest)
  location : d.location = ⟨opening.file, prototype.statement.position⟩
  body : ∀ k ∈ d.nestedBody, ∃ n ∈ rest, n.Comes j.library k

/-- All statements of the body come from statements of one file. -/
def MacroDefinition.Rooted (j : Job) (d : MacroDefinition) : Prop :=
  ∃ source, Listed j [] source ∧ ∀ k ∈ d.nestedBody, ∃ n ∈ source, n.Comes j.library k

section

variable {j : Job} {n : Annals} {ds : List MacroDefinition} {d : MacroDefinition} {listing rest : List NestedStatement}
  {opening prototype : NestedStatement}

theorem Listed.mono (h : Listed j ds listing) {ds' : List MacroDefinition} (hds : ds ⊆ ds') : Listed j ds' listing := by
  cases h with
  | openCode => exact .openCode
  | member find => exact .member find
  | body mem => exact .body (hds mem)

/-- The statements of a file all have its name. -/
theorem Listed.exists_direct (h : Listed j [] listing) : ∃ file, ∀ n ∈ listing, ∃ s, n = direct file s := by
  cases h with
  | openCode =>
    refine ⟨j.file, fun n hn => ?_⟩
    obtain ⟨s, -, rfl⟩ := List.mem_map.1 hn
    exact ⟨s, rfl⟩
  | @member name found find =>
    refine ⟨found.uri, fun n hn => ?_⟩
    obtain ⟨s, -, rfl⟩ := List.mem_map.1 hn
    exact ⟨s, rfl⟩
  | body mem => cases mem

theorem Captured.exists_readFrom {r : MacroRecord} (h : Captured j ds r) :
    ∃ listing opening prototype rest, r.definition.ReadFrom j ds listing opening prototype rest := by
  obtain ⟨isExternal, informed, library, known, listed, found, traced⟩ := h
  refine ⟨_, _, _, _, listed, found, rfl, fun k hk => ?_⟩
  replace hk := Reading.nestedBody_definition .. ▸ hk
  exact library ▸ exists_comes_read informed.sound _ _ _ k hk

namespace MacroDefinition.ReadFrom

theorem mono (h : d.ReadFrom j ds listing opening prototype rest) {ds' : List MacroDefinition} (hds : ds ⊆ ds') :
    d.ReadFrom j ds' listing opening prototype rest :=
  { h with listed := h.listed.mono hds }

/-- The statements that a definition was read from come from statements of one file. -/
theorem exists_source (h : d.ReadFrom j ds listing opening prototype rest) (hds : ∀ d ∈ ds, d.Rooted j) :
    ∃ source, Listed j [] source ∧ ∀ k ∈ opening :: prototype :: rest, ∃ n ∈ source, n.Comes j.library k := by
  have hsub := h.found.isPiece.subset
  rcases h.listed.cases_file with listed | ⟨e, he, rfl⟩
  · exact ⟨listing, listed, fun k hk => ⟨k, hsub hk, .self⟩⟩
  · obtain ⟨source, listed, hsource⟩ := hds e he
    exact ⟨source, listed, fun k hk => hsource k (hsub hk)⟩

theorem rooted (h : d.ReadFrom j ds listing opening prototype rest) (hds : ∀ d ∈ ds, d.Rooted j) : d.Rooted j := by
  obtain ⟨source, listed, hsource⟩ := h.exists_source hds
  refine ⟨source, listed, fun k hk => ?_⟩
  obtain ⟨c, hc, hcomes⟩ := h.body k hk
  obtain ⟨n, hn, hcomes'⟩ := hsource c (by simp [hc])
  exact ⟨n, hn, hcomes'.trans hcomes⟩

end MacroDefinition.ReadFrom

/-- **Every definition that has been registered was read from a file, or from the body of a macro that was.** -/
theorem Chronicle.exists_readFrom (h : Chronicle j n ds) : ∀ d ∈ ds, d.Rooted j ∧
    ∃ listing opening prototype rest, d.ReadFrom j ds listing opening prototype rest := by
  induction h with
  | start => exact nofun
  | noted _ _ _ ih => exact ih
  | @registered n ds r _ captured ih =>
    refine List.forall_mem_append.2 ⟨fun d hd => ?_, fun d hd => ?_⟩
    · obtain ⟨rooted, _, _, _, _, read⟩ := ih d hd
      exact ⟨rooted, _, _, _, _, read.mono (List.subset_append_left ..)⟩
    · cases List.mem_singleton.1 hd
      obtain ⟨_, _, _, _, listed, found, location, body⟩ := captured.exists_readFrom
      have read : (n.entered r.definition).ReadFrom j ds _ _ _ _ := ⟨listed, found, location, body⟩
      exact ⟨read.rooted fun d hd => (ih d hd).1, _, _, _, _, read.mono (List.subset_append_left ..)⟩

end

/-! ### The text of a definition -/

/-- What is written for a definition in a file: the statements from its `MACRO` through the one that its last statement
is, or comes from. -/
structure MacroText (j : Job) (text : List NestedStatement) (opening last : NestedStatement) : Prop where
  written : ∃ source, Listed j [] source ∧ text <:+: source
  first : text.head? = some opening
  ends : ∃ n, text.getLast? = some n ∧ n.Comes j.library last

/-- The frames of a statement that is written in the text of a macro, or in a copy member that is included there: one at
the statement of the text, then one in each copy member on the way.  Each but the last stands at the `COPY` that names
the next member. -/
inductive FramesIn (l : Library) (called : String) (text : List NestedStatement) :
    NestedStatement → ProcessingStack → Prop
  | written {n : NestedStatement} (h : n ∈ text) :
    FramesIn l called text n [⟨.macroBody, some called, ⟨n.file, n.statement.position⟩⟩]
  | copied {c k : NestedStatement} {frames : ProcessingStack} {name : String} {found : LibraryMember}
    (h : FramesIn l called text c frames) (copies : c.statement.opcode = "COPY") (names : c.copyName? = some name)
    (find : l.find? name = some found) (mem : k ∈ c.copied (found.copyMember name)) :
    FramesIn l called text k (frames ++ [⟨.copy, some name, ⟨found.uri, k.statement.position⟩⟩])

/-- The nest of what comes from a statement of a file tells its frames. -/
theorem NestedStatement.Comes.framesIn {l : Library} {file : String} {s : Statement} {k : NestedStatement}
    (h : Comes l (direct file s) k) {text : List NestedStatement} (mem : direct file s ∈ text) (called : String) :
    FramesIn l called text k (nestFrames called k.nest) := by
  induction h with
  | self => exact .written mem
  | @copied c k name found h copies names find mem' ih =>
    have hne : c.nest ≠ [] := by
      intro hnil
      have hhead := h.head?_nest
      rw [hnil] at hhead
      cases hhead
    have hk := mem'
    obtain ⟨s, -, rfl⟩ := List.mem_map.1 hk
    rw [nestFrames_concat hne]
    exact .copied ih copies names find mem'

/-- Two elements of a list in order are the ends of a piece of it, unless the second stands in front of the first. -/
theorem exists_piece_between {α : Type} {r : α → α → Prop} {l : List α} (horder : l.Pairwise r) {a b : α} (ha : a ∈ l)
    (hb : b ∈ l) (h : ¬r b a) : ∃ piece, piece <:+: l ∧ piece.head? = some a ∧ piece.getLast? = some b := by
  obtain ⟨front, tail, rfl⟩ := List.append_of_mem ha
  have hbehind : b ∈ a :: tail :=
    (List.mem_append.1 hb).resolve_left fun hb => h ((List.pairwise_append.1 horder).2.2 b hb a List.mem_cons_self)
  obtain ⟨middle, back, htail⟩ := List.append_of_mem hbehind
  refine ⟨middle ++ [b], ⟨front, back, by rw [htail]; simp⟩, ?_, List.getLast?_concat⟩
  have hhead := congrArg List.head? htail
  cases middle with
  | nil => simpa using hhead.symm
  | cons m middle => simpa using hhead.symm

theorem NestedStatement.InFront.asymm {n k : NestedStatement} (h : n.InFront k) : ¬k.InFront n := fun h' =>
  absurd h'.nest (Std.Asymm.asymm _ _ h.nest)

section

variable {j : Job} {ds : List MacroDefinition} {d : MacroDefinition} {listing rest : List NestedStatement}
  {opening prototype : NestedStatement} {source : List Char}

namespace MacroDefinition.ReadFrom

/-- The ways of all statements of a body begin in one file, and so does that of its `MACRO`. -/
theorem exists_file (h : d.ReadFrom j ds listing opening prototype rest) (hds : ∀ d ∈ ds, d.Rooted j) :
    ∃ file, ∀ k, k = opening ∨ k ∈ d.nestedBody → ∃ i, k.nest.head? = some i ∧ i.location.file = file := by
  obtain ⟨source, listed, hsource⟩ := h.exists_source hds
  obtain ⟨file, hdirect⟩ := listed.exists_direct
  refine ⟨file, fun k hk => ?_⟩
  obtain ⟨n, hn, hcomes⟩ : ∃ n ∈ source, n.Comes j.library k := by
    rcases hk with rfl | hk
    · exact hsource k (by simp)
    · obtain ⟨c, hc, hcomes⟩ := h.body k hk
      obtain ⟨n, hn, hcomes'⟩ := hsource c (by simp [hc])
      exact ⟨n, hn, hcomes'.trans hcomes⟩
  obtain ⟨s, rfl⟩ := hdirect n hn
  exact ⟨_, hcomes.head?_nest, rfl⟩

/-- In a file, a definition is read from its own text. -/
theorem framesIn_of_file (h : d.ReadFrom j ds listing opening prototype rest) (listed : Listed j [] listing) :
    ∃ text, MacroText j text opening (lastOf prototype rest) ∧
      ∀ k ∈ d.nestedBody, FramesIn j.library d.name text k (nestFrames d.name k.nest) := by
  have hpiece := h.found.isPiece
  refine ⟨opening :: prototype :: rest, ⟨⟨listing, listed, hpiece⟩, rfl, lastOf prototype rest, ?_, .self⟩, ?_⟩
  · obtain ⟨front, hfront⟩ := eq_append_lastOf prototype rest
    rw [hfront, ← List.cons_append, List.getLast?_concat]
  · intro k hk
    obtain ⟨n, hn, hcomes⟩ := h.body k hk
    have hmem : n ∈ opening :: prototype :: rest := by simp [hn]
    obtain ⟨file, hdirect⟩ := listed.exists_direct
    obtain ⟨s, rfl⟩ := hdirect n (hpiece.subset hmem)
    exact hcomes.framesIn hmem d.name

/-- In the body of a macro, the statements of a definition come from a piece of the file that this body comes from, if
its `MACRO` was not copied. -/
theorem framesIn_of_body {e : MacroDefinition} (h : d.ReadFrom j ds e.nestedBody opening prototype rest)
    (rooted : e.Rooted j) (orderly : e.Orderly) (hsource : j.statements.toList = statementsOf source)
    (own : opening.nest.length = 1) :
    ∃ text, MacroText j text opening (lastOf prototype rest) ∧
      ∀ k ∈ d.nestedBody, FramesIn j.library d.name text k (nestFrames d.name k.nest) := by
  have hpiece := h.found.isPiece
  have hlast : lastOf prototype rest ∈ opening :: prototype :: rest := List.mem_cons_of_mem _ (lastOf_mem ..)
  obtain ⟨whole, listed, hcomes⟩ := rooted
  obtain ⟨hway, horder⟩ := listed.of_file hsource
  obtain ⟨hfront, hbehind⟩ := List.pairwise_cons.1 (orderly.order.sublist hpiece.sublist)
  have hopening : opening ∈ whole := by
    obtain ⟨n, hn, hcomes⟩ := hcomes opening (hpiece.subset List.mem_cons_self)
    rwa [hcomes.eq_of_length (hway n hn).1 own]
  obtain ⟨m, hm, hlastComes⟩ := hcomes _ (hpiece.subset hlast)
  -- the order of the file is that of the body
  have hinFront {n n' k k' : NestedStatement} (hn : n ∈ whole) (hn' : n' ∈ whole) (h : n.InFront n')
      (hk : n.Comes j.library k) (hk' : n'.Comes j.library k') : k.InFront k' :=
    h.of_under (hway n hn).1 (hway n' hn').1 ((hway n hn).2.trans (hway n' hn').2.symm) hk.under hk'.under
  obtain ⟨text, hpart, hfirst, hends⟩ := exists_piece_between horder hopening hm fun h =>
    (hfront _ (lastOf_mem ..)).asymm (hinFront hm hopening h hlastComes .self)
  refine ⟨text, ⟨⟨whole, listed, hpart⟩, hfirst, m, hends, hlastComes⟩, fun k hk => ?_⟩
  obtain ⟨c, hc, hkept⟩ := h.body k hk
  have hc' := List.mem_cons_of_mem prototype hc
  have hmem := hpiece.subset (List.mem_cons_of_mem opening hc')
  obtain rfl := hkept.eq_of_keeps (orderly.keeps c hmem)
  obtain ⟨n, hn, hkComes⟩ := hcomes k hmem
  have htext : n ∈ text := by
    refine mem_of_piece hpart horder hn (List.mem_of_head? hfirst) (List.mem_of_getLast? hends) ?_ ?_
    · exact fun h => (hfront k hc').asymm (hinFront hn hopening h hkComes .self)
    · intro h
      have hlt := hinFront hm hn h hlastComes hkComes
      rcases inFront_lastOf hbehind hc' with heq | hlt'
      · exact (heq ▸ hlt).asymm (heq ▸ hlt)
      · exact hlt'.asymm hlt
  obtain ⟨file, hdirect⟩ := listed.exists_direct
  obtain ⟨s, rfl⟩ := hdirect n hn
  exact hkComes.framesIn htext d.name

/-- **If the `MACRO` was not copied, the nests of a body tell frames in the text of the definition.** -/
theorem framesIn (h : d.ReadFrom j ds listing opening prototype rest) (hrooted : ∀ d ∈ ds, d.Rooted j)
    (horderly : ∀ d ∈ ds, d.Orderly) (hsource : j.statements.toList = statementsOf source)
    (own : opening.nest.length = 1) :
    ∃ text, MacroText j text opening (lastOf prototype rest) ∧
      ∀ k ∈ d.nestedBody, FramesIn j.library d.name text k (nestFrames d.name k.nest) := by
  rcases h.listed.cases_file with listed | ⟨e, he, rfl⟩
  · exact h.framesIn_of_file listed
  · exact h.framesIn_of_body (hrooted e he) (horderly e he) hsource own

end MacroDefinition.ReadFrom

end

/-! ### Whole runs -/

/-- Every call stands at a statement of a macro that is being expanded. -/
theorem Tracks.exists_listing {j : Job} {control : List Activation} {l : Location} {cs : List CopyCursor}
    {is : List Invocation} (h : Tracks j control l cs is) : ∀ c ∈ is, (∃ q ∈ control, q.definition? = some c.definition) ∧
      ∃ s, c.definition.body[c.current]? = some s := by
  induction h with
  | openCode => exact nofun
  | copy => exact nofun
  | @call outer _ _ is c s _ _ hs ih =>
    refine List.forall_mem_cons.2 ⟨⟨⟨_, List.mem_cons_self, rfl⟩, s, hs⟩, fun c' hc' => ?_⟩
    obtain ⟨⟨q, hq, hd⟩, hs⟩ := ih c' hc'
    exact ⟨⟨q, List.mem_cons_of_mem _ hq, hd⟩, hs⟩

/-- The frames of a call stand in the stack. -/
theorem frames_infix_stack {x : Context} {c : Call} (hc : c ∈ x.calls) : c.invocation.frames <:+: x.stack := by
  have hcalls : c.invocation ∈ x.calls.reverse.map (·.invocation) := List.mem_map_of_mem (List.mem_reverse.2 hc)
  have hwithin := List.infix_of_mem_flatten (List.mem_map_of_mem (f := Invocation.frames) hcalls)
  rw [← List.flatMap_def] at hwithin
  exact (hwithin.trans (List.suffix_append ..).isInfix).trans (List.prefix_append ..).isInfix

/-- While a statement is executed, the macro of each call has been registered, and the call stands at a statement of it. -/
theorem Assembly.Chronicled.mem_of_call {j : Job} {a : Assembly} {ds : List MacroDefinition} (h : Chronicled j a ds)
    (oriented : Oriented j a) (balanced : Balanced j a) {p : Activation} {outer : List Activation} {s : Statement}
    (hc : a.control = p :: outer) (hs : p.statement? = some s) {c : Call} (hcall : c ∈ (a.moveTo p s).context.calls) :
    c.invocation.definition ∈ ds ∧ ∃ t, c.invocation.definition.body[c.invocation.current]? = some t := by
  obtain ⟨⟨q, hq, hdefinition⟩, ht⟩ :=
    (oriented.tracked_moveTo balanced hc hs).exists_listing c.invocation (List.mem_map_of_mem hcall)
  refine ⟨?_, ht⟩
  have hcontrol : ∀ q ∈ p :: outer, ∀ d ∈ q.definition?, d ∈ ds := hc ▸ h.expanded
  rcases List.mem_cons.1 hq with rfl | hq
  · exact hcontrol q List.mem_cons_self _ hdefinition
  · obtain ⟨q', hq', rfl⟩ := List.mem_map.1 hq
    exact hcontrol q' (List.mem_cons_of_mem _ hq') _ hdefinition

namespace Assembly

/-- **The frames of a macro lie in its own file, if its `MACRO` was not copied into another macro.**  While a statement
`s` is executed in a run, each call `c` stands at a statement of its macro `d`, and the stack holds its frames.  The macro
was read from a file, or from the body of another one, from a statement `opening` on.  The first frame is that of the
macro, and it lies in the file in which the way of `opening` begins.  If this way has no further step, that is the file
of the macro: the frames are those of a statement that is written between `opening` and the end of the definition, or in
a copy member that is included there. -/
theorem macro_frames_lie_in_own_file {file text : String} {library : Library} {settings : Settings} {now : Moment}
    {a : Assembly} (reached : (fresh file text library settings now).Reaches a) {p : Activation}
    {outer : List Activation} {s : Statement} (hc : a.control = p :: outer) (hs : p.statement? = some s) :
    let j : Job := ⟨(statementsOf text.toList).toArray, file, library, settings⟩
    ∃ ds, Chronicle j a.annals ds ∧ ∀ c ∈ (a.moveTo p s).context.calls,
      let d := c.invocation.definition
      c.invocation.frames <:+: (a.moveTo p s).context.stack ∧
      (∃ listing opening prototype rest, d.ReadFrom j ds listing opening prototype rest) ∧
      ∀ {listing opening prototype rest}, d.ReadFrom j ds listing opening prototype rest →
        ∃ first frames, c.invocation.frames = ⟨.macroBody, some d.name, first⟩ :: frames ∧
          (∃ i, opening.nest.head? = some i ∧ first.file = i.location.file) ∧
          (opening.nest.length = 1 → first.file = d.location.file ∧
            ∃ text k, MacroText j text opening (lastOf prototype rest) ∧
              d.body[c.invocation.current]? = some k.statement ∧
              FramesIn j.library d.name text k c.invocation.frames) := by
  intro j
  obtain ⟨ds, hds⟩ := reached.chronicled
  refine ⟨ds, hds.chronicle, fun c hcall => ?_⟩
  intro d
  have hsource : j.statements.toList = statementsOf text.toList := rfl
  have hread := hds.chronicle.exists_readFrom
  have hrooted : ∀ d ∈ ds, d.Rooted j := fun d hd => (hread d hd).1
  obtain ⟨hmem, t, ht⟩ := hds.mem_of_call reached.oriented reached.balanced hc hs hcall
  have hk := d.mem_nestedBody ht
  generalize hnest : d.nests[c.invocation.current]?.getD [] = nest at hk
  have hframes : c.invocation.frames = nestFrames d.name nest := hnest ▸ Invocation.frames_eq c.invocation
  refine ⟨frames_infix_stack hcall, (hread d hmem).2, fun {listing opening prototype rest} h => ?_⟩
  obtain ⟨file, hfile⟩ := h.exists_file hrooted
  obtain ⟨i, hi, hifile⟩ := hfile _ (.inr hk)
  obtain ⟨i', hi', hifile'⟩ := hfile opening (.inl rfl)
  obtain ⟨rest', hrest⟩ : ∃ rest', nest = i :: rest' := List.head?_eq_some_iff.1 hi
  refine ⟨i.location, rest'.map fun i => ⟨.copy, i.member, i.location⟩, by rw [hframes, hrest]; rfl,
    ⟨i', hi', hifile.trans hifile'.symm⟩, fun own => ⟨?_, ?_⟩⟩
  · -- the way of `opening` has one step, which tells its file
    rw [h.location, hifile, ← hifile']
    obtain ⟨i'', hi''⟩ := List.length_eq_one_iff.1 own
    rw [hi''] at hi'
    obtain rfl := Option.some.inj hi'
    simp [NestedStatement.file, hi'']
  · obtain ⟨text, htext, hframesIn⟩ := h.framesIn hrooted (hds.chronicle.orderly hsource) hsource own
    exact ⟨text, _, htext, ht, hframes ▸ hframesIn _ hk⟩

/-- A macro that copies a member is defined in the body of another one. -/
def nestedMacro : String := " MACRO\n OUTER\n MACRO\n INNER\n COPY M\n MEND\n MEND\n OUTER\n INNER\n"

/-- The member that it copies. -/
def nestedMacroLibrary : Library := .ofMembers [("M", ⟨"m", "X EQU 1\n"⟩)]

theorem macro_frames_of_nestedMacro :
    let j : Job := ⟨(statementsOf nestedMacro.toList).toArray, "S", nestedMacroLibrary, {}⟩
    ∃ a p outer s ds c, (fresh "S" nestedMacro nestedMacroLibrary {} default).Reaches a ∧ a.control = p :: outer ∧
      p.statement? = some s ∧ c ∈ (a.moveTo p s).context.calls ∧
      c.invocation.frames = [⟨.macroBody, some "INNER", ⟨"S", ⟨4, 1⟩⟩⟩, ⟨.copy, some "M", ⟨"m", ⟨0, 2⟩⟩⟩] ∧
      c.invocation.definition.location.file = "S" ∧
      ∃ listing opening prototype rest text k,
        c.invocation.definition.ReadFrom j ds listing opening prototype rest ∧ opening.nest.length = 1 ∧
        MacroText j text opening (lastOf prototype rest) ∧
        FramesIn j.library c.invocation.definition.name text k c.invocation.frames := by
  intro j
  have hrun : ((fresh "S" nestedMacro nestedMacroLibrary {} default).run 5).toOption.any fun a =>
      a.control.head?.any fun p => p.statement?.any fun s => (a.moveTo p s).context.calls.head?.any fun c =>
        (a.context.macros.find? "OUTER").any fun d => (a.context.macros.find? "INNER").any fun e =>
          decide (c.invocation.frames =
              [⟨.macroBody, some "INNER", ⟨"S", ⟨4, 1⟩⟩⟩, ⟨.copy, some "M", ⟨"m", ⟨0, 2⟩⟩⟩] ∧
            c.invocation.definition.location.file = "S" ∧ a.context.registrations = 2 ∧ d.serial = 0 ∧ e.serial = 1 ∧
            (∀ n ∈ d.nestedBody, n.statement.opcode = "MACRO" → n.nest.length = 1) ∧
            ∀ n ∈ e.nestedBody, n.statement.opcode = "MACRO" → n.nest.length = 1) := by
    decide +kernel
  obtain ⟨a, ha, hrun⟩ := exists_of_any hrun
  simp only [Option.any_eq_true] at hrun
  obtain ⟨p, hp, s, hs, c, hcall, d, hd, e, he, hrun⟩ := hrun
  obtain ⟨hframes, hfile, hcount, hdserial, heserial, hdbody, hebody⟩ := of_decide_eq_true hrun
  obtain ⟨outer, hcontrol⟩ := List.head?_eq_some_iff.1 hp
  have reached : (fresh "S" nestedMacro nestedMacroLibrary {} default).Reaches a := ⟨5, ha⟩
  obtain ⟨ds, hds, hall⟩ := macro_frames_lie_in_own_file reached hcontrol hs
  have hmem := List.mem_of_head? hcall
  obtain ⟨-, ⟨listing, opening, prototype, rest, read⟩, hframed⟩ := hall c hmem
  -- no `MACRO` in the bodies of the two macros was copied
  have hbodies : ∀ f ∈ ds, ∀ n ∈ f.nestedBody, n.statement.opcode = "MACRO" → n.nest.length = 1 := by
    intro f hf
    obtain ⟨i, hi⟩ := List.getElem?_of_mem hf
    have hserial := hds.serial_eq hi
    have hlt : i < 2 := by
      rw [← hcount, show a.context.registrations = ds.length from hds.registrations_eq]
      exact (List.getElem?_eq_some_iff.1 hi).1
    rcases Nat.lt_succ_iff_lt_or_eq.1 hlt with hlt | rfl
    · obtain rfl : f = d := hds.eq_of_serial_eq hf (hds.mem_of_find? hd) (by omega)
      exact hdbody
    · obtain rfl : f = e := hds.eq_of_serial_eq hf (hds.mem_of_find? he) (by omega)
      exact hebody
  have own : opening.nest.length = 1 := by
    have hopening : opening ∈ listing := read.found.isPiece.subset List.mem_cons_self
    rcases read.listed.cases_file with listed | ⟨f, hf, rfl⟩
    · obtain ⟨file, hdirect⟩ := listed.exists_direct
      obtain ⟨s, rfl⟩ := hdirect opening hopening
      rfl
    · exact hbodies f hf opening hopening read.found.opcode_eq
  obtain ⟨first, frames, -, -, hown⟩ := hframed read
  obtain ⟨-, text, k, htext, -, hin⟩ := hown own
  exact ⟨a, p, outer, s, ds, c, reached, hcontrol, hs, hmem, hframes, hfile, listing, opening, prototype, rest, text, k,
    read, own, htext, hin⟩

/-- A macro is called of which the definition is copied into the body of another one. -/
def copiedMacro : String := " MACRO\n OUTER\n COPY M\n MEND\n OUTER\n INNER\n"

/-- The member with the definition. -/
def copiedMacroLibrary : Library := .ofMembers [("M", ⟨"m", " MACRO\n INNER\nX EQU 1\n MEND\n"⟩)]

/-- The nests of the body in which the macro was defined are kept, so its frame lies in the file of that body. -/
theorem frame_of_copied_macro_lies_elsewhere :
    ¬ ∀ (file text : String) (library : Library) (settings : Settings) (now : Moment) (a : Assembly) (p : Activation)
      (outer : List Activation) (s : Statement), (fresh file text library settings now).Reaches a →
        a.control = p :: outer → p.statement? = some s → ∀ c ∈ (a.moveTo p s).context.calls,
          ∃ f, c.invocation.frames.head? = some f ∧ f.location.file = c.invocation.definition.location.file := by
  intro hall
  have hrun : ((fresh "S" copiedMacro copiedMacroLibrary {} default).run 5).toOption.any fun a =>
      a.control.head?.any fun p => p.statement?.any fun s => (a.moveTo p s).context.calls.head?.any fun c =>
        decide (c.invocation.frames.head?.map (·.location.file) = some "S" ∧
          c.invocation.definition.location.file = "m") := by
    decide +kernel
  obtain ⟨a, ha, hrun⟩ := exists_of_any hrun
  simp only [Option.any_eq_true] at hrun
  obtain ⟨p, hp, s, hs, c, hcall, hrun⟩ := hrun
  obtain ⟨hframe, hfile⟩ := of_decide_eq_true hrun
  obtain ⟨outer, hcontrol⟩ := List.head?_eq_some_iff.1 hp
  obtain ⟨f, hf, hsame⟩ := hall _ _ _ _ _ a p outer s ⟨5, ha⟩ hcontrol hs c (List.mem_of_head? hcall)
  rw [hf, Option.map_some, hsame, hfile] at hframe
  exact absurd hframe (by decide)

end Assembly

end AssemblerIndex
