import AssemblerIndex.Occurrence
import AssemblerIndex.Proofs.Statement.FieldRanges

/-!
# The order of occurrences

The symbols of a statement are found from left to right, field by field, so their stretches follow one another.

* `Lined` — symbols found one behind the other, as `lined_findSymbols` says of those in a field;
* `Field.Holds` — an occurrence takes a stretch of a field;
* `Placed` — occurrences that follow one another in their fields;
* `placed_occurrences` — **the occurrences in a statement of a source are placed in its fields**;
* `span_eq_of_start_eq` — so two of them that begin in the same place take the same stretch, whatever is called.
-/

namespace AssemblerIndex

/-! ### Symbols in a field -/

/-- The symbols are found one behind the other, in the columns from `first` on, up to `behind`. -/
structure Lined (first behind : Nat) (os : List Found) : Prop where
  within : ∀ o ∈ os, first ≤ o.first ∧ o.first < o.behind ∧ o.behind ≤ behind
  order : os.Pairwise fun o o' => o.behind ≤ o'.first

theorem Lined.nil (first behind : Nat) : Lined first behind [] := ⟨nofun, .nil⟩

theorem Lined.mono {first first' behind behind' : Nat} {os : List Found} (h : Lined first behind os)
    (hfirst : first' ≤ first) (hbehind : behind ≤ behind') : Lined first' behind' os :=
  ⟨fun o ho => by have := h.within o ho; omega, h.order⟩

theorem Lined.cons {first behind : Nat} {o : Found} {os : List Found} (ho : first ≤ o.first ∧ o.first < o.behind)
    (hbehind : o.behind ≤ behind) (h : Lined o.behind behind os) : Lined first behind (o :: os) where
  within := by
    refine List.forall_mem_cons.2 ⟨⟨ho.1, ho.2, hbehind⟩, fun q hq => ?_⟩
    have := h.within q hq
    omega
  order := List.pairwise_cons.2 ⟨fun q hq => (h.within q hq).1, h.order⟩

@[simp] theorem FieldScan.column_pass (f : FieldScan) (cs : List Char) :
    (f.pass cs).column = f.column + cs.length := by
  simp [FieldScan.pass, FieldScan.column, Nat.add_comm]

@[simp] theorem FieldScan.column_nested (f : FieldScan) (c : Char) : (f.nested c).column = f.column := by
  unfold FieldScan.nested
  split
  · rfl
  · split <;> rfl

/-- What is lined up behind a word is lined up behind the columns of that word. -/
theorem Lined.of_word {g : FieldScan} {c : Char} {rest : List Char} {os : List Found}
    (h : Lined (g.pass (c :: rest.takeWhile isNameChar)).column
      ((g.pass (c :: rest.takeWhile isNameChar)).column + (rest.dropWhile isNameChar).length) os) :
    Lined (g.column + (rest.takeWhile isNameChar).length + 1) (g.column + (c :: rest).length) os := by
  have hname : (rest.takeWhile isNameChar).length + (rest.dropWhile isNameChar).length = rest.length := by
    rw [← List.length_append, List.takeWhile_append_dropWhile]
  simp only [FieldScan.column_pass, List.length_cons] at h ⊢
  exact h.mono (by omega) (by omega)

/-- A symbol that takes the columns of a word stands before what is lined up behind that word. -/
theorem Lined.found {first : Nat} {c : Char} {rest : List Char} {os : List Found} (kind : OccurrenceKind)
    (text : List Char)
    (h : Lined (first + (rest.takeWhile isNameChar).length + 1) (first + (c :: rest).length) os) :
    Lined first (first + (c :: rest).length)
      (⟨kind, text, first, first + (rest.takeWhile isNameChar).length + 1⟩ :: os) := by
  have := (List.takeWhile_sublist isNameChar (l := rest)).length_le
  exact .cons (by simp only; omega) (by simp only [List.length_cons]; omega) h

/-- Symbols are found from left to right. -/
theorem lined_findSymbols (style : Option OperandStyle) (f : FieldScan) (s : List Char) :
    Lined f.column (f.column + s.length) (findSymbols style f s) := by
  fun_induction findSymbols style f s with
  | case1 => exact .nil ..
  | case2 f c rest h ih =>
    -- a quote is passed over and turns the quoting around
    have hcolumn : ({ f.pass [c] with quoted := !f.quoted } : FieldScan).column = f.column + 1 :=
      f.column_pass [c]
    simp only [hcolumn] at ih
    exact ih.mono (by omega) (by simp only [List.length_cons]; omega)
  | case3 f c rest h hamp ih =>
    obtain ⟨d, rest, rfl⟩ : ∃ d rest', rest = d :: rest' :=
      List.ne_nil_iff_exists_cons.1 (by rintro rfl; simp at hamp)
    simp only [FieldScan.column_pass, List.length_cons, List.length_nil, List.tail_cons] at ih ⊢
    exact ih.mono (by omega) (by omega)
  | case4 f c rest name behind found startsName h hamp hstart ih => exact ih.of_word.found ..
  | case5 f c rest name behind found startsName h hamp hstart style' hstyle hquoted g hperiod ih =>
    subst hstyle
    have := ih.of_word
    rw [FieldScan.column_nested] at this
    exact this.found ..
  | case6 f c rest name behind found startsName h hamp hstart style' hstyle hquoted g hperiod hname hskipped ih =>
    subst hstyle
    have := ih.of_word
    rw [FieldScan.column_nested] at this
    rw [if_pos (by exact hskipped)]
    exact this.mono (by omega) (by omega)
  | case7 f c rest name behind found startsName h hamp hstart style' hstyle hquoted g hperiod hname hskipped ih =>
    subst hstyle
    have := ih.of_word
    rw [FieldScan.column_nested] at this
    rw [if_neg (by exact hskipped)]
    exact this.found ..
  | case8 f c rest name behind startsName h hamp hstart style' hstyle hquoted g hperiod hname hdigit ih =>
    subst hstyle
    have := ih.of_word
    rw [FieldScan.column_nested] at this
    exact this.mono (by omega) (by omega)
  | case9 f c rest startsName h hamp hstart style' hstyle hquoted g hperiod hname hdigit ih =>
    subst hstyle
    simp only [g, FieldScan.column_pass, FieldScan.column_nested, List.length_cons, List.length_nil] at ih ⊢
    exact ih.mono (by omega) (by omega)
  | case10 f c rest startsName h hamp hstart hplain ih =>
    simp only [FieldScan.column_pass, List.length_cons, List.length_nil] at ih ⊢
    exact ih.mono (by omega) (by omega)

/-! ### Occurrences in a field -/

theorem Position.le_trans {p q r : Position} (h : p ≤ q) (h' : q ≤ r) : p ≤ r := by
  simp only [Position.le_def] at *
  omega

theorem Position.le_antisymm {p q : Position} (h : p ≤ q) (h' : q ≤ p) : p = q := by
  obtain ⟨line, column⟩ := p
  obtain ⟨line', column'⟩ := q
  simp only [Position.le_def] at h h'
  simp only [Position.mk.injEq]
  omega

/-- The text of a field that stands in the lines fits the range: it takes further lines, or as many columns as it has
characters. -/
theorem columns_of_textAt? {lines : List (List Char)} {span : Span} {text : List Char}
    (h : textAt? lines span = some text) :
    span.start.line < span.stop.line ∨
      span.start.line = span.stop.line ∧ span.start.column + text.length = span.stop.column := by
  unfold textAt? at h
  split at h
  · next hle =>
    rcases Nat.lt_or_eq_of_le hle with hlt | heq
    · exact .inl hlt
    · refine .inr ⟨heq, ?_⟩
      rw [heq, Nat.sub_self] at h
      cases hlines : lines.drop span.stop.line with
      | nil => simp [hlines, textThrough?] at h
      | cons line rest =>
        simp only [hlines, textThrough?, slice?] at h
        split at h
        · next hslice =>
          have hlength := congrArg List.length (Option.some.inj h)
          simp only [List.length_drop, List.length_take] at hlength
          omega
        · cases h
  · cases h

/-- The occurrence takes a stretch of the field. -/
structure Field.Holds (f : Field) (o : Occurrence) : Prop where
  text : f.text ≠ []
  first : f.span.start ≤ o.span.start
  last : o.span.stop ≤ f.span.stop
  proper : ¬o.span.stop ≤ o.span.start

/-- The occurrences follow one another, each in one of the fields. -/
structure Placed (fields : List Field) (os : List Occurrence) : Prop where
  held : ∀ o ∈ os, ∃ f ∈ fields, f.Holds o
  order : os.Pairwise fun o o' => o.span.stop ≤ o'.span.start

namespace Placed

variable {fields fields' : List Field} {os os' : List Occurrence}

theorem nil (fields : List Field) : Placed fields [] := ⟨nofun, .nil⟩

theorem singleton {f : Field} {o : Occurrence} (h : f.Holds o) : Placed [f] [o] where
  held := by simpa using h
  order := List.pairwise_singleton ..

theorem mono (h : Placed fields os) (hfields : fields ⊆ fields') : Placed fields' os where
  held o ho := by
    obtain ⟨f, hf, hheld⟩ := h.held o ho
    exact ⟨f, hfields hf, hheld⟩
  order := h.order

/-- What stands in later fields comes behind. -/
theorem append (h : Placed fields os) (h' : Placed fields' os')
    (hfields : ∀ f ∈ fields, ∀ f' ∈ fields', f.text ≠ [] → f.span.stop ≤ f'.span.start) :
    Placed (fields ++ fields') (os ++ os') where
  held := by
    intro o ho
    rcases List.mem_append.1 ho with ho | ho
    · exact (h.mono (List.subset_append_left ..)).held o ho
    · exact (h'.mono (List.subset_append_right ..)).held o ho
  order := by
    refine List.pairwise_append.2 ⟨h.order, h'.order, fun o ho o' ho' => ?_⟩
    obtain ⟨f, hf, hheld⟩ := h.held o ho
    obtain ⟨f', hf', hheld'⟩ := h'.held o' ho'
    exact Position.le_trans hheld.last (Position.le_trans (hfields f hf f' hf' hheld.text) hheld'.first)

end Placed

section

variable {lines : List (List Char)} {f : Field}

/-- A name that takes the whole field. -/
theorem holds_whole (htext : f.text ≠ []) (h : textAt? lines f.span = some f.text) {o : Occurrence}
    (hspan : o.span = f.span) : f.Holds o := by
  have hlength := List.length_pos_iff.2 htext
  have := columns_of_textAt? h
  constructor <;> simp only [hspan, Position.le_def, ne_eq, htext, not_false_iff, true_and] <;> omega

/-- The columns found in a field lie in its range, on its first line. -/
theorem columns?_within (h : textAt? lines f.span = some f.text) {first behind : Nat} (hbehind : behind ≤ f.text.length)
    {span : Span} (hspan : f.columns? first behind = some span) :
    span = ⟨⟨f.span.start.line, f.span.start.column + first⟩, f.span.start.line, f.span.start.column + behind⟩ ∧
      span.stop ≤ f.span.stop := by
  have := columns_of_textAt? h
  simp only [Field.columns?] at hspan
  split at hspan
  · cases hspan
  · obtain rfl := Option.some.inj hspan
    refine ⟨rfl, ?_⟩
    simp only [Position.le_def]
    omega

/-- The symbols found in a field follow one another. -/
theorem placed_fieldOccurrences (htext : f.text ≠ [] → textAt? lines f.span = some f.text)
    (style : Option OperandStyle) : Placed [f] (fieldOccurrences style f) := by
  by_cases hne : f.text = []
  · rw [fieldOccurrences, hne]
    simpa [findSymbols] using Placed.nil [f]
  have htext := htext hne
  have hlined := lined_findSymbols style {} f.text
  simp only [FieldScan.column, List.length_nil, Nat.zero_add] at hlined
  -- every occurrence takes the columns of a symbol found
  have hfound : ∀ o ∈ findSymbols style {} f.text, ∀ q,
      (f.columns? o.first o.behind).map (occurrence o.kind o.name) = some q →
        q.span = ⟨⟨f.span.start.line, f.span.start.column + o.first⟩, f.span.start.line,
          f.span.start.column + o.behind⟩ ∧ q.span.stop ≤ f.span.stop := by
    intro o ho q hq
    obtain ⟨span, hspan, rfl⟩ := Option.map_eq_some_iff.1 hq
    exact columns?_within htext (hlined.within o ho).2.2 hspan
  refine ⟨fun q hq => ⟨f, List.mem_singleton_self f, ?_⟩, List.pairwise_filterMap.2 ?_⟩
  · obtain ⟨o, ho, hq⟩ := List.mem_filterMap.1 hq
    obtain ⟨hspan, hstop⟩ := hfound o ho q hq
    have := hlined.within o ho
    refine ⟨hne, ?_, hstop, ?_⟩ <;> simp only [hspan, Position.le_def, true_and] <;> omega
  · refine hlined.order.imp_of_mem fun {o o'} ho ho' hle q hq q' hq' => ?_
    rw [(hfound o ho q hq).1, (hfound o' ho' q' hq').1]
    simp only [Position.le_def, true_and]
    omega

end

/-! ### Occurrences in a statement -/

section

variable {source : List Char} {s : Statement}

theorem labels_not_empty_of_mem (hs : s ∈ statementsOf source) :
    (∀ l ∈ s.label, l.text ≠ []) ∧ ∀ i ∈ s.instruction, i.text ≠ [] := by
  obtain ⟨row, piece, -, -, -, rfl⟩ := exists_piece_of_mem hs
  exact ⟨fun l hl => text_ne_nil_of_fieldOf? hl, fun i hi => text_ne_nil_of_fieldOf? hi⟩

/-- The place of a statement lies in its lines. -/
theorem position_line_of_mem (hs : s ∈ statementsOf source) :
    s.span.start.line ≤ s.position.line ∧ s.position.line ≤ s.span.stop.line := by
  have hranges := rangesIn_of_mem hs
  unfold Statement.position
  split
  · next f hf =>
    have hmem : f ∈ s.fields := by simp [Statement.fields, hf]
    have hlines := columns_of_textAt? (hranges.text f hmem ((labels_not_empty_of_mem hs).2 f hf))
    obtain ⟨hstart, hstop⟩ := hranges.inside f hmem
    simp only [Position.le_def] at hstart hstop
    omega
  · exact ⟨Nat.le_refl _, hranges.lines.1⟩

/-- Two statements of a source that take up the same line are one. -/
theorem eq_of_line {t : Statement} (hs : s ∈ statementsOf source) (ht : t ∈ statementsOf source) {line : Nat}
    (hline : s.span.start.line ≤ line ∧ line ≤ s.span.stop.line)
    (hline' : t.span.start.line ≤ line ∧ line ≤ t.span.stop.line) : s = t := by
  have hdiffer := (pairwise_line_lt_statementsOf source).imp (S := fun s t =>
    (s.span.start.line ≤ line ∧ line ≤ s.span.stop.line) → (t.span.start.line ≤ line ∧ line ≤ t.span.stop.line) → s = t)
    (fun hlt h h' => by omega)
  exact hdiffer.forall_of_forall_of_flip (fun _ _ _ _ => rfl)
    (hdiffer.imp fun heq h h' => (heq h' h).symm) hs ht hline hline'

/-- A label that is no variable symbol is one symbol, and so is an instruction. -/
theorem placed_label {lines : List (List Char)} {f : Field} (hne : f.text ≠ [])
    (htext : f.text ≠ [] → textAt? lines f.span = some f.text) : Placed [f] (labelOccurrences f) := by
  unfold labelOccurrences
  split
  · exact placed_fieldOccurrences htext none
  · split <;> exact .singleton (holds_whole hne (htext hne) rfl)

theorem placed_instruction {lines : List (List Char)} {f : Field} (hne : f.text ≠ [])
    (htext : f.text ≠ [] → textAt? lines f.span = some f.text) (callee : Option MacroDefinition) :
    Placed [f] (instructionOccurrences callee f) := by
  unfold instructionOccurrences
  split
  · exact placed_fieldOccurrences htext none
  · exact .singleton (holds_whole hne (htext hne) rfl)

theorem placed_operands {lines : List (List Char)} {operands : List Field} (opcode : String)
    (htext : ∀ f ∈ operands, f.text ≠ [] → textAt? lines f.span = some f.text)
    (hfields : operands.Pairwise fun f f' => f.text ≠ [] → f.span.stop ≤ f'.span.start) :
    Placed operands (operandOccurrences opcode operands) := by
  have hscanned : Placed operands (operands.flatMap (fieldOccurrences (some (operandStyle opcode)))) := by
    induction operands with
    | nil => exact .nil []
    | cons f rest ih =>
      obtain ⟨hf, hrest⟩ := List.forall_mem_cons.1 htext
      obtain ⟨hbefore, hfields⟩ := List.pairwise_cons.1 hfields
      refine (placed_fieldOccurrences hf _).append (ih hrest hfields) fun g hg => ?_
      rw [List.mem_singleton.1 hg]
      exact hbefore
  unfold operandOccurrences
  split
  · next first rest =>
    split
    · next hcopy =>
      have hne : first.text ≠ [] := by simpa using hcopy.2.1
      have hholds := holds_whole hne (htext first List.mem_cons_self hne) (o := occurrence .copyMember first.text _) rfl
      exact (Placed.singleton hholds).mono (by simp)
    · exact hscanned
  · exact hscanned

/-- The occurrences in a statement of a source stand in its fields, from left to right. -/
theorem placed_occurrences (hs : s ∈ statementsOf source) (callee : Option MacroDefinition) :
    Placed s.fields (s.occurrences callee) := by
  have htext := (rangesIn_of_mem hs).text
  obtain ⟨hlabel, hinstruction⟩ := labels_not_empty_of_mem hs
  have hfields := pairwise_fields_of_mem hs
  rw [Statement.fields, List.pairwise_append, List.pairwise_append] at hfields
  simp only [Statement.fields, List.forall_mem_append] at htext
  obtain ⟨hlabels, hinstructions, hoperands⟩ := htext
  obtain ⟨-, ⟨-, horder, hinstructionOrder⟩, hlabelOrder⟩ := hfields
  have hlabelled : Placed s.label.toList ((s.label.map labelOccurrences).getD []) := by
    cases h : s.label with
    | none => exact .nil []
    | some l => exact placed_label (hlabel l h) (hlabels l (by simp [h]))
  have hinstructed : Placed s.instruction.toList ((s.instruction.map (instructionOccurrences callee)).getD []) := by
    cases h : s.instruction with
    | none => exact .nil []
    | some i => exact placed_instruction (hinstruction i h) (hinstructions i (by simp [h])) callee
  rw [Statement.occurrences, List.append_assoc]
  exact hlabelled.append (hinstructed.append (placed_operands _ hoperands horder) hinstructionOrder) hlabelOrder

/-- The macro that a statement calls is all that depends on it in the occurrences. -/
theorem map_occurrences {β : Type} (f : Occurrence → β) (hf : ∀ o callee, f { o with callee } = f o) (s : Statement)
    (callee callee' : Option MacroDefinition) : (s.occurrences callee).map f = (s.occurrences callee').map f := by
  have hinstruction (i : Field) :
      (instructionOccurrences callee i).map f = (instructionOccurrences callee' i).map f := by
    unfold instructionOccurrences
    split
    · rfl
    · have hsame := (hf (occurrence .instruction i.text i.span) callee).trans (hf _ callee').symm
      exact congrArg (fun b => [b]) hsame
  cases h : s.instruction <;> simp [Statement.occurrences, h, hinstruction]

/-- Only an instruction calls a macro, and it calls the one that it was noted with. -/
theorem callee_of_mem_occurrences {s : Statement} {callee : Option MacroDefinition} {o : Occurrence}
    (ho : o ∈ s.occurrences callee) : o.callee = none ∨ o.kind = .instruction ∧ o.callee = callee := by
  have hfield (style : Option OperandStyle) (f : Field) (ho : o ∈ fieldOccurrences style f) : o.callee = none := by
    obtain ⟨q, -, hq⟩ := List.mem_filterMap.1 ho
    obtain ⟨span, -, rfl⟩ := Option.map_eq_some_iff.1 hq
    rfl
  simp only [Statement.occurrences, List.mem_append] at ho
  rcases ho with (ho | ho) | ho
  · cases hl : s.label with
    | none => simp [hl] at ho
    | some l =>
      simp only [hl, Option.map_some, Option.getD_some, labelOccurrences] at ho
      split at ho
      · exact .inl (hfield _ _ ho)
      · split at ho <;> cases List.mem_singleton.1 ho <;> exact .inl rfl
  · cases hi : s.instruction with
    | none => simp [hi] at ho
    | some i =>
      simp only [hi, Option.map_some, Option.getD_some, instructionOccurrences] at ho
      split at ho
      · exact .inl (hfield _ _ ho)
      · cases List.mem_singleton.1 ho
        exact .inr ⟨rfl, rfl⟩
  · have hscanned (ho : o ∈ s.operands.flatMap (fieldOccurrences (some (operandStyle s.opcode)))) :
        o.callee = none := by
      obtain ⟨f, -, ho⟩ := List.mem_flatMap.1 ho
      exact hfield _ _ ho
    unfold operandOccurrences at ho
    dsimp only at ho
    split at ho
    · split at ho
      · cases List.mem_singleton.1 ho
        exact .inl rfl
      · exact .inl (hscanned ‹_›)
    · exact .inl (hscanned ‹_›)

/-- Two occurrences in a statement that begin in the same place take the same stretch. -/
theorem span_eq_of_start_eq (hs : s ∈ statementsOf source) {callee callee' : Option MacroDefinition}
    {o o' : Occurrence} (ho : o ∈ s.occurrences callee) (ho' : o' ∈ s.occurrences callee')
    (h : o.span.start = o'.span.start) : o.span = o'.span := by
  have hplaced := placed_occurrences hs callee
  obtain ⟨q, hq, hspan⟩ : ∃ q ∈ s.occurrences callee, q.span = o'.span := by
    rw [← List.mem_map, map_occurrences Occurrence.span (fun _ _ => rfl) s callee callee']
    exact List.mem_map_of_mem ho'
  rw [← hspan] at h ⊢
  -- of two different ones the later begins where the earlier has ended
  have hdiffer : (s.occurrences callee).Pairwise fun o o' => o.span.start = o'.span.start → o.span = o'.span := by
    refine hplaced.order.imp_of_mem fun {o o'} ho _ hle hstart => ?_
    obtain ⟨f, -, hheld⟩ := hplaced.held o ho
    exact absurd (hstart ▸ hle) hheld.proper
  exact hdiffer.forall_of_forall_of_flip (fun _ _ _ => rfl)
    (hdiffer.imp fun heq hstart => (heq hstart.symm).symm) ho hq h

/-- A place that an occurrence in a statement touches lies in the lines of the statement. -/
theorem line_of_touches (hs : s ∈ statementsOf source) {callee : Option MacroDefinition} {o : Occurrence}
    (ho : o ∈ s.occurrences callee) {p : Position} (hp : o.span.start ≤ p ∧ p ≤ o.span.stop) :
    s.span.start.line ≤ p.line ∧ p.line ≤ s.span.stop.line := by
  obtain ⟨f, hf, hheld⟩ := (placed_occurrences hs callee).held o ho
  obtain ⟨hstart, hstop⟩ := (rangesIn_of_mem hs).inside f hf
  have hfirst := Position.le_trans (Position.le_trans hstart hheld.first) hp.1
  have hlast := Position.le_trans hp.2 (Position.le_trans hheld.last hstop)
  simp only [Position.le_def] at hfirst hlast
  omega

/-- An occurrence in a statement of a source stands within the lines of the statement. -/
theorem line_of_mem_occurrences (hs : s ∈ statementsOf source) {callee : Option MacroDefinition} {o : Occurrence}
    (ho : o ∈ s.occurrences callee) :
    s.span.start.line ≤ o.span.start.line ∧ o.span.start.line ≤ s.span.stop.line := by
  obtain ⟨f, -, hheld⟩ := (placed_occurrences hs callee).held o ho
  refine line_of_touches hs ho ⟨.inr ⟨rfl, Nat.le_refl _⟩, ?_⟩
  have hproper := hheld.proper
  simp only [Position.le_def] at hproper ⊢
  omega

end

end AssemblerIndex
