import AssemblerIndex.Proofs.Statement.OccurrenceOrder

/-!
# The texts of occurrences

An occurrence names what it covers: its name is what the source says in its range, in capital letters and behind the
sign that tells its kind.

* `OccurrenceKind.sign` — what a symbol is written with in front of its name;
* `spelled_findSymbols` — the columns of a symbol found in a field spell it;
* `slice?_columns?` — and so do the columns of the line that they stand for;
* `mem_occurrences_cases` — an occurrence in a statement is found in a field, or takes up a field;
* `occurrences_name_what_they_cover` — **an occurrence on one line is named there, what is found in a field stands on
  one line, and no two occurrences in a statement share a place**.
-/

namespace AssemblerIndex

/-- What a symbol of the kind is written with in front of its name. -/
def OccurrenceKind.sign : OccurrenceKind → List Char
  | .variable_ => ['&']
  | .sequence => ['.']
  | .ordinary | .instruction | .copyMember => []

/-- A sign stays as it is in capital letters. -/
theorem OccurrenceKind.upperChars_sign_append (kind : OccurrenceKind) (name : List Char) :
    Text.upperChars (kind.sign ++ name) = kind.sign ++ Text.upperChars name := by
  rw [Text.upperChars, List.flatMap_append]
  congr 1
  cases kind <;> decide

/-! ### Pieces of a text -/

theorem slice?_eq_some {text word : List Char} {first behind : Nat} (h : slice? text first behind = some word) :
    first ≤ behind ∧ behind ≤ text.length ∧ word = (text.take behind).drop first := by
  unfold slice? at h
  split at h
  · next hbounds => exact ⟨hbounds.1, hbounds.2, (Option.some.inj h).symm⟩
  · cases h

/-- A word between two other texts is a piece of the whole. -/
theorem slice?_between (front word back : List Char) :
    slice? (front ++ word ++ back) front.length (front.length + word.length) = some word := by
  refine slice?_of_prefix (by simp) ?_
  rw [List.append_assoc, List.drop_left]
  exact List.prefix_append ..

/-- A piece of a piece of a line is a piece of the line. -/
theorem slice?_slice? {line text word : List Char} {start stop first behind : Nat}
    (htext : slice? line start stop = some text) (hword : slice? text first behind = some word) :
    slice? line (start + first) (start + behind) = some word := by
  obtain ⟨hstart, hstop, rfl⟩ := slice?_eq_some htext
  obtain ⟨hfirst, hbehind, rfl⟩ := slice?_eq_some hword
  rw [List.length_drop, List.length_take] at hbehind
  rw [slice?, if_pos ⟨by omega, by omega⟩, List.take_drop, List.drop_drop, List.take_take,
    Nat.min_eq_left (by omega)]

/-- A piece that ends in the front of a text is a piece of the front. -/
theorem slice?_of_append {front back word : List Char} {first behind : Nat}
    (h : slice? (front ++ back) first behind = some word) (hbehind : behind ≤ front.length) :
    slice? front first behind = some word := by
  obtain ⟨hfirst, -, rfl⟩ := slice?_eq_some h
  rw [slice?, if_pos ⟨hfirst, hbehind⟩, List.take_append_of_le_length hbehind]

/-! ### Symbols in a field -/

@[simp] theorem FieldScan.passed_pass (f : FieldScan) (cs : List Char) :
    (f.pass cs).passed.reverse = f.passed.reverse ++ cs := by
  simp [FieldScan.pass]

@[simp] theorem FieldScan.passed_nested (f : FieldScan) (c : Char) : (f.nested c).passed = f.passed := by
  unfold FieldScan.nested
  split
  · rfl
  · split <;> rfl

/-- The columns of the symbol in the text hold its name behind its sign. -/
def Found.SpelledIn (text : List Char) (o : Found) : Prop :=
  slice? text o.first o.behind = some (o.kind.sign ++ o.name)

/-- A symbol that takes the columns of a word is spelled by it. -/
theorem FieldScan.spelled_word (f : FieldScan) {c : Char} {rest : List Char} {kind : OccurrenceKind}
    {name : List Char} (h : kind.sign ++ name = c :: rest.takeWhile isNameChar) :
    Found.SpelledIn (f.passed.reverse ++ c :: rest)
      ⟨kind, name, f.column, f.column + (rest.takeWhile isNameChar).length + 1⟩ := by
  have := slice?_between f.passed.reverse (c :: rest.takeWhile isNameChar) (rest.dropWhile isNameChar)
  rw [List.append_assoc, List.cons_append, List.takeWhile_append_dropWhile, List.length_reverse,
    List.length_cons] at this
  rw [Found.SpelledIn, h]
  exact this

/-- The columns of every symbol that is found spell it. -/
theorem spelled_findSymbols (style : Option OperandStyle) (f : FieldScan) (s : List Char) :
    ∀ o ∈ findSymbols style f s, o.SpelledIn (f.passed.reverse ++ s) := by
  -- what stands behind a word is the rest of the same text
  have hword (g : FieldScan) (c : Char) (rest : List Char) :
      (g.pass (c :: rest.takeWhile isNameChar)).passed.reverse ++ rest.dropWhile isNameChar =
        g.passed.reverse ++ c :: rest := by
    simp
  fun_induction findSymbols style f s with
  | case1 => exact List.forall_mem_nil _
  | case2 f c rest h ih =>
    have hpassed : ({ f.pass [c] with quoted := !f.quoted } : FieldScan).passed.reverse = f.passed.reverse ++ [c] :=
      f.passed_pass [c]
    rw [hpassed, List.append_assoc] at ih
    exact ih
  | case3 f c rest h hamp ih =>
    obtain ⟨d, rest, rfl⟩ : ∃ d rest', rest = d :: rest' :=
      List.ne_nil_iff_exists_cons.1 (by rintro rfl; simp at hamp)
    obtain ⟨rfl, hd⟩ := hamp
    obtain rfl : d = '&' := by simpa using hd
    simpa using ih
  | case4 f c rest name behind found startsName h hamp hstart ih =>
    obtain ⟨rfl, -⟩ := hstart
    rw [hword] at ih
    exact List.forall_mem_cons.2 ⟨f.spelled_word rfl, ih⟩
  | case5 f c rest name behind found startsName h hamp hstart style' hstyle hquoted g hperiod ih =>
    subst hstyle
    rw [hword, FieldScan.passed_nested] at ih
    obtain ⟨rfl, -⟩ := hperiod
    exact List.forall_mem_cons.2 ⟨f.spelled_word rfl, ih⟩
  | case6 f c rest name behind found startsName h hamp hstart style' hstyle hquoted g hperiod hname hskipped ih =>
    subst hstyle
    rw [hword, FieldScan.passed_nested] at ih
    rw [if_pos (by exact hskipped)]
    exact ih
  | case7 f c rest name behind found startsName h hamp hstart style' hstyle hquoted g hperiod hname hskipped ih =>
    subst hstyle
    rw [hword, FieldScan.passed_nested] at ih
    rw [if_neg (by exact hskipped)]
    exact List.forall_mem_cons.2 ⟨f.spelled_word rfl, ih⟩
  | case8 f c rest name behind startsName h hamp hstart style' hstyle hquoted g hperiod hname hdigit ih =>
    subst hstyle
    rwa [hword, FieldScan.passed_nested] at ih
  | case9 f c rest startsName h hamp hstart style' hstyle hquoted g hperiod hname hdigit ih =>
    subst hstyle
    simpa [g] using ih
  | case10 f c rest startsName h hamp hstart hplain ih => simpa using ih

/-! ### Occurrences in the lines -/

section

variable {lines : List (List Char)} {f : Field}

/-- What the columns of a field hold stands in its first line, in the columns that they stand for. -/
theorem slice?_columns? (h : textAt? lines f.span = some f.text) {first behind : Nat} {span : Span}
    (hspan : f.columns? first behind = some span) {word : List Char} (hword : slice? f.text first behind = some word) :
    ∃ line, lines[span.start.line]? = some line ∧ slice? line span.start.column span.stop.column = some word := by
  unfold Field.columns? at hspan
  dsimp only at hspan
  split at hspan
  · cases hspan
  next hcolumns =>
  obtain rfl := Option.some.inj hspan
  unfold textAt? at h
  split at h
  next hle =>
    cases hlines : lines.drop f.span.start.line with
    | nil => simp [hlines, textThrough?] at h
    | cons line rest =>
      have hline : lines[f.span.start.line]? = some line := by
        rw [← Nat.add_zero f.span.start.line, ← List.getElem?_drop, hlines]
        rfl
      refine ⟨line, hline, ?_⟩
      rw [hlines] at h
      cases hfurther : f.span.stop.line - f.span.start.line with
      | zero =>
        rw [hfurther, textThrough?] at h
        exact slice?_slice? h hword
      | succ n =>
        rw [hfurther] at h
        simp only [textThrough?, Option.bind_eq_bind, Option.bind_eq_some_iff] at h
        obtain ⟨here, hhere, there, -, htext⟩ := h
        -- in a field that is continued the columns end within the part on the first line
        have hlength : behind ≤ here.length := by
          obtain ⟨-, hlong, rfl⟩ := slice?_eq_some hhere
          rw [List.length_drop, List.length_take]
          omega
        rw [← Option.some.inj htext] at hword
        exact slice?_slice? hhere (slice?_of_append hword hlength)
  next => cases h

/-- The line of the occurrence holds its name in its columns, in some case and behind its sign. -/
def Occurrence.SpelledIn (lines : List (List Char)) (o : Occurrence) : Prop :=
  ∃ line text, lines[o.span.start.line]? = some line ∧
    slice? line o.span.start.column o.span.stop.column = some text ∧
    Text.upperChars text = o.kind.sign ++ o.name.toList

/-- What is found in a field stands on one line. -/
theorem line_of_mem_fieldOccurrences {style : Option OperandStyle} {o : Occurrence}
    (ho : o ∈ fieldOccurrences style f) : o.span.start.line = o.span.stop.line := by
  obtain ⟨q, -, ho⟩ := List.mem_filterMap.1 ho
  obtain ⟨span, hspan, rfl⟩ := Option.map_eq_some_iff.1 ho
  unfold Field.columns? at hspan
  dsimp only at hspan
  split at hspan
  · cases hspan
  · obtain rfl := Option.some.inj hspan
    rfl

theorem spelled_fieldOccurrences (htext : f.text ≠ [] → textAt? lines f.span = some f.text)
    {style : Option OperandStyle} {o : Occurrence} (ho : o ∈ fieldOccurrences style f) : o.SpelledIn lines := by
  obtain ⟨q, hq, ho⟩ := List.mem_filterMap.1 ho
  obtain ⟨span, hspan, rfl⟩ := Option.map_eq_some_iff.1 ho
  have hne : f.text ≠ [] := by
    intro hnil
    simp [hnil, findSymbols] at hq
  obtain ⟨line, hline, hslice⟩ := slice?_columns? (htext hne) hspan (spelled_findSymbols style {} f.text q hq)
  refine ⟨line, _, hline, hslice, ?_⟩
  simp [occurrence, q.kind.upperChars_sign_append]

/-- The occurrence is what a field as a whole says. -/
structure Field.IsNamed (f : Field) (o : Occurrence) : Prop where
  span : o.span = f.span
  text : f.text ≠ [] ∧ ∃ name, f.text = o.kind.sign ++ name ∧ o.name = String.ofList (Text.upperChars name)

theorem Field.IsNamed.spelled {o : Occurrence} (h : f.IsNamed o)
    (htext : f.text ≠ [] → textAt? lines f.span = some f.text) (hline : o.span.start.line = o.span.stop.line) :
    o.SpelledIn lines := by
  obtain ⟨hspan, hne, name, hname, heq⟩ := h
  rw [hspan] at hline
  -- the whole field is a piece of the field
  have hwhole : slice? f.text 0 f.text.length = some f.text := by simp [slice?]
  have hstop : f.span.start.column + f.text.length = f.span.stop.column :=
    (columns_of_textAt? (htext hne)).elim (fun hlt => absurd hline (Nat.ne_of_lt hlt)) And.right
  have hcolumns : f.columns? 0 f.text.length = some f.span := by
    rw [Field.columns?, if_neg (fun h => h.1 hline), Nat.add_zero, hstop]
    exact congrArg (fun line => some (Span.mk f.span.start ⟨line, f.span.stop.column⟩)) hline
  obtain ⟨line, hat, hslice⟩ := slice?_columns? (htext hne) hcolumns hwhole
  refine ⟨line, f.text, hspan ▸ hat, hspan ▸ hslice, ?_⟩
  rw [hname, heq, OccurrenceKind.upperChars_sign_append, String.toList_ofList]

end

/-! ### Occurrences in a statement -/

theorem labelOccurrences_cases {f : Field} (hne : f.text ≠ []) {o : Occurrence} (ho : o ∈ labelOccurrences f) :
    o ∈ fieldOccurrences none f ∨ f.IsNamed o := by
  unfold labelOccurrences at ho
  split at ho
  · exact .inl ho
  · split at ho
    · next name htext =>
      obtain rfl := List.mem_singleton.1 ho
      exact .inr ⟨rfl, hne, name, htext, rfl⟩
    · obtain rfl := List.mem_singleton.1 ho
      exact .inr ⟨rfl, hne, f.text, rfl, rfl⟩

theorem instructionOccurrences_cases {f : Field} (hne : f.text ≠ []) {callee : Option MacroDefinition}
    {o : Occurrence} (ho : o ∈ instructionOccurrences callee f) : o ∈ fieldOccurrences none f ∨ f.IsNamed o := by
  unfold instructionOccurrences at ho
  split at ho
  · exact .inl ho
  · obtain rfl := List.mem_singleton.1 ho
    exact .inr ⟨rfl, hne, f.text, rfl, rfl⟩

theorem operandOccurrences_cases {opcode : String} {operands : List Field} {o : Occurrence}
    (ho : o ∈ operandOccurrences opcode operands) :
    ∃ f ∈ operands, o ∈ fieldOccurrences (some (operandStyle opcode)) f ∨ f.IsNamed o := by
  have hscanned (h : o ∈ operands.flatMap (fieldOccurrences (some (operandStyle opcode)))) :
      ∃ f ∈ operands, o ∈ fieldOccurrences (some (operandStyle opcode)) f ∨ f.IsNamed o := by
    obtain ⟨f, hf, ho⟩ := List.mem_flatMap.1 h
    exact ⟨f, hf, .inl ho⟩
  unfold operandOccurrences at ho
  dsimp only at ho
  split at ho
  · next first rest =>
    split at ho
    · next hcopy =>
      obtain rfl := List.mem_singleton.1 ho
      exact ⟨first, List.mem_cons_self, .inr ⟨rfl, by simpa using hcopy.2.1, first.text, rfl, rfl⟩⟩
    · exact hscanned ho
  · exact hscanned ho

section

variable {source : List Char} {s : Statement}

/-- An occurrence in a statement is found in one of its fields, or is what the field as a whole says. -/
theorem mem_occurrences_cases (hs : s ∈ statementsOf source) {callee : Option MacroDefinition} {o : Occurrence}
    (ho : o ∈ s.occurrences callee) :
    ∃ f ∈ s.fields, (∃ style, o ∈ fieldOccurrences style f) ∨ f.IsNamed o := by
  obtain ⟨hlabel, hinstruction⟩ := labels_not_empty_of_mem hs
  simp only [Statement.occurrences, List.mem_append] at ho
  simp only [Statement.fields, List.mem_append, Option.mem_toList]
  rcases ho with (ho | ho) | ho
  · cases hl : s.label with
    | none => simp [hl] at ho
    | some l =>
      rw [hl, Option.map_some, Option.getD_some] at ho
      exact ⟨l, .inl rfl, (labelOccurrences_cases (hlabel l hl) ho).imp_left fun h => ⟨_, h⟩⟩
  · cases hi : s.instruction with
    | none => simp [hi] at ho
    | some i =>
      rw [hi, Option.map_some, Option.getD_some] at ho
      exact ⟨i, .inr (.inl rfl), (instructionOccurrences_cases (hinstruction i hi) ho).imp_left fun h => ⟨_, h⟩⟩
  · obtain ⟨f, hf, h⟩ := operandOccurrences_cases ho
    exact ⟨f, .inr (.inr hf), h.imp_left fun h => ⟨_, h⟩⟩

/-- The place lies in the stretch. -/
def Span.Covers (span : Span) (p : Position) : Prop := span.start ≤ p ∧ ¬span.stop ≤ p

/-- **Occurrences name what they cover**: if an occurrence in a statement of a source begins and ends on one line, that
line holds the occurrence's name between its columns, up to case, behind an ampersand if it is a variable symbol and
behind a period if it is a sequence symbol; whatever is found in a field begins and ends on one line; and no place lies
in two occurrences in the statement. -/
theorem occurrences_name_what_they_cover (hs : s ∈ statementsOf source) (callee : Option MacroDefinition) :
    (∀ o ∈ s.occurrences callee, o.span.start.line = o.span.stop.line → o.SpelledIn (recordLines source)) ∧
      (∀ f ∈ s.fields, ∀ style, ∀ o ∈ fieldOccurrences style f, o.span.start.line = o.span.stop.line) ∧
      (s.occurrences callee).Pairwise fun o o' => ∀ p, ¬(o.span.Covers p ∧ o'.span.Covers p) := by
  refine ⟨fun o ho hline => ?_, fun f _ style o ho => line_of_mem_fieldOccurrences ho, ?_⟩
  · obtain ⟨f, hf, h⟩ := mem_occurrences_cases hs ho
    have htext := (rangesIn_of_mem hs).text f hf
    rcases h with ⟨style, hfound⟩ | hnamed
    · exact spelled_fieldOccurrences htext hfound
    · exact hnamed.spelled htext hline
  · -- of two occurrences the one in front ends before the other begins
    refine (placed_occurrences hs callee).order.imp fun {o o'} hle p hp => ?_
    exact hp.1.2 (Position.le_trans hle hp.2.1)

/-- A branch with doubled ampersands, quotes and attributes; its second operand goes on in the next line. -/
def continuedBranch : String :=
  ".here    AIF   ('&&&a'  EQ 'L''&&B' AND T'&sys  NE 'O').next,(&flag).LaX\n               st"

theorem occurrences_in_continuedBranch :
    ∃ s, s ∈ statementsOf continuedBranch.toList ∧
      (s.occurrences none).map (fun o => (o.kind, o.name, o.span.start.column, o.span.stop)) =
        [(.sequence, "HERE", 0, ⟨0, 5⟩), (.instruction, "AIF", 9, ⟨0, 12⟩), (.variable_, "A", 19, ⟨0, 21⟩),
          (.variable_, "SYS", 42, ⟨0, 46⟩), (.sequence, "NEXT", 55, ⟨0, 60⟩), (.variable_, "FLAG", 62, ⟨0, 67⟩)] ∧
      (∀ o ∈ s.occurrences none, o.span.start.line = o.span.stop.line →
        o.SpelledIn (recordLines continuedBranch.toList)) ∧
      (∀ f ∈ s.fields, ∀ style, ∀ o ∈ fieldOccurrences style f, o.span.start.line = o.span.stop.line) ∧
      (s.occurrences none).Pairwise fun o o' => ∀ p, ¬(o.span.Covers p ∧ o'.span.Covers p) := by
  obtain ⟨s, hs⟩ : ∃ s, s ∈ statementsOf continuedBranch.toList :=
    List.exists_mem_of_length_pos (by decide +kernel)
  refine ⟨s, hs, ?_, occurrences_name_what_they_cover hs none⟩
  revert s
  decide +kernel

end

end AssemblerIndex
