import AssemblerIndex.Proofs.Expression.VariableSymbols

/-!
# Reading the elements of a SET symbol

A subscripted SET symbol is read by a subscript in decimal digits, in expressions and in model statements; its number
attribute is the greatest subscript that was assigned.

* `evaluate_element`, `substitute_element` — a subscript leads to its element;
* `evaluate_number` — the number attribute.
-/

namespace AssemblerIndex.Expression

section

variable {x : Context} {name ds : List Char} {s : SetSymbol}

theorem evaluate_of_signed {c : Char} {t : List Char} {v : SetValue} (hspace : c ≠ ' ')
    (hnot : keyword? ['N', 'O', 'T'] (c :: t) = none) (h : (signed (environment x) (c :: t)).out = (v, [])) :
    evaluate x (c :: t) = v := by
  have h : (signed (environment x) (c :: t)).out = (v, skip []) := h
  exact (out_eq.1 (expression_signed_of_keyword? hspace hnot h (by simp))).1

theorem value_subscripted (subscripted : s.isScalar = false) (i : Nat) : s.value [i] = s.element i := by
  unfold SetSymbol.value
  rw [subscripted]

/-- In an expression a subscript leads to its element. -/
theorem evaluate_element (hname : IsName name) (hvisible : visibleAs x name = some (.set s))
    (subscripted : s.isScalar = false) (hds : IsSubscript ds) :
    evaluate x ('&' :: (name ++ '(' :: (ds ++ [')']))) = s.element (Nat.ofDigitChars 10 ds 0) := by
  have hopen : ∀ c ∈ ('(' :: (ds ++ [')'])).head?, isNameChar c = false := by
    rintro _ ⟨⟩
    decide
  obtain ⟨hcapital, hbehind⟩ := takeName_name hname hopen
  have hafter : after? '(' (takeName (name ++ '(' :: (ds ++ [')']))).rest = some (ds ++ [')']) := by
    rw [hbehind, after?_self]
  have hseen : (environment x).visible? (takeName (name ++ '(' :: (ds ++ [')']))).value = some (.set s) := by
    rw [hcapital]
    exact hvisible
  have htakes : (Variable.set s).takesSubscript = true := by
    rw [Variable.takesSubscript, subscripted]
    rfl
  obtain ⟨hindex, hleft⟩ := subscripts_digits (e := environment x) hds []
  obtain ⟨hvalue, hrest⟩ := reference_subscripted hafter hseen htakes hindex hleft
  refine evaluate_of_signed (by decide) (keyword?_eq_none (by decide) _ _) ?_
  rw [signed_term (by decide) (by decide) (by decide) (by decide), plainTerm]
  show ((reference (environment x) (name ++ '(' :: (ds ++ [')']))).value.value,
    skip (reference (environment x) (name ++ '(' :: (ds ++ [')']))).rest) = _
  rw [hvalue, hrest, ← value_subscripted subscripted]
  rfl

/-- In a model statement the element appears as a text. -/
theorem substitute_element (hname : IsName name) (hvisible : visibleAs x name = some (.set s))
    (subscripted : s.isScalar = false) (hds : IsSubscript ds) :
    substitute x (Segment.reference name (some ds)).written = (s.element (Nat.ofDigitChars 10 ds 0)).toText := by
  have hproper : (Segment.reference name (some ds)).Proper x := by
    refine ⟨hname, .set s, hvisible, ?_⟩
    rintro _ ⟨⟩
    refine ⟨?_, hds⟩
    rw [Variable.takesSubscript, subscripted]
    rfl
  have hread := substituteIn_writtenAll (List.forall_mem_singleton.2 hproper)
  rw [writtenAll_cons, textAll_cons, show writtenAll [] = [] from rfl, show textAll x [] = [] from rfl, List.append_nil,
    List.append_nil] at hread
  refine hread.trans ?_
  rw [← value_subscripted subscripted]
  unfold Segment.text
  dsimp only
  rw [hvisible]
  rfl

/-- The number attribute is the greatest subscript that was assigned, as a word has it. -/
theorem evaluate_number (hname : IsName name) (hvisible : visibleAs x name = some (.set s))
    (subscripted : s.isScalar = false) :
    evaluate x ('N' :: '\'' :: '&' :: name) = .arithmetic (Int32.ofNat s.maxSubscript) := by
  have hend : ∀ c ∈ ([] : List Char).head?, isNameChar c = false := by nofun
  obtain ⟨hcapital, hbehind⟩ := takeName_name hname hend
  rw [List.append_nil] at hcapital hbehind
  obtain ⟨hvalue, hrest⟩ := reference_eq (e := environment x) (s := name) (by rw [hbehind]; rfl)
  have hseen : (environment x).visible? (takeName name).value = some (.set s) := by
    rw [hcapital]
    exact hvisible
  have hattribute : attribute? ('N' :: '\'' :: '&' :: name) = some (.number, '&' :: name) := rfl
  have hkeyword : keyword? ['N', 'O', 'T'] ('N' :: '\'' :: '&' :: name) = none := by
    unfold keyword?
    cases name <;> simp
  refine evaluate_of_signed (by decide) hkeyword ?_
  rw [out_signed, skip_cons (by decide), after?_eq_none (by decide), after?_eq_none (by decide)]
  show (term (environment x) ('N' :: '\'' :: '&' :: name)).out = _
  rw [term]
  split
  · rename_i a u heq
    rw [hattribute] at heq
    cases heq
    rw [attributeValue]
    show (x.variableAttribute .number (reference (environment x) name).value.target
      (reference (environment x) name).value.subscripts, skip (reference (environment x) name).rest) = _
    rw [hvalue, hrest, hseen, hbehind]
    unfold Context.variableAttribute Variable.number
    simp [subscripted]
  · rename_i heq
    rw [hattribute] at heq
    cases heq

end

end AssemblerIndex.Expression
