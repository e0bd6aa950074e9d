import AssemblerIndex.Expression.Substitution
import Mathlib.Data.List.Infix

/-!
# Expressions that do not ask for operation codes

The attribute `O'` says what an operation code is, and for that it looks into the table of macros.  A text in which no
such reference occurs is evaluated, and its variable symbols are replaced, without regard to operation codes
(`expression_agrees`, `substituteIn_agrees`): what is read next is always the end of what was given.
-/

namespace AssemblerIndex.Expression

/-- The surroundings of expressions are the same, except for what they know of operation codes. -/
structure Environment.SameButOpcodes (e e' : Environment) : Prop where
  visible : e.visible? = e'.visible?
  symbol : e.symbol = e'.symbol
  symbolAttribute : ∀ k, k ≠ .opcode → e.symbolAttribute k = e'.symbolAttribute k
  variableAttribute : ∀ k, k ≠ .opcode → e.variableAttribute k = e'.variableAttribute k

/-- Somewhere in the text there is a reference to the attribute of an operation code. -/
def asksOpcode (s : List Char) : Bool := s.tails.any fun t => (attribute? t).any (·.1 == .opcode)

theorem asksOpcode_of_suffix {s t : List Char} (h : asksOpcode s = false) (ht : t <:+ s) : asksOpcode t = false := by
  unfold asksOpcode at h ⊢
  rw [List.any_eq_false] at h ⊢
  intro u hu
  exact h u ((List.mem_tails ..).2 (((List.mem_tails ..).1 hu).trans ht))

theorem ne_opcode_of_attribute? {s u : List Char} {k : Attribute} (h : asksOpcode s = false)
    (hk : attribute? s = some (k, u)) : k ≠ .opcode := by
  unfold asksOpcode at h
  rw [List.any_eq_false] at h
  have hs := h s ((List.mem_tails ..).2 (List.suffix_refl _))
  rw [hk] at hs
  simpa using hs

/-! ### What is left behind a step -/

theorem suffix_takeSpaces (s : List Char) : (takeSpaces s).rest <:+ s := List.dropWhile_suffix _

theorem suffix_takeName (s : List Char) : (takeName s).rest <:+ s := List.dropWhile_suffix _

theorem suffix_takeDigits (s : List Char) : (takeDigits s).rest <:+ s := List.dropWhile_suffix _

theorem suffix_after? {c : Char} {s rest : List Char} (h : after? c s = some rest) : rest <:+ s := by
  unfold after? at h
  split at h
  · split at h
    · cases h
      exact List.suffix_cons ..
    · cases h
  · cases h

theorem suffix_takeNext (c : Char) (s : List Char) : (takeNext c s).rest <:+ s := by
  unfold takeNext
  split
  · rename_i rest h
    exact suffix_after? h
  · exact List.suffix_refl _

theorem suffix_takeChar (c : Char) (s : List Char) : (takeChar c s).rest <:+ s :=
  (suffix_takeNext c _).trans (suffix_takeSpaces s)

theorem suffix_keyword? {word s rest : List Char} (h : keyword? word s = some rest) : rest <:+ s := by
  unfold keyword? at h
  dsimp only at h
  split at h
  · cases h
    exact List.drop_suffix ..
  · cases h

theorem suffix_relation? {s rest : List Char} {r : Relation} {words : List (List Char × Relation)}
    (h : relation? s words = some (r, rest)) : rest <:+ s := by
  induction words with
  | nil => cases h
  | cons w more ih =>
    obtain ⟨word, r'⟩ := w
    unfold relation? at h
    split at h
    · rename_i hk
      cases h
      exact suffix_keyword? hk
    · exact ih h

theorem suffix_attribute? {s rest : List Char} {k : Attribute} (h : attribute? s = some (k, rest)) : rest <:+ s := by
  unfold attribute? at h
  split at h
  · split at h
    · obtain ⟨_, -, h⟩ := Option.map_eq_some_iff.1 h
      cases h
      exact (List.suffix_cons ..).trans (List.suffix_cons ..)
    · cases h
  · cases h

theorem suffix_takeWord (s : List Char) : (takeWord s).rest <:+ s := by
  unfold takeWord
  split
  · split
    · exact ((suffix_takeQuoted _).trans (List.suffix_cons ..)).trans (List.suffix_cons ..)
    · exact suffix_takeName _
  · exact suffix_takeName _

/-- The steps take the same and leave the same end of the text. -/
structure Taken.Agrees {α : Type} {s : List Char} (r r' : Taken α s) : Prop where
  same : r = r'
  suffix : r.rest <:+ s

section Agrees

variable {α β : Type} {s t : List Char}

theorem Taken.Agrees.refl {r : Taken α s} (h : r.rest <:+ s) : r.Agrees r := ⟨rfl, h⟩

theorem Taken.Agrees.widen {r r' : Taken α t} (h : r.Agrees r') (hle : t.length ≤ s.length) (ht : t <:+ s) :
    (r.widen hle).Agrees (r'.widen hle) := ⟨by rw [h.same], h.suffix.trans ht⟩

theorem Taken.Agrees.map {r r' : Taken α s} (h : r.Agrees r') (f : α → β) : (r.map f).Agrees (r'.map f) :=
  ⟨by rw [h.same], h.suffix⟩

/-- The same goes on behind the same step. -/
theorem Taken.Agrees.andThen {r r' : Taken α s} (h : r.Agrees r') {k k' : α → (t : List Char) → Taken β t}
    (hk : (k r.value r.rest).Agrees (k' r.value r.rest)) :
    ((k r.value r.rest).widen r.length_le).Agrees ((k' r'.value r'.rest).widen r'.length_le) := by
  obtain ⟨rfl, hsuffix⟩ := h
  exact hk.widen r.length_le hsuffix

end Agrees

/-! ### Expressions -/

section Expressions

variable {e e' : Environment}

mutual

theorem expression_agrees (he : e.SameButOpcodes e') (s : List Char) (hs : asksOpcode s = false) :
    (expression e s).Agrees (expression e' s) := by
  have h := conjunction_agrees he s hs
  have ht := (conjunction e s).length_le
  rw [expression, expression]
  exact h.andThen (moreDisjuncts_agrees he _ _ (asksOpcode_of_suffix hs h.suffix))
termination_by 11 * s.length + 9

theorem moreDisjuncts_agrees (he : e.SameButOpcodes e') (l : SetValue) (s : List Char) (hs : asksOpcode s = false) :
    (moreDisjuncts e l s).Agrees (moreDisjuncts e' l s) := by
  have hspaces := suffix_takeSpaces s
  rw [moreDisjuncts, moreDisjuncts]
  generalize takeSpaces s = r at hspaces ⊢
  obtain ⟨_, t, ht⟩ := r
  dsimp only at hspaces ⊢
  split
  · rename_i u hk
    have hu := length_keyword? hk (List.cons_ne_nil _ _)
    have hsu := (suffix_keyword? hk).trans hspaces
    have h := conjunction_agrees he u (asksOpcode_of_suffix hs hsu)
    have hw := (conjunction e u).length_le
    have hsw := h.suffix.trans hsu
    rw [← h.same]
    exact (moreDisjuncts_agrees he _ _ (asksOpcode_of_suffix hs hsw)).widen _ hsw
  · split
    · rename_i u hk
      have hu := length_keyword? hk (List.cons_ne_nil _ _)
      have hsu := (suffix_keyword? hk).trans hspaces
      have h := conjunction_agrees he u (asksOpcode_of_suffix hs hsu)
      have hw := (conjunction e u).length_le
      have hsw := h.suffix.trans hsu
      rw [← h.same]
      exact (moreDisjuncts_agrees he _ _ (asksOpcode_of_suffix hs hsw)).widen _ hsw
    · exact .refl hspaces
termination_by 11 * s.length + 0

theorem conjunction_agrees (he : e.SameButOpcodes e') (s : List Char) (hs : asksOpcode s = false) :
    (conjunction e s).Agrees (conjunction e' s) := by
  have h := negation_agrees he s hs
  have ht := (negation e s).length_le
  rw [conjunction, conjunction]
  exact h.andThen (moreConjuncts_agrees he _ _ (asksOpcode_of_suffix hs h.suffix))
termination_by 11 * s.length + 8

theorem moreConjuncts_agrees (he : e.SameButOpcodes e') (l : SetValue) (s : List Char) (hs : asksOpcode s = false) :
    (moreConjuncts e l s).Agrees (moreConjuncts e' l s) := by
  have hspaces := suffix_takeSpaces s
  rw [moreConjuncts, moreConjuncts]
  generalize takeSpaces s = r at hspaces ⊢
  obtain ⟨_, t, ht⟩ := r
  dsimp only at hspaces ⊢
  split
  · rename_i u hk
    have hu := length_keyword? hk (List.cons_ne_nil _ _)
    have hsu := (suffix_keyword? hk).trans hspaces
    have h := negation_agrees he u (asksOpcode_of_suffix hs hsu)
    have hw := (negation e u).length_le
    have hsw := h.suffix.trans hsu
    rw [← h.same]
    exact (moreConjuncts_agrees he _ _ (asksOpcode_of_suffix hs hsw)).widen _ hsw
  · exact .refl hspaces
termination_by 11 * s.length + 0

theorem negation_agrees (he : e.SameButOpcodes e') (s : List Char) (hs : asksOpcode s = false) :
    (negation e s).Agrees (negation e' s) := by
  have hspaces := suffix_takeSpaces s
  rw [negation, negation]
  generalize takeSpaces s = r at hspaces ⊢
  obtain ⟨_, t, ht⟩ := r
  dsimp only at hspaces ⊢
  split
  · rename_i u hk
    have hu := length_keyword? hk (List.cons_ne_nil _ _)
    have hsu := (suffix_keyword? hk).trans hspaces
    have h := negation_agrees he u (asksOpcode_of_suffix hs hsu)
    rw [← h.same]
    exact .refl (h.suffix.trans hsu)
  · exact (comparison_agrees he t (asksOpcode_of_suffix hs hspaces)).widen ht hspaces
termination_by 11 * s.length + 7

theorem comparison_agrees (he : e.SameButOpcodes e') (s : List Char) (hs : asksOpcode s = false) :
    (comparison e s).Agrees (comparison e' s) := by
  have h := sum_agrees he s hs
  rw [comparison, comparison, ← h.same]
  have hleft := h.suffix
  generalize sum e s = r at hleft ⊢
  obtain ⟨l, l', hl⟩ := r
  have hspaces := (suffix_takeSpaces l').trans hleft
  dsimp only at hspaces ⊢
  generalize takeSpaces l' = r at hspaces ⊢
  obtain ⟨_, t, ht⟩ := r
  dsimp only at hspaces ⊢
  split
  · rename_i op u hk
    have hu := length_relation? hk relationWords_ne_nil
    have hsu := (suffix_relation? hk).trans hspaces
    have h := sum_agrees he u (asksOpcode_of_suffix hs hsu)
    rw [← h.same]
    exact .refl (h.suffix.trans hsu)
  · exact .refl hspaces
termination_by 11 * s.length + 6

theorem sum_agrees (he : e.SameButOpcodes e') (s : List Char) (hs : asksOpcode s = false) :
    (sum e s).Agrees (sum e' s) := by
  have h := product_agrees he s hs
  have ht := (product e s).length_le
  rw [sum, sum]
  exact h.andThen (moreSummands_agrees he _ _ (asksOpcode_of_suffix hs h.suffix))
termination_by 11 * s.length + 5

theorem moreSummands_agrees (he : e.SameButOpcodes e') (l : SetValue) (s : List Char) (hs : asksOpcode s = false) :
    (moreSummands e l s).Agrees (moreSummands e' l s) := by
  have hspaces := suffix_takeSpaces s
  rw [moreSummands, moreSummands]
  generalize takeSpaces s = r at hspaces ⊢
  obtain ⟨_, t, ht⟩ := r
  dsimp only at hspaces ⊢
  split
  · rename_i u hk
    have hu := length_after? hk
    have hsu := (suffix_after? hk).trans hspaces
    have h := product_agrees he u (asksOpcode_of_suffix hs hsu)
    have hw := (product e u).length_le
    have hsw := h.suffix.trans hsu
    rw [← h.same]
    exact (moreSummands_agrees he _ _ (asksOpcode_of_suffix hs hsw)).widen _ hsw
  · split
    · rename_i u hk
      have hu := length_after? hk
      have hsu := (suffix_after? hk).trans hspaces
      have h := product_agrees he u (asksOpcode_of_suffix hs hsu)
      have hw := (product e u).length_le
      have hsw := h.suffix.trans hsu
      rw [← h.same]
      exact (moreSummands_agrees he _ _ (asksOpcode_of_suffix hs hsw)).widen _ hsw
    · exact .refl hspaces
termination_by 11 * s.length + 0

theorem product_agrees (he : e.SameButOpcodes e') (s : List Char) (hs : asksOpcode s = false) :
    (product e s).Agrees (product e' s) := by
  have h := signed_agrees he s hs
  have ht := (signed e s).length_le
  rw [product, product]
  exact h.andThen (moreFactors_agrees he _ _ (asksOpcode_of_suffix hs h.suffix))
termination_by 11 * s.length + 4

theorem moreFactors_agrees (he : e.SameButOpcodes e') (l : SetValue) (s : List Char) (hs : asksOpcode s = false) :
    (moreFactors e l s).Agrees (moreFactors e' l s) := by
  have hspaces := suffix_takeSpaces s
  rw [moreFactors, moreFactors]
  generalize takeSpaces s = r at hspaces ⊢
  obtain ⟨_, t, ht⟩ := r
  dsimp only at hspaces ⊢
  split
  · rename_i u hk
    have hu := length_after? hk
    have hsu := (suffix_after? hk).trans hspaces
    have h := signed_agrees he u (asksOpcode_of_suffix hs hsu)
    have hw := (signed e u).length_le
    have hsw := h.suffix.trans hsu
    rw [← h.same]
    exact (moreFactors_agrees he _ _ (asksOpcode_of_suffix hs hsw)).widen _ hsw
  · split
    · rename_i u hk
      have hu := length_after? hk
      have hsu := (suffix_after? hk).trans hspaces
      have h := signed_agrees he u (asksOpcode_of_suffix hs hsu)
      have hw := (signed e u).length_le
      have hsw := h.suffix.trans hsu
      rw [← h.same]
      exact (moreFactors_agrees he _ _ (asksOpcode_of_suffix hs hsw)).widen _ hsw
    · exact .refl hspaces
termination_by 11 * s.length + 0

theorem signed_agrees (he : e.SameButOpcodes e') (s : List Char) (hs : asksOpcode s = false) :
    (signed e s).Agrees (signed e' s) := by
  have hspaces := suffix_takeSpaces s
  rw [signed, signed]
  generalize takeSpaces s = r at hspaces ⊢
  obtain ⟨_, t, ht⟩ := r
  dsimp only at hspaces ⊢
  split
  · rename_i u hk
    have hu := length_after? hk
    have hsu := (suffix_after? hk).trans hspaces
    have h := signed_agrees he u (asksOpcode_of_suffix hs hsu)
    rw [← h.same]
    exact .refl (h.suffix.trans hsu)
  · split
    · rename_i u hk
      have hu := length_after? hk
      have hsu := (suffix_after? hk).trans hspaces
      have h := signed_agrees he u (asksOpcode_of_suffix hs hsu)
      rw [← h.same]
      exact .refl (h.suffix.trans hsu)
    · exact (term_agrees he t (asksOpcode_of_suffix hs hspaces)).widen ht hspaces
termination_by 11 * s.length + 3

theorem term_agrees (he : e.SameButOpcodes e') (s : List Char) (hs : asksOpcode s = false) :
    (term e s).Agrees (term e' s) := by
  rw [term, term]
  split
  · rename_i k u hk
    have hu := length_attribute? hk
    have hsu := suffix_attribute? hk
    exact (attributeValue_agrees he (ne_opcode_of_attribute? hs hk) u (asksOpcode_of_suffix hs hsu)).widen _ hsu
  · exact plainTerm_agrees he s hs
termination_by 11 * s.length + 2

theorem plainTerm_agrees (he : e.SameButOpcodes e') (s : List Char) (hs : asksOpcode s = false) :
    (plainTerm e s).Agrees (plainTerm e' s) := by
  have behind {c : Char} {u : List Char} (h : s = c :: u) : u <:+ s := h ▸ List.suffix_cons ..
  rw [plainTerm.eq_def, plainTerm.eq_def]
  split
  · exact .refl (List.suffix_refl _)
  · rename_i u
    have h := expression_agrees he u (asksOpcode_of_suffix hs (behind rfl))
    have hw := suffix_takeChar ')' (expression e u).rest
    dsimp only
    rw [← h.same]
    exact .refl ((hw.trans h.suffix).trans (behind rfl))
  · rename_i u
    exact ((strings_agrees he u (asksOpcode_of_suffix hs (behind rfl))).map _).widen _ (behind rfl)
  · rename_i u
    exact ((reference_agrees he u (asksOpcode_of_suffix hs (behind rfl))).map _).widen _ (behind rfl)
  · rename_i c u _ _ _
    split
    · exact .refl (suffix_takeDigits _)
    · split
      · have hword : wordValue e = wordValue e' := by
          funext w
          cases w with
          | term t => rfl
          | name n => exact congrFun he.symbol n
        rw [hword]
        exact .refl (suffix_takeWord _)
      · exact .refl (behind rfl)
termination_by 11 * s.length + 1

theorem attributeValue_agrees (he : e.SameButOpcodes e') {k : Attribute} (hk : k ≠ .opcode) (s : List Char)
    (hs : asksOpcode s = false) : (attributeValue e k s).Agrees (attributeValue e' k s) := by
  rw [attributeValue.eq_def, attributeValue.eq_def]
  split
  · rename_i u
    rw [he.variableAttribute k hk]
    exact ((reference_agrees he u (asksOpcode_of_suffix hs (List.suffix_cons ..))).map _).widen _
      (List.suffix_cons ..)
  · rw [he.symbolAttribute k hk]
    exact .refl (suffix_takeName _)
termination_by 11 * s.length + 1

theorem reference_agrees (he : e.SameButOpcodes e') (s : List Char) (hs : asksOpcode s = false) :
    (reference e s).Agrees (reference e' s) := by
  have hname := suffix_takeName s
  rw [reference, reference, he.visible]
  generalize takeName s = r at hname ⊢
  obtain ⟨name, t, ht⟩ := r
  dsimp only at hname ⊢
  split
  · rename_i u hk
    have hu := length_after? hk
    have hsu := (suffix_after? hk).trans hname
    split
    · exact ((subscripts_agrees he u (asksOpcode_of_suffix hs hsu)).map _).widen _ hsu
    · exact .refl hname
  · exact .refl hname
termination_by 11 * s.length + 1

theorem subscripts_agrees (he : e.SameButOpcodes e') (s : List Char) (hs : asksOpcode s = false) :
    (subscripts e s).Agrees (subscripts e' s) := by
  have h := expression_agrees he s hs
  rw [subscripts, subscripts, ← h.same]
  have hfirst := h.suffix
  generalize expression e s = r at hfirst ⊢
  obtain ⟨i, t, ht⟩ := r
  have hspaces := (suffix_takeSpaces t).trans hfirst
  dsimp only at hspaces ⊢
  generalize takeSpaces t = r at hspaces ⊢
  obtain ⟨_, w, hw⟩ := r
  dsimp only at hspaces ⊢
  split
  · rename_i u hk
    have hu := length_after? hk
    have hsu := (suffix_after? hk).trans hspaces
    exact ((subscripts_agrees he u (asksOpcode_of_suffix hs hsu)).map _).widen _ hsu
  · exact .refl ((suffix_takeChar ')' w).trans hspaces)
termination_by 11 * s.length + 10

theorem quoted_agrees (he : e.SameButOpcodes e') (s : List Char) (hs : asksOpcode s = false) :
    (quoted e s).Agrees (quoted e' s) := by
  rw [quoted.eq_def, quoted.eq_def]
  split
  · exact .refl (List.suffix_refl _)
  · rename_i u
    have hu := (List.suffix_cons '\'' u).trans (List.suffix_cons '\'' ('\'' :: u))
    exact ((quoted_agrees he u (asksOpcode_of_suffix hs hu)).map _).widen _ hu
  · exact .refl (List.suffix_cons ..)
  · rename_i u
    have hu := (List.suffix_cons '&' u).trans (List.suffix_cons '&' ('&' :: u))
    exact ((quoted_agrees he u (asksOpcode_of_suffix hs hu)).map _).widen _ hu
  · rename_i u _
    have hu := List.suffix_cons '&' u
    have h := reference_agrees he u (asksOpcode_of_suffix hs hu)
    have hfirst := h.suffix.trans hu
    rw [← h.same]
    generalize reference e u = r at hfirst ⊢
    obtain ⟨r, t, ht⟩ := r
    have hsw := (suffix_takeNext '.' t).trans hfirst
    dsimp only at hsw ⊢
    generalize takeNext '.' t = r at hsw ⊢
    obtain ⟨_, w, hw⟩ := r
    have hlt : w.length < ('&' :: u).length := Nat.lt_succ_of_le (Nat.le_trans hw ht)
    exact ((quoted_agrees he w (asksOpcode_of_suffix hs hsw)).map _).widen _ hsw
  · rename_i c u _ _ _ _
    have hu := List.suffix_cons c u
    exact ((quoted_agrees he u (asksOpcode_of_suffix hs hu)).map _).widen _ hu
termination_by 11 * s.length + 0

theorem substring_agrees (he : e.SameButOpcodes e') (s : List Char) (hs : asksOpcode s = false) :
    (substring e s).Agrees (substring e' s) := by
  have h := expression_agrees he s hs
  rw [substring, substring, ← h.same]
  have hfirst := h.suffix
  generalize expression e s = r at hfirst ⊢
  obtain ⟨b, t, ht⟩ := r
  have hcomma := (suffix_takeChar ',' t).trans hfirst
  dsimp only at hcomma ⊢
  generalize takeChar ',' t = r at hcomma ⊢
  obtain ⟨_, t', ht'⟩ := r
  have hspaces := (suffix_takeSpaces t').trans hcomma
  dsimp only at hspaces ⊢
  generalize takeSpaces t' = r at hspaces ⊢
  obtain ⟨_, w, hw⟩ := r
  dsimp only at hspaces ⊢
  split
  · rename_i u hk
    exact .refl (((suffix_takeChar ')' u).trans (suffix_after? hk)).trans hspaces)
  · have h := expression_agrees he w (asksOpcode_of_suffix hs hspaces)
    rw [← h.same]
    exact .refl (((suffix_takeChar ')' _).trans h.suffix).trans hspaces)
termination_by 11 * s.length + 10

theorem strings_agrees (he : e.SameButOpcodes e') (s : List Char) (hs : asksOpcode s = false) :
    (strings e s).Agrees (strings e' s) := by
  have h := quoted_agrees he s hs
  rw [strings, strings, ← h.same]
  have hfirst := h.suffix
  generalize quoted e s = r at hfirst ⊢
  obtain ⟨q, t, ht⟩ := r
  dsimp only at hfirst ⊢
  split
  · rename_i u hk
    have hu := length_after? hk
    have hsu := (suffix_after? hk).trans hfirst
    have h := substring_agrees he u (asksOpcode_of_suffix hs hsu)
    have hw := (substring e u).length_le
    have hsw := h.suffix.trans hsu
    rw [← h.same]
    exact (moreStrings_agrees he _ _ (asksOpcode_of_suffix hs hsw)).widen _ hsw
  · exact (moreStrings_agrees he _ _ (asksOpcode_of_suffix hs hfirst)).widen _ hfirst
termination_by 11 * s.length + 1

theorem moreStrings_agrees (he : e.SameButOpcodes e') (first s : List Char) (hs : asksOpcode s = false) :
    (moreStrings e first s).Agrees (moreStrings e' first s) := by
  rw [moreStrings.eq_def, moreStrings.eq_def]
  split
  · rename_i u
    have hu := (List.suffix_cons '\'' u).trans (List.suffix_cons '.' ('\'' :: u))
    exact ((strings_agrees he u (asksOpcode_of_suffix hs hu)).map _).widen _ hu
  · exact .refl (List.suffix_refl _)
termination_by 11 * s.length + 0

end

/-- **A text that does not ask for operation codes** has the same value whatever they are. -/
theorem value_expression_eq (he : e.SameButOpcodes e') {s : List Char} (hs : asksOpcode s = false) :
    (expression e s).value = (expression e' s).value := congrArg (·.value) (expression_agrees he s hs).same

/-- Variable symbols are replaced alike. -/
theorem substituteIn_eq (he : e.SameButOpcodes e') (s : List Char) (hs : asksOpcode s = false) :
    substituteIn e s = substituteIn e' s := by
  rw [substituteIn.eq_def, substituteIn.eq_def]
  split
  · rfl
  · rename_i u
    have hu := (List.suffix_cons '&' u).trans (List.suffix_cons '&' ('&' :: u))
    rw [substituteIn_eq he u (asksOpcode_of_suffix hs hu)]
  · rename_i u _
    have hu := List.suffix_cons '&' u
    split
    · have h := reference_agrees he u (asksOpcode_of_suffix hs hu)
      have hfirst := h.suffix.trans hu
      rw [← h.same]
      generalize reference e u = r at hfirst ⊢
      obtain ⟨r, t, ht⟩ := r
      dsimp only at hfirst ⊢
      split
      · have hsw := (suffix_takeNext '.' t).trans hfirst
        generalize takeNext '.' t = w at hsw ⊢
        obtain ⟨_, w, hw⟩ := w
        have hlt : w.length < ('&' :: u).length := Nat.lt_succ_of_le (Nat.le_trans hw ht)
        dsimp only at hsw ⊢
        rw [substituteIn_eq he w (asksOpcode_of_suffix hs hsw)]
      · have hlt : t.length < ('&' :: u).length := Nat.lt_succ_of_le ht
        rw [substituteIn_eq he t (asksOpcode_of_suffix hs hfirst)]
    · rw [substituteIn_eq he u (asksOpcode_of_suffix hs hu)]
  · rename_i c u _ _
    rw [substituteIn_eq he u (asksOpcode_of_suffix hs (List.suffix_cons c u))]
termination_by s.length

end Expressions

end AssemblerIndex.Expression
