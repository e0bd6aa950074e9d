import AssemblerIndex.Proofs.Statement.OperandLists
import AssemblerIndex.Variable.MacroData

/-!
# Decoding of macro operands

An operand is decoded by taking off its outer parentheses and splitting what is between them, again and again.  The
outer parentheses need not belong together, as in `(A)(B)`; the text of the decoded operand is the written one all the
same, since no character is passed over.

* `ofText_enclosed` — a text in parentheses is decoded item by item;
* `Leads` — the written sub-operand that subscripts lead to;
* `text_ofText` — **the decoded operand is written as it was read**;
* `operand_decoding` — **a list of items is decoded into the decoded items**, and subscripts reach what is written
  there.
-/

namespace AssemblerIndex

theorem enclosed?_eq_some_iff {s inner : List Char} : enclosed? s = some inner ↔ s = '(' :: (inner ++ [')']) := by
  constructor
  · intro h
    unfold enclosed? at h
    split at h
    · rename_i rest
      split at h
      · rename_i hlast
        cases h
        obtain ⟨front, rfl⟩ := List.getLast?_eq_some_iff.1 hlast
        simp
      · simp at h
    · simp at h
  · rintro rfl
    simp [enclosed?]

namespace MacroData

/-! ### The text of a list -/

theorem text_append_textBehind (d : MacroData) (ds : List MacroData) :
    d.text ++ textBehind ds = listed ((d :: ds).map text) ++ [')'] := by
  induction ds generalizing d with
  | nil => simp [textBehind, listed_singleton]
  | cons d' ds ih => simp [textBehind, ih, listed_cons_cons]

theorem text_composite (items : List MacroData) :
    (composite items).text = '(' :: (listed (items.map text) ++ [')']) := by
  cases items with
  | nil => rfl
  | cons d ds => rw [text, text_append_textBehind]

/-! ### Decoding -/

theorem ofText_enclosed (inner : List Char) :
    ofText ('(' :: (inner ++ [')'])) = composite ((splitOperands inner).map ofText) := by
  have henclosed : enclosed? ('(' :: (inner ++ [')'])) = some inner := enclosed?_eq_some_iff.2 rfl
  rw [ofText, if_neg (by simp)]
  split
  · rename_i inner' h
    obtain rfl : inner = inner' := Option.some.inj (henclosed.symm.trans h)
    simp
  · rename_i h
    rw [henclosed] at h
    cases h

/-- The operand that a text stands for is written as this text. -/
theorem text_ofText (s : List Char) : (ofText s).text = s := by
  induction s using ofText.induct with
  | case1 s h =>
    rw [ofText, if_pos h]
    exact (List.isEmpty_iff.1 h).symm
  | case2 s h inner henclosed ih =>
    obtain rfl := enclosed?_eq_some_iff.1 henclosed
    have hitems : ((splitOperands inner).map ofText).map text = splitOperands inner := by
      rw [List.map_map]
      exact (List.map_congr_left fun o ho => ih o ho).trans (List.map_id _)
    rw [ofText_enclosed, text_composite, hitems, listed_splitOperands]
  | case3 s h hnone =>
    rw [ofText, if_neg h]
    split
    · simp_all
    · rfl

/-- Items with commas between them, in parentheses, are decoded one by one. -/
theorem ofText_listed {items : List (List Char)} (h : ∀ o ∈ items, IsItem o) (hne : items ≠ [[]]) :
    ofText ('(' :: (listed items ++ [')'])) = composite (items.map ofText) := by
  rw [ofText_enclosed, splitOperands_listed h hne]

/-! ### Subscripts -/

theorem subscripted_cons (d : MacroData) (i : Nat) (is : List Nat) :
    d.subscripted (i :: is) = (d.element i).subscripted is := rfl

theorem element_composite_succ (items : List MacroData) (i : Nat) :
    (composite items).element (i + 1) = items[i]?.getD .absent := by
  cases items <;> rfl

theorem subscripted_absent (is : List Nat) : absent.subscripted is = absent := by
  induction is with
  | nil => rfl
  | cons i is ih => exact ih

/-- The subscripts lead from the written operand `s` to the written operand `t`: each counts the items of a list in
parentheses, from one. -/
inductive Leads : List Nat → List Char → List Char → Prop
  | here (s : List Char) : Leads [] s s
  | item {items : List (List Char)} (h : ∀ o ∈ items, IsItem o) (hne : items ≠ [[]]) {i : Nat} {o : List Char}
      (ho : items[i]? = some o) {is : List Nat} {t : List Char} (further : Leads is o t) :
      Leads ((i + 1) :: is) ('(' :: (listed items ++ [')'])) t

theorem Leads.subscripted_ofText {is : List Nat} {s t : List Char} (h : Leads is s t) (js : List Nat) :
    (ofText s).subscripted (is ++ js) = (ofText t).subscripted js := by
  induction h with
  | here s => rfl
  | item h hne ho _ ih =>
    rw [ofText_listed h hne, List.cons_append, subscripted_cons, element_composite_succ, List.getElem?_map, ho]
    exact ih

/-- **Decoding of operands.**  Every text is written again by the operand that it stands for.  A list of items in
parentheses stands for the list of what the items stand for, so that subscripts reach the written sub-operands, and go
on from there; where no item is written they reach nothing. -/
theorem operand_decoding :
    (∀ s, (ofText s).text = s) ∧
      (∀ items : List (List Char), (∀ o ∈ items, IsItem o) → items ≠ [[]] →
        ofText ('(' :: (listed items ++ [')'])) = composite (items.map ofText) ∧
          ∀ i is, items[i]? = none → (ofText ('(' :: (listed items ++ [')']))).subscripted ((i + 1) :: is) = .absent) ∧
      ∀ is s t, Leads is s t → ∀ js, (ofText s).subscripted (is ++ js) = (ofText t).subscripted js := by
  refine ⟨text_ofText, fun items h hne => ⟨ofText_listed h hne, fun i is hnone => ?_⟩,
    fun is s t h js => h.subscripted_ofText js⟩
  rw [ofText_listed h hne, subscripted_cons, element_composite_succ, List.getElem?_map, hnone]
  exact subscripted_absent is

/-- An unmatched parenthesis in quotes, an apostrophe that opens nothing and an operand left out. -/
theorem operand_decoding_of_nested_list :
    let items := ["A".toList, "'(,'".toList, "(B,L'C)".toList, []]
    let written := "(A,'(,',(B,L'C),)".toList
    ofText written = composite (items.map ofText) ∧
      (ofText written).subscripted [3, 2] = ofText "L'C".toList ∧ (ofText written).subscripted [5] = absent := by
  intro items written
  have hitems : ∀ o ∈ items, IsItem o := by decide +kernel
  have hinner : ∀ o ∈ ["B".toList, "L'C".toList], IsItem o := by decide +kernel
  have hwritten : '(' :: (listed items ++ [')']) = written := by decide +kernel
  have hreached : '(' :: (listed ["B".toList, "L'C".toList] ++ [')']) = "(B,L'C)".toList := by decide +kernel
  have hleads : Leads [3, 2] written "L'C".toList := by
    rw [← hwritten]
    refine .item hitems (by decide) (i := 2) rfl ?_
    rw [← hreached]
    exact .item hinner (by decide) (i := 1) rfl (.here _)
  obtain ⟨hcomposite, hbehind⟩ := operand_decoding.2.1 items hitems (by decide)
  rw [hwritten] at hcomposite hbehind
  exact ⟨hcomposite, operand_decoding.2.2 _ _ _ hleads [], hbehind 4 [] rfl⟩

end MacroData

end AssemblerIndex
