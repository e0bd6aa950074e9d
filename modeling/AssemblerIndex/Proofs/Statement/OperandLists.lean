import AssemblerIndex.Proofs.Statement.OperandLayout

/-!
# Splitting operand lists

Splitting a list at its commas and writing commas between operands undo each other.  Whether an apostrophe opens a
quoted text depends on the characters next to it, but a comma keeps those of one operand from the next.

* `keepsCommas`, `IsItem` — commas stand only inside of quotes and parentheses, and nothing is left open;
* `listed_splitOperands` — the operands with commas between them are the list again, whatever it is;
* `splitOperands_listed` — a list of items is split into these items;
* `isItem_of_mem_dropLast` — whatever stands in front of a comma that splits a list is an item;
* `splitting_undoes_listing` — **splitting and listing undo each other**.
-/

namespace AssemblerIndex

/-! ### Items -/

/-- Behind `before`, where `n` is open, the text keeps its commas inside of what is open, and leaves nothing open at its
end. -/
def keepsCommas (n : Nesting) (before : List Char) : List Char → Bool
  | [] => n.isClosed
  | c :: rest => !(n.isClosed && c == ',') && keepsCommas (n.after before c rest.head?) (c :: before) rest

/-- The text, read on its own, may stand in a list: its quotes and parentheses are balanced, and commas stand only
inside of them.  A closing parenthesis that closes nothing does no harm. -/
def IsItem (text : List Char) : Prop := keepsCommas {} [] text = true

instance (text : List Char) : Decidable (IsItem text) := inferInstanceAs (Decidable (_ = _))

/-! ### Joining -/

theorem listed_cons (o : List Char) {operands : List (List Char)} (h : operands ≠ []) :
    listed (o :: operands) = o ++ ',' :: listed operands := by
  obtain ⟨o', rest, rfl⟩ := List.exists_cons_of_ne_nil h
  exact listed_cons_cons o o' rest

theorem splitOperandsFrom_ne_nil (n : Nesting) (before current s : List Char) :
    splitOperandsFrom n before current s ≠ [] := by
  induction s generalizing n before current with
  | nil => simp [splitOperandsFrom]
  | cons c rest ih =>
    unfold splitOperandsFrom
    split
    · simp
    · exact ih _ _ _

theorem listed_splitOperandsFrom (n : Nesting) (before current s : List Char) :
    listed (splitOperandsFrom n before current s) = current.reverse ++ s := by
  induction s generalizing n before current with
  | nil => simp [splitOperandsFrom, listed_singleton]
  | cons c rest ih =>
    unfold splitOperandsFrom
    split
    · rename_i hc
      rw [listed_cons _ (splitOperandsFrom_ne_nil _ _ _ _), ih, hc.1]
      rfl
    · rw [ih]
      simp

/-- The operands of a list with commas between them are the list. -/
theorem listed_splitOperands (s : List Char) : listed (splitOperands s) = s := by
  unfold splitOperands
  split
  · rename_i h
    rw [List.isEmpty_iff.1 h]
    rfl
  · exact listed_splitOperandsFrom ..

/-! ### Splitting -/

/-- An item in front of a comma or of the end goes to the operand that is being read. -/
theorem splitOperandsFrom_item {n : Nesting} {before text : List Char} (h : keepsCommas n before text = true)
    {p : List Char} (hagreed : Agreed p before text) (current : List Char) {rest : List Char}
    (hrest : ∀ c ∈ rest.head?, c = ',') :
    splitOperandsFrom n p current (text ++ rest) =
      splitOperandsFrom {} (text.reverse ++ p) (text.reverse ++ current) rest := by
  induction text generalizing n before p current with
  | nil =>
    rw [OperandScan.eq_of_isClosed h]
    rfl
  | cons c text ih =>
    rw [keepsCommas, Bool.and_eq_true] at h
    obtain ⟨hinside, hkeeps⟩ := h
    have hcomma : ¬(c = ',' ∧ n.isClosed = true) := by
      rintro ⟨rfl, hc⟩
      simp [hc] at hinside
    have hafter : n.after p c (text ++ rest).head? = n.after before c text.head? := by
      rw [List.head?_append]
      refine OperandScan.after_agreed hagreed fun d hd => ?_
      rw [hrest d hd]
      decide
    rw [List.cons_append, splitOperandsFrom, if_neg hcomma, hafter, ih hkeeps hagreed.next]
    simp

theorem splitOperandsFrom_listed {items : List (List Char)} (hne : items ≠ []) (h : ∀ o ∈ items, IsItem o)
    {p : List Char} (hp : ∀ c ∈ p.head?, c = ',' ∨ c = ' ') : splitOperandsFrom {} p [] (listed items) = items := by
  induction items generalizing p with
  | nil => exact absurd rfl hne
  | cons o items ih =>
    obtain ⟨ho, hitems⟩ := List.forall_mem_cons.1 h
    have hagreed : Agreed p [] o := OperandScan.agreed_nil hp o
    cases items with
    | nil =>
      have hread : splitOperandsFrom {} p [] (o ++ []) = _ := splitOperandsFrom_item ho hagreed [] (by simp)
      rw [List.append_nil] at hread
      rw [listed_singleton, hread]
      simp [splitOperandsFrom]
    | cons o' items =>
      rw [listed_cons_cons, splitOperandsFrom_item ho hagreed [] (by simp), splitOperandsFrom, if_pos (by decide),
        ih (List.cons_ne_nil _ _) hitems (by simp)]
      simp

/-- A list of items is split into the items.  The list of the empty text alone is none: it is written as no list is. -/
theorem splitOperands_listed {items : List (List Char)} (h : ∀ o ∈ items, IsItem o) (hne : items ≠ [[]]) :
    splitOperands (listed items) = items := by
  cases items with
  | nil => rfl
  | cons o items =>
    have hlisted : listed (o :: items) ≠ [] := by
      cases items with
      | nil =>
        rw [listed_singleton]
        rintro rfl
        exact hne rfl
      | cons o' items => simp [listed_cons_cons]
    unfold splitOperands
    rw [if_neg (by simpa using hlisted)]
    exact splitOperandsFrom_listed (List.cons_ne_nil _ _) h (by simp)

/-! ### In front of commas -/

/-- The operand that is being read keeps its commas if a comma ends it, and so do the operands between two commas. -/
theorem splitOperandsFrom_eq_cons (n : Nesting) {p before : List Char} (hagreed : ∀ ahead, Agreed p before ahead)
    (current s : List Char) :
    ∃ o rest, splitOperandsFrom n p current s = (current.reverse ++ o) :: rest ∧
      (rest ≠ [] → keepsCommas n before o = true) ∧ ∀ o' ∈ rest.dropLast, IsItem o' := by
  induction s generalizing n p before current with
  | nil => exact ⟨[], [], by simp [splitOperandsFrom], fun h => absurd rfl h, by simp⟩
  | cons c s ih =>
    by_cases hcomma : c = ',' ∧ n.isClosed = true
    · obtain ⟨rfl, hclosed⟩ := hcomma
      obtain ⟨o, rest, hsplit, hkeeps, hitems⟩ := ih n (OperandScan.agreed_nil (p := ',' :: p) (by simp)) []
      refine ⟨[], splitOperandsFrom n (',' :: p) [] s, ?_, fun _ => hclosed, ?_⟩
      · rw [splitOperandsFrom, if_pos ⟨rfl, hclosed⟩, List.append_nil]
      · rw [hsplit]
        rcases rest with _ | ⟨o', rest⟩
        · simp
        · rw [OperandScan.eq_of_isClosed hclosed] at hkeeps
          have ho : IsItem o := hkeeps (List.cons_ne_nil _ _)
          rw [List.dropLast_cons_of_ne_nil (List.cons_ne_nil _ _)]
          exact List.forall_mem_cons.2 ⟨ho, hitems⟩
    · have hbehind : ∀ ahead, Agreed (c :: p) (c :: before) ahead := fun ahead => (hagreed (c :: ahead)).next
      obtain ⟨o, rest, hsplit, hkeeps, hitems⟩ := ih (n.after p c s.head?) hbehind (c :: current)
      refine ⟨c :: o, rest, ?_, fun hrest => ?_, hitems⟩
      · rw [splitOperandsFrom, if_neg hcomma, hsplit, List.reverse_cons, List.append_assoc]
        rfl
      · -- the text goes on with the operand and the comma behind it
        have hs : s = o ++ ',' :: listed rest := by
          have hlisted := listed_splitOperandsFrom (n.after p c s.head?) (c :: p) (c :: current) s
          rw [hsplit, listed_cons _ hrest, List.append_assoc] at hlisted
          exact (List.append_cancel_left hlisted).symm
        have hafter : n.after p c s.head? = n.after before c o.head? := by
          rw [hs, List.head?_append]
          exact OperandScan.after_agreed (hagreed (c :: o)) (by simp; decide)
        rw [keepsCommas, ← hafter, hkeeps hrest, Bool.and_true]
        cases hclosed : n.isClosed <;> simp_all

/-- An operand in front of a comma is an item; the last one may leave something open. -/
theorem isItem_of_mem_dropLast {s o : List Char} (h : o ∈ (splitOperands s).dropLast) : IsItem o := by
  unfold splitOperands at h
  split at h
  · simp at h
  · obtain ⟨o', rest, hsplit, hkeeps, hitems⟩ := splitOperandsFrom_eq_cons {} (Agreed.refl []) [] s
    rw [hsplit] at h
    rcases rest with _ | ⟨o'', rest⟩
    · simp at h
    · rw [List.dropLast_cons_of_ne_nil (List.cons_ne_nil _ _)] at h
      rcases List.mem_cons.1 h with rfl | h
      · exact hkeeps (List.cons_ne_nil _ _)
      · exact hitems o h

/-- **Splitting and listing undo each other.**  The operands of a text with commas between them are the text.  The items
of a list are the operands of the list as it is written, unless it is that of the empty text alone; and only items ever
stand in front of a comma that splits a text. -/
theorem splitting_undoes_listing :
    (∀ s, listed (splitOperands s) = s) ∧
      (∀ items, items ≠ [[]] → (∀ o ∈ items, IsItem o) → splitOperands (listed items) = items) ∧
      ∀ s, ∀ o ∈ (splitOperands s).dropLast, IsItem o :=
  ⟨listed_splitOperands, fun _ hne h => splitOperands_listed h hne, fun _ _ => isItem_of_mem_dropLast⟩

/-- A quoted comma, an apostrophe that opens nothing behind a comma, commas in parentheses, a parenthesis that closes
nothing, and an item left out; then a text whose last operand leaves a quotation open. -/
theorem splitting_undoes_listing_of_apostrophes :
    let items := ["'A,L'".toList, "L'B".toList, "(C,T'D)".toList, ")".toList, []]
    splitOperands "'A,L',L'B,(C,T'D),),".toList = items ∧
      IsItem "L'B".toList ∧ ¬IsItem "'C,D".toList ∧ "L'B".toList ∈ (splitOperands "L'B,'C,D".toList).dropLast := by
  intro items
  have hitems : ∀ o ∈ items, IsItem o := by decide +kernel
  have hlisted : listed items = "'A,L',L'B,(C,T'D),),".toList := by decide +kernel
  have hmem : "L'B".toList ∈ (splitOperands "L'B,'C,D".toList).dropLast := by decide +kernel
  exact ⟨hlisted ▸ splitting_undoes_listing.2.1 items (by decide) hitems, splitting_undoes_listing.2.2 _ _ hmem,
    by decide +kernel, hmem⟩

end AssemblerIndex
