import AssemblerIndex.Proofs.Expression.Cursor
import AssemblerIndex.Proofs.Expression.Reading
import AssemblerIndex.Proofs.Expression.Precedence
import Mathlib.Data.List.TakeWhile

/-!
# The cursor stays in the text

The readers with a cursor give what the readers of the front of a text give, and leave the cursor in front of the same
rest: whatever place in whatever text they start at, they end, never move the cursor back or out of the text, and take
nothing out that does not lie in the text.

Eleven nested calls for each character that is left, and ten more, are enough for them: a call inside another one has
fewer characters left, or as many and a tighter level, and there are eleven levels.

* `At` — the cursor stands in the text, in front of a text;
* `Scans` — from every such place a scanner goes forward to a place in front of another text, with a value;
* `Simulates` — the readers do so, with the values and rests of the readers of fronts, as far as some fuel goes;
* `scans_expression`, …, `scans_moreStrings` — for each reader one step more, and `simulates` for any fuel;
* `length_term_cons` — a term takes its first character;
* **`cursor_stays_in_text`** — every reader ends, in the text and not before its start.
-/

namespace AssemblerIndex.Expression

/-- The cursor at `k` stands in the text, in front of `s`. -/
structure At (text : List Char) (k : Nat) (s : List Char) : Prop where
  le : k ≤ text.length
  drop : text.drop k = s

namespace At

variable {text s t : List Char} {k : Nat}

theorem length (h : At text k s) : k + s.length = text.length := by
  rw [← h.drop, List.length_drop]
  exact Nat.add_sub_cancel' h.le

theorem getElem? (h : At text k s) (i : Nat) : text[k + i]? = s[i]? := by rw [← h.drop, List.getElem?_drop]

theorem advance (h : At text k (s ++ t)) : At text (k + s.length) t := by
  have hlength := h.length
  rw [List.length_append] at hlength
  refine ⟨by omega, ?_⟩
  rw [← List.drop_drop, h.drop, List.drop_left]

theorem of_getElem? {c : Char} (h : text[k]? = some c) : At text k (c :: text.drop (k + 1)) := by
  obtain ⟨hlt, hc⟩ := List.getElem?_eq_some_iff.1 h
  exact ⟨Nat.le_of_lt hlt, hc ▸ List.drop_eq_getElem_cons hlt⟩

/-- What stands between two places of the cursor. -/
theorem stretch {k' : Nat} (h : At text k (s ++ t)) (h' : At text k' t) :
    Scanner.stretch text k k' = (pure s : Scanner (List Char)) := by
  have hlength := h.length
  have hlength' := h'.length
  rw [List.length_append] at hlength
  have hbetween : k' - k = s.length := by omega
  rw [Scanner.stretch, if_pos ⟨by omega, h'.le⟩, h.drop, hbetween, List.take_left]

end At

/-- In front of `s` the scanner gives `a` and moves the cursor, forward and within the text, until it stands in front of
`t`. -/
def Scans (text : List Char) {α : Type} (m : Scanner α) (s : List Char) (a : α) (t : List Char) : Prop :=
  ∀ k, At text k s → ∃ k', m.run k = some (a, k') ∧ k ≤ k' ∧ At text k' t

section Steps

/-! ### Steps -/

variable {text s t u : List Char} {α β : Type} {m : Scanner α} {a : α} {b : β} {fuel : Nat}

theorem Scans.pure (a : α) (s : List Char) : Scans text (Pure.pure a) s a s :=
  fun k hk => ⟨k, rfl, Nat.le_refl _, hk⟩

theorem Scans.bind {f : α → Scanner β} (hm : Scans text m s a t) (hf : Scans text (f a) t b u) :
    Scans text (m >>= f) s b u := by
  intro k hk
  obtain ⟨k', hrun, hle, hk'⟩ := hm k hk
  obtain ⟨k'', hrun', hle', hk''⟩ := hf k' hk'
  refine ⟨k'', ?_, Nat.le_trans hle hle', hk''⟩
  rw [StateT.run_bind, hrun]
  exact hrun'

/-- The place of the cursor is a place in front of `s`. -/
theorem Scans.get {f : Nat → Scanner α} (h : ∀ k, At text k s → Scans text (f k) s a t) :
    Scans text (MonadState.get >>= f) s a t :=
  fun k hk => h k hk k hk

/-- A scanner that tells `true` is gone on behind. -/
theorem Scans.yes {m : Scanner Bool} {x y : Scanner α} (hm : Scans text m s true t) (hx : Scans text x t a u) :
    Scans text (m >>= fun b => if b = true then x else y) s a u :=
  hm.bind hx

theorem Scans.no {m : Scanner Bool} {x y : Scanner α} (hm : Scans text m s false t) (hy : Scans text y t a u) :
    Scans text (m >>= fun b => if b = true then x else y) s a u :=
  hm.bind hy

theorem scans_peek (i : Nat) (s : List Char) : Scans text (Scanner.peek text i) s s[i]? s := by
  intro k hk
  refine ⟨k, ?_, Nat.le_refl _, hk⟩
  rw [← hk.getElem? i]
  rfl

theorem scans_advance (s t : List Char) : Scans text (Scanner.advance s.length) (s ++ t) () t :=
  fun _ hk => ⟨_, rfl, Nat.le_add_right .., hk.advance⟩

theorem scans_advance_one (c : Char) (s : List Char) : Scans text (Scanner.advance 1) (c :: s) () s :=
  scans_advance [c] s

theorem scans_advance_two (c d : Char) (s : List Char) : Scans text (Scanner.advance 2) (c :: d :: s) () s :=
  scans_advance [c, d] s

theorem scans_advance_drop {n : Nat} (h : n ≤ s.length) : Scans text (Scanner.advance n) s () (s.drop n) := by
  have hadvance : Scans text (Scanner.advance (s.take n).length) (s.take n ++ s.drop n) () (s.drop n) :=
    scans_advance _ _
  rwa [List.length_take_of_le h, List.take_append_drop] at hadvance

theorem scans_takeWhile (p : Char → Bool) (h : s.length < fuel) :
    Scans text (Scanner.takeWhile text p fuel) s (s.takeWhile p) (s.dropWhile p) := by
  induction s generalizing fuel with
  | nil =>
    obtain ⟨fuel, rfl⟩ := Nat.exists_eq_add_one_of_ne_zero (Nat.ne_of_gt h)
    rw [Scanner.takeWhile]
    exact (scans_peek 0 []).bind (.pure _ _)
  | cons c s ih =>
    obtain ⟨fuel, rfl⟩ := Nat.exists_eq_add_one_of_ne_zero (Nat.ne_of_gt (Nat.zero_lt_of_lt h))
    rw [Scanner.takeWhile]
    refine (scans_peek 0 (c :: s)).bind ?_
    have hfuel : s.length < fuel := Nat.lt_of_succ_lt_succ h
    cases hc : p c with
    | true =>
      rw [List.takeWhile_cons_of_pos hc, List.dropWhile_cons_of_pos hc]
      simp only [List.getElem?_cons_zero, hc, if_true]
      exact (scans_advance_one c s).bind ((ih hfuel).bind (.pure _ _))
    | false =>
      have hnot : ¬p c = true := by simp [hc]
      rw [List.takeWhile_cons_of_neg hnot, List.dropWhile_cons_of_neg hnot]
      simp only [List.getElem?_cons_zero, if_neg hnot]
      exact .pure _ _

theorem scans_spaces (h : s.length < fuel) : Scans text (Scanner.spaces text fuel) s () (takeSpaces s).rest :=
  (scans_takeWhile _ h).bind (.pure _ _)

theorem scans_name (h : s.length < fuel) :
    Scans text (Scanner.name text fuel) s (takeName s).value (takeName s).rest :=
  (scans_takeWhile _ h).bind (.pure _ _)

theorem takeSpaces_twice (s : List Char) : (takeSpaces (takeSpaces s).rest).rest = (takeSpaces s).rest := skip_skip s

theorem eq_cons_of_after? {c : Char} (h : after? c s = some u) : s = c :: u := by
  unfold after? at h
  split at h
  · split at h
    · next hc =>
      cases h
      rw [hc]
    · cases h
  · cases h

theorem exists_cons_of_getElem? {c : Char} (h : s[0]? = some c) : ∃ u, s = c :: u :=
  List.head?_eq_some_iff.1 (List.head?_eq_getElem? ▸ h)

theorem getElem?_ne_of_after? {c : Char} (h : after? c s = none) : s[0]? ≠ some c := by
  rintro hc
  obtain ⟨u, rfl⟩ := exists_cons_of_getElem? hc
  rw [after?, if_pos rfl] at h
  cases h

theorem after?_eq_none_of_forall {c : Char} (h : ∀ u, s = c :: u → False) : after? c s = none := by
  cases hc : after? c s with
  | none => rfl
  | some u => exact (h u (eq_cons_of_after? hc)).elim

theorem scans_next_some {c : Char} (h : after? c s = some u) : Scans text (Scanner.next text c) s true u := by
  obtain rfl := eq_cons_of_after? h
  refine (scans_peek 0 (c :: u)).bind ?_
  rw [if_pos (List.getElem?_cons_zero ..)]
  exact (scans_advance_one c u).bind (.pure _ _)

theorem scans_next_none {c : Char} (h : after? c s = none) : Scans text (Scanner.next text c) s false s := by
  refine (scans_peek 0 s).bind ?_
  rw [if_neg (getElem?_ne_of_after? h)]
  exact .pure _ _

/-- A character is passed if it is there, and what follows goes on without it. -/
theorem scans_next {c : Char} {x : Scanner α} (hx : Scans text x (takeNext c s).rest a u) :
    Scans text (Scanner.next text c >>= fun _ => x) s a u := by
  rw [takeNext] at hx
  split at hx
  · next h => exact (scans_next_some h).bind hx
  · next h => exact (scans_next_none h).bind hx

theorem scans_eat_some {c : Char} (hfuel : s.length < fuel) (hs : (takeSpaces s).rest = t) (h : after? c t = some u) :
    Scans text (Scanner.eat text c fuel) s true u := by
  subst hs
  exact (scans_spaces hfuel).bind (scans_next_some h)

theorem scans_eat_none {c : Char} (hfuel : s.length < fuel) (hs : (takeSpaces s).rest = t) (h : after? c t = none) :
    Scans text (Scanner.eat text c fuel) s false t := by
  subst hs
  exact (scans_spaces hfuel).bind (scans_next_none h)

theorem scans_eat {c : Char} {x : Scanner α} (hfuel : s.length < fuel)
    (hx : Scans text x (takeChar c s).rest a u) : Scans text (Scanner.eat text c fuel >>= fun _ => x) s a u := by
  have hrest : (takeChar c s).rest = (takeNext c (takeSpaces s).rest).rest := rfl
  rw [hrest, takeNext] at hx
  split at hx
  · next h => exact (scans_eat_some hfuel rfl h).bind hx
  · next h => exact (scans_eat_none hfuel rfl h).bind hx

/-- A word operator is looked for in the text behind the spaces. -/
theorem scans_eatKeyword {word : List Char} (hfuel : s.length < fuel) :
    Scans text (Scanner.eatKeyword text word fuel) s (keyword? word (takeSpaces s).rest).isSome
      ((keyword? word (takeSpaces s).rest).getD (takeSpaces s).rest) := by
  generalize hv : keyword? word (takeSpaces s).rest = v
  refine (scans_spaces hfuel).bind (Scans.get fun k hk => ?_)
  have hlength := hk.length
  rw [keyword?] at hv
  by_cases hfits : k + word.length ≤ text.length
  · rw [if_pos hfits]
    have hfront : ((takeSpaces s).rest.take word.length).length = word.length := List.length_take_of_le (by omega)
    have hsplit : At text k ((takeSpaces s).rest.take word.length ++ (takeSpaces s).rest.drop word.length) := by
      rwa [List.take_append_drop]
    have hbehind := hsplit.advance
    rw [hfront] at hbehind
    rw [hsplit.stretch hbehind, pure_bind]
    refine (scans_peek _ _).bind ?_
    rw [← List.head?_drop]
    split at hv
    · next hc =>
      subst hv
      rw [if_pos (by simpa using hc)]
      exact (scans_advance_drop (by omega)).bind (.pure _ _)
    · next hc =>
      subst hv
      rw [if_neg (by simpa using hc)]
      exact .pure _ _
  · rw [if_neg hfits]
    have hshort : ((takeSpaces s).rest.take word.length).map Char.toUpper ≠ word := by
      intro heq
      have := congrArg List.length heq
      rw [List.length_map, List.length_take] at this
      omega
    rw [if_neg (fun hc => hshort hc.1)] at hv
    subst hv
    exact .pure _ _

theorem scans_keyword_some {word : List Char} (hfuel : s.length < fuel) (hs : (takeSpaces s).rest = t)
    (h : keyword? word t = some u) : Scans text (Scanner.eatKeyword text word fuel) s true u := by
  have hword : Scans text (Scanner.eatKeyword text word fuel) s (keyword? word (takeSpaces s).rest).isSome _ :=
    scans_eatKeyword hfuel
  rwa [hs, h] at hword

theorem scans_keyword_none {word : List Char} (hfuel : s.length < fuel) (hs : (takeSpaces s).rest = t)
    (h : keyword? word t = none) : Scans text (Scanner.eatKeyword text word fuel) s false t := by
  have hword : Scans text (Scanner.eatKeyword text word fuel) s (keyword? word (takeSpaces s).rest).isSome _ :=
    scans_eatKeyword hfuel
  rwa [hs, h] at hword

theorem scans_relation_some {r : Relation} {words : List (List Char × Relation)} (hfuel : s.length < fuel)
    (h : relation? (takeSpaces s).rest words = some (r, u)) :
    Scans text (Scanner.relation text fuel words) s (some r) u := by
  induction words generalizing s with
  | nil => cases h
  | cons w more ih =>
    obtain ⟨word, r'⟩ := w
    rw [relation?] at h
    split at h
    · next rest hk =>
      cases h
      exact (scans_keyword_some hfuel rfl hk).yes (.pure _ _)
    · next hk =>
      have hskip := Nat.lt_of_le_of_lt ((takeSpaces s).length_le) hfuel
      exact (scans_keyword_none hfuel rfl hk).no (ih hskip (by rwa [takeSpaces_twice]))

theorem scans_relation_none {words : List (List Char × Relation)} (hwords : words ≠ []) (hfuel : s.length < fuel)
    (h : relation? (takeSpaces s).rest words = none) :
    Scans text (Scanner.relation text fuel words) s none (takeSpaces s).rest := by
  induction words generalizing s with
  | nil => exact absurd rfl hwords
  | cons w more ih =>
    obtain ⟨word, r⟩ := w
    rw [relation?] at h
    split at h
    · cases h
    · next hk =>
      have hskip := Nat.lt_of_le_of_lt ((takeSpaces s).length_le) hfuel
      refine (scans_keyword_none hfuel rfl hk).no ?_
      cases more with
      | nil => exact .pure _ _
      | cons w' more =>
        have hmore := ih (s := (takeSpaces s).rest) (List.cons_ne_nil _ _) hskip (by rwa [takeSpaces_twice])
        rwa [takeSpaces_twice] at hmore

theorem takeQuoted_append (s : List Char) : (takeQuoted s).value ++ (takeQuoted s).rest = s := by
  fun_induction takeQuoted s with
  | case1 s r ih => exact congrArg ('\'' :: '\'' :: ·) ih
  | case2 => rfl
  | case3 c s _ _ r ih => exact congrArg (c :: ·) ih
  | case4 => rfl

theorem scans_passQuoted (hfuel : s.length < fuel) :
    Scans text (Scanner.passQuoted text fuel) s () (takeQuoted s).rest := by
  induction s using takeQuoted.induct generalizing fuel with
  | case1 s ih =>
    obtain ⟨fuel, rfl⟩ : ∃ f, fuel = f + 1 := Nat.exists_eq_add_one_of_ne_zero (Nat.ne_zero_of_lt hfuel)
    simp only [List.length_cons] at hfuel
    rw [Scanner.passQuoted, takeQuoted]
    exact (scans_peek 0 _).bind ((scans_advance_one '\'' _).bind
      (Scans.yes (scans_next_some (after?_self '\'' s)) (ih (by omega))))
  | case2 s hs =>
    obtain ⟨fuel, rfl⟩ : ∃ f, fuel = f + 1 := Nat.exists_eq_add_one_of_ne_zero (Nat.ne_zero_of_lt hfuel)
    have hnone : after? '\'' s = none := after?_eq_none_of_forall hs
    rw [Scanner.passQuoted, takeQuoted]
    · exact (scans_peek 0 _).bind ((scans_advance_one '\'' _).bind ((scans_next_none hnone).no (.pure _ _)))
    · exact hs
  | case3 c s hpair hquote ih =>
    obtain ⟨fuel, rfl⟩ : ∃ f, fuel = f + 1 := Nat.exists_eq_add_one_of_ne_zero (Nat.ne_zero_of_lt hfuel)
    rw [Scanner.passQuoted, takeQuoted]
    · refine (scans_peek 0 _).bind ((scans_advance_one c _).bind ?_)
      rw [if_neg hquote]
      exact ih (Nat.lt_of_succ_lt_succ hfuel)
    · exact hpair
    · exact hquote
  | case4 =>
    obtain ⟨fuel, rfl⟩ : ∃ f, fuel = f + 1 := Nat.exists_eq_add_one_of_ne_zero (Nat.ne_zero_of_lt hfuel)
    rw [Scanner.passQuoted, takeQuoted]
    exact (scans_peek 0 []).bind (.pure _ _)

/-- A quoted term is taken out from its letter through its closing apostrophe. -/
theorem scans_quotedTerm (c : Char) (hfuel : s.length < fuel) :
    Scans text (Scanner.quotedTerm text fuel) (c :: '\'' :: s) (termValue (c :: '\'' :: (takeQuoted s).value))
      (takeQuoted s).rest := by
  refine Scans.get fun k hk => (scans_advance_two c '\'' s).bind ((scans_passQuoted hfuel).bind ?_)
  refine Scans.get fun k' hk' => ?_
  have hwhole : At text k ((c :: '\'' :: (takeQuoted s).value) ++ (takeQuoted s).rest) := by
    rwa [List.cons_append, List.cons_append, takeQuoted_append]
  rw [hwhole.stretch hk', pure_bind]
  exact .pure _ _

end Steps

section Readers

variable {e : Environment} {text : List Char}

/-! ### Terms by their first characters -/

/-- An attribute reference shows in three characters. -/
theorem attribute?_cons (c : Char) (u : List Char) :
    attribute? (c :: u) = (Scanner.attributeAt? c u[0]? u[1]?).map (·, u.tail) := by
  rcases u with _ | ⟨d, v⟩
  · simp [attribute?, Scanner.attributeAt?]
  · by_cases hd : d = '\''
    · subst hd
      simp only [attribute?, Scanner.attributeAt?, List.head?_eq_getElem?, List.getElem?_cons_zero,
        List.getElem?_cons_succ, true_and, List.tail_cons]
      split <;> rfl
    · have hnone : attribute? (c :: d :: v) = none := by simp [attribute?, hd]
      rw [hnone, Scanner.attributeAt?, if_neg (by simp [hd]), Option.map_none]

theorem exists_cons_of_attributeAt? {c : Char} {u : List Char} {next : Option Char} {a : Attribute}
    (h : Scanner.attributeAt? c u[0]? next = some a) : ∃ v, u = '\'' :: v := by
  unfold Scanner.attributeAt? at h
  split at h
  · next hc => exact exists_cons_of_getElem? hc.2.1
  · cases h

theorem eq_cons_of_attribute? {s u : List Char} {a : Attribute} (h : attribute? s = some (a, u)) :
    ∃ c, s = c :: '\'' :: u := by
  rcases s with _ | ⟨c, s⟩
  · cases h
  · rw [attribute?_cons] at h
    obtain ⟨b, hb, hu⟩ := Option.map_eq_some_iff.1 h
    obtain ⟨v, rfl⟩ := exists_cons_of_attributeAt? hb
    cases hu
    exact ⟨c, rfl⟩

theorem attribute?_of_not_isNameStart {c : Char} (h : isNameStart c = false) (u : List Char) :
    attribute? (c :: u) = none := by
  rw [attribute?_cons, Scanner.attributeAt?, if_neg (by simp [h]), Option.map_none]

theorem term_eq_plainTerm {s : List Char} (h : attribute? s = none) : term e s = plainTerm e s := by
  rw [term]
  split
  · rename_i heq
    rw [h] at heq
    cases heq
  · rfl

theorem term_eq_attributeValue {s u : List Char} {a : Attribute} (h : attribute? s = some (a, u)) :
    term e s = (attributeValue e a u).widen (Nat.le_of_lt (length_attribute? h)) := by
  rw [term]
  split
  · rename_i heq
    rw [h] at heq
    cases heq
    rfl
  · rename_i heq
    rw [h] at heq
    cases heq

/-- A word that is no quoted term is a name. -/
theorem takeWord_eq_takeName {c : Char} {u : List Char} (h : ¬(u[0]? = some '\'' ∧ c.toUpper ∈ ['X', 'B', 'C'])) :
    takeWord (c :: u) = (takeName (c :: u)).map .name := by
  rcases u with _ | ⟨d, v⟩
  · rfl
  · by_cases hd : d = '\''
    · subst hd
      rw [takeWord, if_neg fun hletter => h ⟨rfl, hletter⟩]
    · simp [takeWord, hd]

theorem plainTerm_eq {c : Char} (hopen : c ≠ '(') (hquote : c ≠ '\'') (hampersand : c ≠ '&') (u : List Char) :
    plainTerm e (c :: u) =
      if c.isDigit then (takeDigits (c :: u)).map termValue
      else if isNameStart c then (takeWord (c :: u)).map (wordValue e)
      else ⟨.arithmetic 0, u, length_le_cons c u⟩ := by
  rw [plainTerm]
  · exact hopen
  · exact hquote
  · exact hampersand

/-! ### Readers -/

/-- With so much fuel every reader does to a text that is short enough what the reader of fronts does. -/
structure Simulates (e : Environment) (text : List Char) (fuel : Nat) : Prop where
  -- a reader calls one with a smaller summand on what is left, or any reader on a shorter text
  expression : ∀ s, 11 * s.length + 10 < fuel →
    Scans text (Scanner.expression e text fuel) s (expression e s).value (expression e s).rest
  moreDisjuncts : ∀ l s, 11 * s.length + 1 < fuel →
    Scans text (Scanner.moreDisjuncts e text l fuel) s (moreDisjuncts e l s).value (moreDisjuncts e l s).rest
  conjunction : ∀ s, 11 * s.length + 9 < fuel →
    Scans text (Scanner.conjunction e text fuel) s (conjunction e s).value (conjunction e s).rest
  moreConjuncts : ∀ l s, 11 * s.length + 1 < fuel →
    Scans text (Scanner.moreConjuncts e text l fuel) s (moreConjuncts e l s).value (moreConjuncts e l s).rest
  negation : ∀ s, 11 * s.length + 8 < fuel →
    Scans text (Scanner.negation e text fuel) s (negation e s).value (negation e s).rest
  comparison : ∀ s, 11 * s.length + 7 < fuel →
    Scans text (Scanner.comparison e text fuel) s (comparison e s).value (comparison e s).rest
  sum : ∀ s, 11 * s.length + 6 < fuel →
    Scans text (Scanner.sum e text fuel) s (sum e s).value (sum e s).rest
  moreSummands : ∀ l s, 11 * s.length + 1 < fuel →
    Scans text (Scanner.moreSummands e text l fuel) s (moreSummands e l s).value (moreSummands e l s).rest
  product : ∀ s, 11 * s.length + 5 < fuel →
    Scans text (Scanner.product e text fuel) s (product e s).value (product e s).rest
  moreFactors : ∀ l s, 11 * s.length + 1 < fuel →
    Scans text (Scanner.moreFactors e text l fuel) s (moreFactors e l s).value (moreFactors e l s).rest
  signed : ∀ s, 11 * s.length + 4 < fuel →
    Scans text (Scanner.signed e text fuel) s (signed e s).value (signed e s).rest
  primary : ∀ s, 11 * s.length + 3 < fuel →
    Scans text (Scanner.primary e text fuel) s (term e (takeSpaces s).rest).value
      (term e (takeSpaces s).rest).rest
  attributeValue : ∀ a s, 11 * s.length + 2 < fuel →
    Scans text (Scanner.attributeValue e text a fuel) s (attributeValue e a s).value (attributeValue e a s).rest
  reference : ∀ s, 11 * s.length + 2 < fuel →
    Scans text (Scanner.reference e text fuel) ('&' :: s) (reference e s).value (reference e s).rest
  subscripts : ∀ s, 11 * s.length + 11 < fuel →
    Scans text (Scanner.subscripts e text fuel) s (subscripts e s).value (subscripts e s).rest
  quoted : ∀ s, 11 * s.length + 1 < fuel →
    Scans text (Scanner.quoted e text fuel) s (quoted e s).value (quoted e s).rest
  substring : ∀ s, 11 * s.length + 11 < fuel →
    Scans text (Scanner.substring e text fuel) s (substring e s).value (substring e s).rest
  strings : ∀ s, 11 * s.length + 2 < fuel →
    Scans text (Scanner.strings e text fuel) ('\'' :: s) (strings e s).value (strings e s).rest
  moreStrings : ∀ first s, 11 * s.length + 1 < fuel →
    Scans text (Scanner.moreStrings e text first fuel) s (moreStrings e first s).value
      (moreStrings e first s).rest

section

variable {fuel : Nat} (ih : Simulates e text fuel)

include ih

theorem scans_expression (s : List Char) (h : 11 * s.length + 10 < fuel + 1) :
    Scans text (Scanner.expression e text (fuel + 1)) s (expression e s).value (expression e s).rest := by
  have ht := (conjunction e s).length_le
  rw [Scanner.expression, expression]
  exact (ih.conjunction s (by omega)).bind (ih.moreDisjuncts _ _ (by omega))

theorem scans_moreDisjuncts (l : SetValue) (s : List Char) (h : 11 * s.length + 1 < fuel + 1) :
    Scans text (Scanner.moreDisjuncts e text l (fuel + 1)) s (moreDisjuncts e l s).value
      (moreDisjuncts e l s).rest := by
  have ht := (takeSpaces s).length_le
  rw [Scanner.moreDisjuncts, moreDisjuncts]
  dsimp only
  split
  · rename_i u hfirst
    have hu := length_keyword? hfirst (List.cons_ne_nil _ _)
    have hw := (conjunction e u).length_le
    exact (scans_keyword_some (by omega) rfl hfirst).yes
      ((ih.conjunction u (by omega)).bind (ih.moreDisjuncts _ _ (by omega)))
  · rename_i hfirst
    refine (scans_keyword_none (by omega) rfl hfirst).no ?_
    split
    · rename_i u hsecond
      have hu := length_keyword? hsecond (List.cons_ne_nil _ _)
      have hw := (conjunction e u).length_le
      exact (scans_keyword_some (by omega) (takeSpaces_twice s) hsecond).yes
        ((ih.conjunction u (by omega)).bind (ih.moreDisjuncts _ _ (by omega)))
    · rename_i hsecond
      exact (scans_keyword_none (by omega) (takeSpaces_twice s) hsecond).no (.pure _ _)

theorem scans_conjunction (s : List Char) (h : 11 * s.length + 9 < fuel + 1) :
    Scans text (Scanner.conjunction e text (fuel + 1)) s (conjunction e s).value (conjunction e s).rest := by
  have ht := (negation e s).length_le
  rw [Scanner.conjunction, conjunction]
  exact (ih.negation s (by omega)).bind (ih.moreConjuncts _ _ (by omega))

theorem scans_moreConjuncts (l : SetValue) (s : List Char) (h : 11 * s.length + 1 < fuel + 1) :
    Scans text (Scanner.moreConjuncts e text l (fuel + 1)) s (moreConjuncts e l s).value
      (moreConjuncts e l s).rest := by
  have ht := (takeSpaces s).length_le
  rw [Scanner.moreConjuncts, moreConjuncts]
  dsimp only
  split
  · rename_i u hand
    have hu := length_keyword? hand (List.cons_ne_nil _ _)
    have hw := (negation e u).length_le
    exact (scans_keyword_some (by omega) rfl hand).yes
      ((ih.negation u (by omega)).bind (ih.moreConjuncts _ _ (by omega)))
  · rename_i hand
    exact (scans_keyword_none (by omega) rfl hand).no (.pure _ _)

theorem scans_negation (s : List Char) (h : 11 * s.length + 8 < fuel + 1) :
    Scans text (Scanner.negation e text (fuel + 1)) s (negation e s).value (negation e s).rest := by
  have ht := (takeSpaces s).length_le
  rw [Scanner.negation, negation]
  dsimp only
  split
  · rename_i u hnot
    have hu := length_keyword? hnot (List.cons_ne_nil _ _)
    exact (scans_keyword_some (by omega) rfl hnot).yes
      ((ih.negation u (by omega)).bind (.pure _ _))
  · rename_i hnot
    exact (scans_keyword_none (by omega) rfl hnot).no (ih.comparison _ (by omega))

theorem scans_comparison (s : List Char) (h : 11 * s.length + 7 < fuel + 1) :
    Scans text (Scanner.comparison e text (fuel + 1)) s (comparison e s).value (comparison e s).rest := by
  have hl := (sum e s).length_le
  have ht := (takeSpaces (sum e s).rest).length_le
  rw [Scanner.comparison, comparison]
  dsimp only
  refine (ih.sum s (by omega)).bind ?_
  split
  · rename_i r u hr
    have hu := length_relation? hr relationWords_ne_nil
    exact (scans_relation_some (by omega) hr).bind
      ((ih.sum u (by omega)).bind (.pure _ _))
  · rename_i hr
    exact (scans_relation_none (List.cons_ne_nil _ _) (by omega) hr).bind (.pure _ _)

theorem scans_sum (s : List Char) (h : 11 * s.length + 6 < fuel + 1) :
    Scans text (Scanner.sum e text (fuel + 1)) s (sum e s).value (sum e s).rest := by
  have ht := (product e s).length_le
  rw [Scanner.sum, sum]
  exact (ih.product s (by omega)).bind (ih.moreSummands _ _ (by omega))

theorem scans_moreSummands (l : SetValue) (s : List Char) (h : 11 * s.length + 1 < fuel + 1) :
    Scans text (Scanner.moreSummands e text l (fuel + 1)) s (moreSummands e l s).value (moreSummands e l s).rest := by
  have ht := (takeSpaces s).length_le
  rw [Scanner.moreSummands, moreSummands]
  dsimp only
  split
  · rename_i u hfirst
    have hu := length_after? hfirst
    have hw := (product e u).length_le
    exact (scans_eat_some (by omega) rfl hfirst).yes
      ((ih.product u (by omega)).bind (ih.moreSummands _ _ (by omega)))
  · rename_i hfirst
    refine (scans_eat_none (by omega) rfl hfirst).no ?_
    split
    · rename_i u hsecond
      have hu := length_after? hsecond
      have hw := (product e u).length_le
      exact (scans_eat_some (by omega) (takeSpaces_twice s) hsecond).yes
        ((ih.product u (by omega)).bind (ih.moreSummands _ _ (by omega)))
    · rename_i hsecond
      exact (scans_eat_none (by omega) (takeSpaces_twice s) hsecond).no (.pure _ _)

theorem scans_product (s : List Char) (h : 11 * s.length + 5 < fuel + 1) :
    Scans text (Scanner.product e text (fuel + 1)) s (product e s).value (product e s).rest := by
  have ht := (signed e s).length_le
  rw [Scanner.product, product]
  exact (ih.signed s (by omega)).bind (ih.moreFactors _ _ (by omega))

theorem scans_moreFactors (l : SetValue) (s : List Char) (h : 11 * s.length + 1 < fuel + 1) :
    Scans text (Scanner.moreFactors e text l (fuel + 1)) s (moreFactors e l s).value (moreFactors e l s).rest := by
  have ht := (takeSpaces s).length_le
  rw [Scanner.moreFactors, moreFactors]
  dsimp only
  split
  · rename_i u hfirst
    have hu := length_after? hfirst
    have hw := (signed e u).length_le
    exact (scans_eat_some (by omega) rfl hfirst).yes
      ((ih.signed u (by omega)).bind (ih.moreFactors _ _ (by omega)))
  · rename_i hfirst
    refine (scans_eat_none (by omega) rfl hfirst).no ?_
    split
    · rename_i u hsecond
      have hu := length_after? hsecond
      have hw := (signed e u).length_le
      exact (scans_eat_some (by omega) (takeSpaces_twice s) hsecond).yes
        ((ih.signed u (by omega)).bind (ih.moreFactors _ _ (by omega)))
    · rename_i hsecond
      exact (scans_eat_none (by omega) (takeSpaces_twice s) hsecond).no (.pure _ _)

theorem scans_signed (s : List Char) (h : 11 * s.length + 4 < fuel + 1) :
    Scans text (Scanner.signed e text (fuel + 1)) s (signed e s).value (signed e s).rest := by
  have ht := (takeSpaces s).length_le
  rw [Scanner.signed, signed]
  dsimp only
  split
  · rename_i u hminus
    have hu := length_after? hminus
    exact (scans_eat_some (by omega) rfl hminus).yes
      ((ih.signed u (by omega)).bind (.pure _ _))
  · rename_i hminus
    refine (scans_eat_none (by omega) rfl hminus).no ?_
    split
    · rename_i u hplus
      have hu := length_after? hplus
      exact (scans_eat_some (by omega) (takeSpaces_twice s) hplus).yes
        ((ih.signed u (by omega)).bind (.pure _ _))
    · rename_i hplus
      have hterm := ih.primary (takeSpaces s).rest (by omega)
      rw [takeSpaces_twice] at hterm
      exact (scans_eat_none (by omega) (takeSpaces_twice s) hplus).no hterm

theorem scans_primary (s : List Char) (h : 11 * s.length + 3 < fuel + 1) :
    Scans text (Scanner.primary e text (fuel + 1)) s (term e (takeSpaces s).rest).value
      (term e (takeSpaces s).rest).rest := by
  have ht := (takeSpaces s).length_le
  rw [Scanner.primary]
  refine (scans_spaces (by omega)).bind ?_
  generalize (takeSpaces s).rest = t at ht ⊢
  refine (scans_peek 0 t).bind ?_
  rcases t with _ | ⟨c, u⟩
  · rw [term_eq_plainTerm rfl, plainTerm]
    exact .pure _ _
  have hu : u.length + 1 ≤ s.length := ht
  simp only [List.getElem?_cons_zero]
  by_cases hopen : c = '('
  · have hw := (expression e u).length_le
    subst hopen
    rw [if_pos rfl, term_eq_plainTerm (attribute?_of_not_isNameStart rfl u), plainTerm]
    exact (scans_advance_one '(' u).bind ((ih.expression u (by omega)).bind (scans_eat (by omega) (.pure _ _)))
  rw [if_neg hopen]
  by_cases hquote : c = '\''
  · subst hquote
    rw [if_pos rfl, term_eq_plainTerm (attribute?_of_not_isNameStart rfl u), plainTerm]
    exact (ih.strings u (by omega)).bind (.pure _ _)
  rw [if_neg hquote]
  by_cases hampersand : c = '&'
  · subst hampersand
    rw [if_pos rfl, term_eq_plainTerm (attribute?_of_not_isNameStart rfl u), plainTerm]
    exact (ih.reference u (by omega)).bind (.pure _ _)
  rw [if_neg hampersand]
  have hplain := plainTerm_eq (e := e) hopen hquote hampersand u
  by_cases hdigit : c.isDigit = true
  · rw [if_pos hdigit, term_eq_plainTerm (attribute?_of_not_isNameStart (not_isNameStart_of_isDigit hdigit) u), hplain,
      if_pos hdigit]
    exact (scans_takeWhile _ (by rw [List.length_cons]; omega)).bind (.pure _ _)
  rw [if_neg hdigit]
  rw [if_neg hdigit] at hplain
  by_cases hname : isNameStart c = true
  · rw [if_pos hname]
    rw [if_pos hname] at hplain
    refine (scans_peek 1 _).bind ((scans_peek 2 _).bind ?_)
    simp only [List.getElem?_cons_succ]
    have hattribute := attribute?_cons c u
    cases ha : Scanner.attributeAt? c u[0]? u[1]? with
    | some a =>
      obtain ⟨v, rfl⟩ := exists_cons_of_attributeAt? ha
      have hv : v.length + 2 ≤ s.length := hu
      rw [ha] at hattribute
      rw [term_eq_attributeValue hattribute]
      exact (scans_advance_two c '\'' v).bind (ih.attributeValue a v (by omega))
    | none =>
      rw [ha] at hattribute
      rw [term_eq_plainTerm hattribute, hplain]
      by_cases hterm : u[0]? = some '\'' ∧ c.toUpper ∈ ['X', 'B', 'C']
      · obtain ⟨v, rfl⟩ := exists_cons_of_getElem? hterm.1
        have hv : v.length + 2 ≤ s.length := hu
        simp only [if_pos hterm]
        rw [takeWord, if_pos hterm.2]
        exact scans_quotedTerm c (by omega)
      · simp only [if_neg hterm]
        rw [takeWord_eq_takeName hterm]
        exact (scans_name (by rw [List.length_cons]; omega)).bind (.pure _ _)
  · rw [if_neg hname, term_eq_plainTerm (attribute?_of_not_isNameStart (by simpa using hname) u), hplain, if_neg hname]
    exact (scans_advance_one c u).bind (.pure _ _)

theorem scans_attributeValue (a : Attribute) (s : List Char) (h : 11 * s.length + 2 < fuel + 1) :
    Scans text (Scanner.attributeValue e text a (fuel + 1)) s (attributeValue e a s).value
      (attributeValue e a s).rest := by
  rw [attributeValue.eq_def]
  split
  · rename_i u
    rw [List.length_cons] at h
    rw [Scanner.attributeValue]
    refine (scans_peek 0 _).bind ?_
    rw [if_pos (List.getElem?_cons_zero ..)]
    exact (ih.reference u (by omega)).bind (.pure _ _)
  · rename_i hother
    rw [Scanner.attributeValue]
    refine (scans_peek 0 _).bind ?_
    rw [if_neg (getElem?_ne_of_after? (after?_eq_none_of_forall hother))]
    exact (scans_name (by omega)).bind (.pure _ _)

theorem scans_reference (s : List Char) (h : 11 * s.length + 2 < fuel + 1) :
    Scans text (Scanner.reference e text (fuel + 1)) ('&' :: s) (reference e s).value (reference e s).rest := by
  have ht := (takeName s).length_le
  rw [Scanner.reference]
  refine (scans_advance_one '&' s).bind ((scans_name (by omega)).bind ?_)
  rw [reference]
  dsimp only
  by_cases htakes : (e.visible? (takeName s).value).any Variable.takesSubscript = true
  · simp only [if_pos htakes]
    split
    · rename_i u hopen
      have hu := length_after? hopen
      exact (scans_next_some hopen).yes ((ih.subscripts u (by omega)).bind (.pure _ _))
    · rename_i hopen
      exact (scans_next_none hopen).no (.pure _ _)
  · simp only [if_neg htakes]
    split <;> exact .pure _ _

theorem scans_subscripts (s : List Char) (h : 11 * s.length + 11 < fuel + 1) :
    Scans text (Scanner.subscripts e text (fuel + 1)) s (subscripts e s).value (subscripts e s).rest := by
  have hi := (expression e s).length_le
  have ht := (takeSpaces (expression e s).rest).length_le
  rw [subscripts]
  dsimp only
  split
  · rename_i u hcomma
    have hu := length_after? hcomma
    rw [Scanner.subscripts]
    exact (ih.expression s (by omega)).bind
      ((scans_eat_some (by omega) rfl hcomma).yes ((ih.subscripts u (by omega)).bind (.pure _ _)))
  · rename_i hcomma
    rw [Scanner.subscripts]
    exact (ih.expression s (by omega)).bind
      ((scans_eat_none (by omega) rfl hcomma).no (scans_eat (by omega) (.pure _ _)))

theorem scans_quoted (s : List Char) (h : 11 * s.length + 1 < fuel + 1) :
    Scans text (Scanner.quoted e text (fuel + 1)) s (quoted e s).value (quoted e s).rest := by
  rw [quoted.eq_def]
  split
  · rw [Scanner.quoted]
    exact (scans_peek 0 []).bind (.pure _ _)
  · rename_i u
    simp only [List.length_cons] at h
    rw [Scanner.quoted]
    exact (scans_peek 0 _).bind ((scans_peek 1 _).bind ((scans_advance_two '\'' '\'' u).bind
      ((ih.quoted u (by omega)).bind (.pure _ _))))
  · rename_i u hsingle
    rw [Scanner.quoted]
    refine (scans_peek 0 _).bind ((scans_peek 1 _).bind ?_)
    rw [if_neg (show ('\'' :: u)[1]? ≠ some '\'' from getElem?_ne_of_after? (after?_eq_none_of_forall hsingle))]
    exact (scans_advance_one '\'' u).bind (.pure _ _)
  · rename_i u
    simp only [List.length_cons] at h
    rw [Scanner.quoted]
    exact (scans_peek 0 _).bind ((scans_peek 1 _).bind ((scans_advance_two '&' '&' u).bind
      ((ih.quoted u (by omega)).bind (.pure _ _))))
  · rename_i u hsingle
    have ht := (reference e u).length_le
    have hw := (takeNext '.' (reference e u).rest).length_le
    simp only [List.length_cons] at h
    rw [Scanner.quoted]
    refine (scans_peek 0 _).bind ((scans_peek 1 _).bind ?_)
    rw [if_neg (show ('&' :: u)[1]? ≠ some '&' from getElem?_ne_of_after? (after?_eq_none_of_forall hsingle))]
    exact (ih.reference u (by omega)).bind
      (scans_next ((ih.quoted _ (by omega)).bind (.pure _ _)))
  · rename_i c u hpair hquote hpair' hampersand
    simp only [List.length_cons] at h
    rw [Scanner.quoted]
    refine (scans_peek 0 _).bind ?_
    simp only [List.getElem?_cons_zero]
    rw [if_neg hquote, if_neg hampersand]
    exact (scans_advance_one c u).bind ((ih.quoted u (by omega)).bind (.pure _ _))

theorem scans_substring (s : List Char) (h : 11 * s.length + 11 < fuel + 1) :
    Scans text (Scanner.substring e text (fuel + 1)) s (substring e s).value (substring e s).rest := by
  have hb := (expression e s).length_le
  have hcomma := (takeChar ',' (expression e s).rest).length_le
  have ht := (takeSpaces (takeChar ',' (expression e s).rest).rest).length_le
  rw [substring]
  dsimp only
  split
  · rename_i u hstar
    have hu := length_after? hstar
    rw [Scanner.substring]
    exact (ih.expression s (by omega)).bind (scans_eat (by omega) ((scans_spaces (by omega)).bind
      ((scans_next_some hstar).yes (scans_eat (by omega) (.pure _ _)))))
  · rename_i hstar
    have hn := (expression e (takeSpaces (takeChar ',' (expression e s).rest).rest).rest).length_le
    rw [Scanner.substring]
    exact (ih.expression s (by omega)).bind (scans_eat (by omega) ((scans_spaces (by omega)).bind
      ((scans_next_none hstar).no ((ih.expression _ (by omega)).bind (scans_eat (by omega) (.pure _ _))))))

theorem scans_strings (s : List Char) (h : 11 * s.length + 2 < fuel + 1) :
    Scans text (Scanner.strings e text (fuel + 1)) ('\'' :: s) (strings e s).value (strings e s).rest := by
  have ht := (quoted e s).length_le
  rw [strings]
  dsimp only
  split
  · rename_i u hopen
    have hu := length_after? hopen
    have hw := (substring e u).length_le
    rw [Scanner.strings]
    exact (scans_advance_one '\'' s).bind ((ih.quoted s (by omega)).bind ((scans_next_some hopen).yes
      ((ih.substring u (by omega)).bind (ih.moreStrings _ _ (by omega)))))
  · rename_i hopen
    rw [Scanner.strings]
    exact (scans_advance_one '\'' s).bind ((ih.quoted s (by omega)).bind ((scans_next_none hopen).no
      (ih.moreStrings _ _ (by omega))))

theorem scans_moreStrings (first s : List Char) (h : 11 * s.length + 1 < fuel + 1) :
    Scans text (Scanner.moreStrings e text first (fuel + 1)) s (moreStrings e first s).value
      (moreStrings e first s).rest := by
  rw [moreStrings.eq_def]
  split
  · rename_i u
    simp only [List.length_cons] at h
    rw [Scanner.moreStrings]
    refine (scans_peek 0 _).bind ((scans_peek 1 _).bind ?_)
    rw [if_pos ⟨rfl, rfl⟩]
    exact (scans_advance_one '.' _).bind ((ih.strings u (by omega)).bind (.pure _ _))
  · rename_i hother
    have hne : ¬(s[0]? = some '.' ∧ s[1]? = some '\'') := by
      rintro ⟨hperiod, hquote⟩
      rcases s with _ | ⟨c, _ | ⟨d, u⟩⟩
      · cases hperiod
      · cases hquote
      · cases hperiod
        cases hquote
        exact hother u rfl
    rw [Scanner.moreStrings]
    refine (scans_peek 0 _).bind ((scans_peek 1 _).bind ?_)
    rw [if_neg hne]
    exact .pure _ _

end

theorem simulates (e : Environment) (text : List Char) (fuel : Nat) : Simulates e text fuel := by
  induction fuel with
  | zero => constructor <;> intros <;> omega
  | succ fuel ih =>
    exact {
      expression := scans_expression ih
      moreDisjuncts := scans_moreDisjuncts ih
      conjunction := scans_conjunction ih
      moreConjuncts := scans_moreConjuncts ih
      negation := scans_negation ih
      comparison := scans_comparison ih
      sum := scans_sum ih
      moreSummands := scans_moreSummands ih
      product := scans_product ih
      moreFactors := scans_moreFactors ih
      signed := scans_signed ih
      primary := scans_primary ih
      attributeValue := scans_attributeValue ih
      reference := scans_reference ih
      subscripts := scans_subscripts ih
      quoted := scans_quoted ih
      substring := scans_substring ih
      strings := scans_strings ih
      moreStrings := scans_moreStrings ih }

/-! ### Replacing variable symbols -/

/-- The name of an unknown variable is all that its reference takes. -/
theorem reference_unknown {s : List Char} (h : (reference e s).value.target = none) :
    (reference e s).rest = (takeName s).rest := by
  have htarget : (reference e s).value.target = e.visible? (takeName s).value := by
    rw [reference]
    dsimp only
    split
    · split <;> rfl
    · rfl
  have hnone := htarget.symm.trans h
  rw [reference]
  dsimp only
  split
  · rw [if_neg (by simp [hnone])]
  · rfl

theorem scans_substitute (s : List Char) (fuel : Nat) (h : 11 * s.length + 2 < fuel) :
    Scans text (Scanner.substitute e text fuel) s (substituteIn e s) [] := by
  induction fuel generalizing s with
  | zero => omega
  | succ fuel ih =>
    rw [substituteIn.eq_def]
    split
    · rw [Scanner.substitute]
      exact (scans_peek 0 []).bind (.pure _ _)
    · rename_i u
      simp only [List.length_cons] at h
      rw [Scanner.substitute]
      exact (scans_peek 0 _).bind ((scans_peek 1 _).bind ((scans_advance_two '&' '&' u).bind
        ((ih u (by omega)).bind (.pure _ _))))
    · rename_i u hsingle
      have ht := (reference e u).length_le
      have hw := (takeNext '.' (reference e u).rest).length_le
      simp only [List.length_cons] at h
      have hpair : ('&' :: u)[1]? ≠ some '&' := getElem?_ne_of_after? (after?_eq_none_of_forall hsingle)
      rw [List.head?_eq_getElem?, Scanner.substitute]
      refine (scans_peek 0 _).bind ?_
      simp only [List.getElem?_cons_zero]
      rw [if_pos trivial]
      refine (scans_peek 1 _).bind ?_
      rw [if_neg hpair, List.getElem?_cons_succ]
      by_cases hname : u[0]?.any isNameStart = true
      · rw [if_pos hname, if_pos hname]
        refine Scans.get fun k hk => ((simulates e text fuel).reference u (by omega)).bind ?_
        cases htarget : (reference e u).value.target with
        | some v => exact scans_next ((ih _ (by omega)).bind (.pure _ _))
        | none =>
          have hwritten : ('&' :: u.takeWhile isNameChar) ++ (reference e u).rest = '&' :: u := by
            rw [reference_unknown htarget]
            exact congrArg ('&' :: ·) List.takeWhile_append_dropWhile
          refine Scans.get fun k' hk' => ?_
          rw [← hwritten] at hk
          rw [hk.stretch hk', pure_bind]
          exact (ih _ (by omega)).bind (.pure _ _)
      · rw [if_neg hname, if_neg hname]
        exact (scans_advance_one '&' u).bind ((ih u (by omega)).bind (.pure _ _))
    · rename_i c u hpair hampersand
      simp only [List.length_cons] at h
      rw [Scanner.substitute]
      refine (scans_peek 0 _).bind ?_
      simp only [List.getElem?_cons_zero]
      rw [if_neg hampersand]
      exact (scans_advance_one c u).bind ((ih u (by omega)).bind (.pure _ _))

/-! ### A term goes forward -/

theorem isNameChar_of_isNameStart {c : Char} (h : isNameStart c = true) : isNameChar c = true := by
  rw [isNameStart, Bool.or_eq_true] at h
  rw [isNameChar, Char.isAlphanum, Bool.or_eq_true, Bool.or_eq_true]
  exact h.imp_left .inl

theorem length_takeName_cons {c : Char} (h : isNameStart c = true) (u : List Char) :
    (takeName (c :: u)).rest.length ≤ u.length := by
  have hrest : (takeName (c :: u)).rest = u.dropWhile isNameChar :=
    List.dropWhile_cons_of_pos (isNameChar_of_isNameStart h)
  rw [hrest]
  exact (List.dropWhile_sublist _).length_le

theorem length_takeWord_cons {c : Char} (h : isNameStart c = true) (u : List Char) :
    (takeWord (c :: u)).rest.length ≤ u.length := by
  by_cases hterm : u[0]? = some '\'' ∧ c.toUpper ∈ ['X', 'B', 'C']
  · obtain ⟨v, rfl⟩ := exists_cons_of_getElem? hterm.1
    rw [takeWord, if_pos hterm.2]
    exact Nat.le_succ_of_le (takeQuoted v).length_le
  · rw [takeWord_eq_takeName hterm]
    exact length_takeName_cons h u

/-- A term takes its first character, whatever that is. -/
theorem length_term_cons (c : Char) (u : List Char) : (term e (c :: u)).rest.length ≤ u.length := by
  cases ha : attribute? (c :: u) with
  | some au =>
    obtain ⟨a, v⟩ := au
    rw [term_eq_attributeValue ha]
    exact Nat.le_trans (attributeValue e a v).length_le (Nat.le_of_lt_succ (length_attribute? ha))
  | none =>
    rw [term_eq_plainTerm ha]
    by_cases hopen : c = '('
    · subst hopen
      rw [plainTerm]
      exact Nat.le_trans (takeChar ')' (expression e u).rest).length_le (expression e u).length_le
    by_cases hquote : c = '\''
    · subst hquote
      rw [plainTerm]
      exact (strings e u).length_le
    by_cases hampersand : c = '&'
    · subst hampersand
      rw [plainTerm]
      exact (reference e u).length_le
    rw [plainTerm_eq hopen hquote hampersand]
    split
    · next hdigit =>
      have hrest : (takeDigits (c :: u)).rest = u.dropWhile Char.isDigit := List.dropWhile_cons_of_pos hdigit
      exact Nat.le_trans (congrArg List.length hrest).le (List.dropWhile_sublist _).length_le
    · split
      · next hname => exact length_takeWord_cons hname u
      · exact Nat.le_refl _

theorem exists_cons_of_takeSpaces {s : List Char} {c : Char} (hc : c ∈ s) (hne : c ≠ ' ') :
    ∃ d u, (takeSpaces s).rest = d :: u := by
  refine List.exists_cons_of_ne_nil fun hnil => hne ?_
  have hall := List.dropWhile_eq_nil_iff.1 hnil c hc
  exact of_decide_eq_true hall

/-! ### Every reader ends in the text -/

/-- Started at `k`, the reader ends at `k'`, in the text and not before `k`.  It gives the value that was taken from the
front of a text, and stands in front of what was left of that text. -/
structure EndsAt {α : Type} {s : List Char} (text : List Char) (k : Nat) (scanner : Nat → Scanner α)
    (taken : Taken α s) (k' : Nat) : Prop where
  forward : k ≤ k'
  inside : k' ≤ text.length
  rest : text.drop k' = taken.rest
  run : ∀ fuel, 11 * (text.length - k) + 10 < fuel → (scanner fuel).run k = some (taken.value, k')

theorem EndsAt.lt {α : Type} {k k' : Nat} {s : List Char} {scanner : Nat → Scanner α} {taken : Taken α s}
    (h : EndsAt text k scanner taken k') (hrest : taken.rest.length < (text.drop k).length) : k < k' := by
  rw [← h.rest, List.length_drop, List.length_drop] at hrest
  omega

theorem exists_endsAt {α : Type} {k : Nat} {s t : List Char} {scanner : Nat → Scanner α} {taken : Taken α t}
    (hk : At text k s)
    (h : ∀ fuel, 11 * s.length + 10 < fuel → Scans text (scanner fuel) s taken.value taken.rest) :
    ∃ k', EndsAt text k scanner taken k' := by
  have hlength := hk.length
  obtain ⟨k', -, hforward, hk'⟩ := h (11 * s.length + 11) (by omega) k hk
  refine ⟨k', hforward, hk'.le, hk'.drop, fun fuel hfuel => ?_⟩
  obtain ⟨k'', hrun, -, hk''⟩ := h fuel (by omega) k hk
  -- both runs stand in front of the same rest, and so at one place
  have hlength' := hk'.length
  have hlength'' := hk''.length
  rwa [show k' = k'' by omega]

/-- From `k` on, no reader moves the cursor back or out of the text. -/
structure StaysInText (e : Environment) (text : List Char) (k : Nat) : Prop where
  /-- the levels of an expression -/
  expression_ends : ∃ k', EndsAt text k (Scanner.expression e text) (expression e (text.drop k)) k'
  conjunction_ends : ∃ k', EndsAt text k (Scanner.conjunction e text) (conjunction e (text.drop k)) k'
  negation_ends : ∃ k', EndsAt text k (Scanner.negation e text) (negation e (text.drop k)) k'
  comparison_ends : ∃ k', EndsAt text k (Scanner.comparison e text) (comparison e (text.drop k)) k'
  sum_ends : ∃ k', EndsAt text k (Scanner.sum e text) (sum e (text.drop k)) k'
  product_ends : ∃ k', EndsAt text k (Scanner.product e text) (product e (text.drop k)) k'
  signed_ends : ∃ k', EndsAt text k (Scanner.signed e text) (signed e (text.drop k)) k'
  /-- a term, which takes something unless only spaces are left -/
  primary_ends : ∃ k', EndsAt text k (Scanner.primary e text) (term e (takeSpaces (text.drop k)).rest) k' ∧
    ((∃ c ∈ text.drop k, c ≠ ' ') → k < k')
  /-- a variable reference on its ampersand -/
  reference_ends : text[k]? = some '&' →
    ∃ k', EndsAt text k (Scanner.reference e text) (reference e (text.drop (k + 1))) k'
  /-- quoted texts on their first apostrophe -/
  strings_end : text[k]? = some '\'' →
    ∃ k', EndsAt text k (Scanner.strings e text) (strings e (text.drop (k + 1))) k'
  /-- an attribute reference behind the letter and the apostrophe -/
  attributeValue_ends : ∀ a u, attribute? (text.drop k) = some (a, u) →
    ∃ k', EndsAt text (k + 2) (Scanner.attributeValue e text a) (attributeValue e a u) k'
  /-- a quoted term on its letter, of which the cursor passes two characters and more -/
  quotedTerm_ends : ∀ c, text[k]? = some c → c.toUpper ∈ ['X', 'B', 'C'] → text[k + 1]? = some '\'' →
    ∃ k', EndsAt text k (Scanner.quotedTerm text) ((takeWord (text.drop k)).map (wordValue e)) k'
  /-- the replacement of variable symbols, which goes through the whole text -/
  substitute_ends : ∀ fuel, 11 * (text.length - k) + 10 < fuel →
    (Scanner.substitute e text fuel).run k = some (substituteIn e (text.drop k), text.length)

/-- **The cursor stays in the text.**  Wherever it starts in whatever text, every reader ends with the value and the rest
of the reader of fronts; on the way nothing is taken out that does not lie in the text, for there `Scanner.stretch` gives
nothing. -/
theorem cursor_stays_in_text (e : Environment) (text : List Char) (k : Nat) (hk : k ≤ text.length) :
    StaysInText e text k := by
  have hat : At text k (text.drop k) := ⟨hk, rfl⟩
  refine {
    expression_ends := exists_endsAt hat fun fuel h => (simulates e text fuel).expression _ h
    conjunction_ends := exists_endsAt hat fun fuel h => (simulates e text fuel).conjunction _ (by omega)
    negation_ends := exists_endsAt hat fun fuel h => (simulates e text fuel).negation _ (by omega)
    comparison_ends := exists_endsAt hat fun fuel h => (simulates e text fuel).comparison _ (by omega)
    sum_ends := exists_endsAt hat fun fuel h => (simulates e text fuel).sum _ (by omega)
    product_ends := exists_endsAt hat fun fuel h => (simulates e text fuel).product _ (by omega)
    signed_ends := exists_endsAt hat fun fuel h => (simulates e text fuel).signed _ (by omega)
    primary_ends := ?primary
    reference_ends := ?reference
    strings_end := ?strings
    attributeValue_ends := ?attributeValue
    quotedTerm_ends := ?quotedTerm
    substitute_ends := ?substitute }
  case primary =>
    obtain ⟨k', hends⟩ := exists_endsAt hat fun fuel h => (simulates e text fuel).primary _ (by omega)
    refine ⟨k', hends, fun ⟨c, hc, hne⟩ => hends.lt ?_⟩
    obtain ⟨d, u, hterm⟩ := exists_cons_of_takeSpaces hc hne
    have hskip := (takeSpaces (text.drop k)).length_le
    rw [hterm] at hskip ⊢
    exact Nat.lt_of_lt_of_le (Nat.lt_succ_of_le (length_term_cons d u)) hskip
  case reference =>
    intro hampersand
    exact exists_endsAt (At.of_getElem? hampersand) fun fuel h => by
      rw [List.length_cons] at h
      exact (simulates e text fuel).reference _ (by omega)
  case strings =>
    intro hquote
    exact exists_endsAt (At.of_getElem? hquote) fun fuel h => by
      rw [List.length_cons] at h
      exact (simulates e text fuel).strings _ (by omega)
  case attributeValue =>
    intro a u ha
    obtain ⟨c, hc⟩ := eq_cons_of_attribute? ha
    rw [hc] at hat
    exact exists_endsAt (hat.advance (s := [c, '\''])) fun fuel h =>
      (simulates e text fuel).attributeValue a u (by omega)
  case quotedTerm =>
    intro c hc hletter hquote
    have hdrop := (At.of_getElem? hc).drop.trans (congrArg (c :: ·) (At.of_getElem? hquote).drop)
    rw [hdrop] at hat ⊢
    rw [takeWord, if_pos hletter]
    exact exists_endsAt hat fun fuel h => by
      simp only [List.length_cons] at h
      exact scans_quotedTerm c (by omega)
  case substitute =>
    intro fuel hfuel
    rw [← List.length_drop] at hfuel
    obtain ⟨k', hrun, -, hk'⟩ := scans_substitute (e := e) (text.drop k) fuel (by omega) k hat
    have hend : k' = text.length := hk'.length
    rwa [hend] at hrun

theorem cursor_stays_in_text_of_unclosed :
    let x := (default : Context).bind "A" (.own (.declared .arithmetic false false))
    let text := "-&A((X'4,C'&&".toList
    1 ≤ text.length ∧ StaysInText (environment x) text 1 := by
  intro x text
  have hk : 1 ≤ text.length := by decide
  exact ⟨hk, cursor_stays_in_text (environment x) text 1 hk⟩

end Readers

end AssemblerIndex.Expression
