import AssemblerIndex.Assembly.Conditional
import Mathlib.Tactic.ByContra

/-!
# Blocks of macro definitions

A block reaches from a `MACRO` through the `MEND` that closes it, or to the end if there is none.  A
statement lies outside of all blocks iff no block is open in front of it and it opens none
(`outside_iff`).  A search that starts anywhere in front of such a statement sees it (`seenAt_of_outside`).
-/

namespace AssemblerIndex

/-! ### Blocks -/

/-- The number of statements through the `MEND` that closes the last of `depth` open definitions. -/
def blockLength (depth : Int) : List Statement → Nat
  | [] => 0
  | s :: rest =>
    let depth := openDefinitions depth s.opcode
    if s.opcode = "MEND" ∧ depth = 0 then 1 else 1 + blockLength depth rest

theorem length_throughMend (depth : Int) (ns : List NestedStatement) :
    (throughMend depth ns).length = blockLength depth (ns.map (·.statement)) := by
  induction ns generalizing depth with
  | nil => rfl
  | cons n rest ih =>
    unfold throughMend
    rw [List.map_cons, blockLength]
    dsimp only
    split
    · rfl
    · rw [List.length_cons, ih, Nat.add_comm]

theorem throughMend_eq_take (depth : Int) (ns : List NestedStatement) :
    throughMend depth ns = ns.take (blockLength depth (ns.map (·.statement))) := by
  induction ns generalizing depth with
  | nil => rfl
  | cons n rest ih =>
    rw [throughMend, List.map_cons, blockLength]
    split
    · rfl
    · rw [ih, Nat.add_comm, List.take_succ_cons]

/-- The index behind the block that starts at `b`. -/
def blockEnd (l : List Statement) (b : Nat) : Nat := b + blockLength 0 (l.drop b)

/-- The statement at `k` lies outside of every block. -/
def Outside (l : List Statement) (k : Nat) : Prop :=
  ∀ b s, l[b]? = some s → s.opcode = "MACRO" → b ≤ k → blockEnd l b ≤ k

/-- The number of blocks that are open behind a statement; a `MEND` outside of all closes none. -/
def openBehind (n : Nat) (s : Statement) : Nat :=
  if s.opcode = "MACRO" then n + 1 else if s.opcode = "MEND" then n - 1 else n

/-- The number of blocks that are open in front of the statement at `k`. -/
def openBefore (l : List Statement) (k : Nat) : Nat := (l.take k).foldl openBehind 0

/-- No block is open in front of the statement at `k`, or there is no such statement. -/
def AtTop (l : List Statement) (k : Nat) : Prop := openBefore l k = 0 ∨ l.length ≤ k

section Blocks

variable {l : List Statement} {b i k : Nat} {s : Statement}

theorem openBefore_add (l : List Statement) (i k : Nat) :
    openBefore l (i + k) = ((l.drop i).take k).foldl openBehind (openBefore l i) := by
  unfold openBefore
  rw [List.take_add, List.foldl_append]

theorem openBefore_succ (h : l[k]? = some s) :
    openBefore l (k + 1) = openBehind (openBefore l k) s := by
  unfold openBefore
  rw [List.take_add_one, h, List.foldl_append]
  rfl

/-- Within a block more definitions are open than in front of it, and behind it as many, if it is
closed. -/
theorem open_of_blockLength (n : Nat) {c : Nat} (hc : 1 ≤ c) (l : List Statement) :
    (∀ k < blockLength c l, n < (l.take k).foldl openBehind (n + c)) ∧
      (blockLength c l = l.length ∨ (l.take (blockLength c l)).foldl openBehind (n + c) = n) := by
  induction l generalizing c with
  | nil => exact ⟨fun k hk => absurd hk (Nat.not_lt_zero k), .inl rfl⟩
  | cons s rest ih =>
    have onward {m : Nat} (hm : 1 ≤ m) (hd : openDefinitions c s.opcode = m)
        (ho : openBehind (n + c) s = n + m) (hne : ¬ (s.opcode = "MEND" ∧ (m : Int) = 0)) :
        (∀ k < blockLength c (s :: rest), n < ((s :: rest).take k).foldl openBehind (n + c)) ∧
          (blockLength c (s :: rest) = (s :: rest).length ∨
            ((s :: rest).take (blockLength c (s :: rest))).foldl openBehind (n + c) = n) := by
      have hlen : blockLength c (s :: rest) = blockLength m rest + 1 := by
        rw [blockLength, hd, if_neg hne, Nat.add_comm]
      obtain ⟨h1, h2⟩ := ih hm
      rw [hlen]
      constructor
      · intro k hk
        cases k with
        | zero =>
          simp only [List.take_zero, List.foldl_nil]
          omega
        | succ k =>
          rw [List.take_succ_cons, List.foldl_cons, ho]
          exact h1 k (by omega)
      · rw [List.take_succ_cons, List.foldl_cons, ho, List.length_cons]
        rcases h2 with h2 | h2
        · exact .inl (by rw [h2])
        · exact .inr h2
    by_cases hmacro : s.opcode = "MACRO"
    · refine onward (m := c + 1) (by omega) ?_ ?_ (by omega)
      · simp [openDefinitions, hmacro]
      · simp [openBehind, hmacro, Nat.add_assoc]
    · by_cases hmend : s.opcode = "MEND"
      · have hd : openDefinitions c s.opcode = (c : Int) - 1 := by
          unfold openDefinitions
          rw [if_neg hmacro, if_pos hmend]
        have ho : openBehind (n + c) s = n + c - 1 := by
          unfold openBehind
          rw [if_neg hmacro, if_pos hmend]
        by_cases hone : c = 1
        · -- the block is closed here
          have hlen : blockLength c (s :: rest) = 1 := by
            rw [blockLength, hd, if_pos ⟨hmend, by omega⟩]
          rw [hlen]
          refine ⟨?_, .inr ?_⟩
          · intro k hk
            obtain rfl : k = 0 := by omega
            simp only [List.take_zero, List.foldl_nil]
            omega
          · rw [List.take_succ_cons, List.take_zero, List.foldl_cons, List.foldl_nil, ho]
            omega
        · exact onward (m := c - 1) (by omega) (by omega) (by omega) (by omega)
      · refine onward hc ?_ ?_ fun h => hmend h.1
        · unfold openDefinitions
          rw [if_neg hmacro, if_neg hmend]
        · unfold openBehind
          rw [if_neg hmacro, if_neg hmend]

/-- What is open within the block that starts at `b`, and behind it. -/
theorem open_of_block (hb : l[b]? = some s) (hs : s.opcode = "MACRO") :
    b < blockEnd l b ∧ (∀ k, b < k → k < blockEnd l b → openBefore l b < openBefore l k) ∧
      (blockEnd l b = l.length ∨ openBefore l (blockEnd l b) = openBefore l b) := by
  obtain ⟨hlt, hget⟩ := List.getElem?_eq_some_iff.1 hb
  have hdrop : l.drop b = s :: l.drop (b + 1) := by
    rw [List.drop_eq_getElem_cons hlt, hget]
  have hd : openDefinitions 0 s.opcode = ((1 : Nat) : Int) := by
    unfold openDefinitions
    rw [if_pos hs]
    rfl
  have hne : ¬ (s.opcode = "MEND" ∧ ((1 : Nat) : Int) = 0) := by omega
  have hend : blockEnd l b = b + 1 + blockLength (1 : Nat) (l.drop (b + 1)) := by
    unfold blockEnd
    rw [hdrop, blockLength, hd, if_neg hne, Nat.add_assoc]
  have hsucc : openBefore l (b + 1) = openBefore l b + 1 := by
    rw [openBefore_succ hb]
    unfold openBehind
    rw [if_pos hs]
  obtain ⟨h1, h2⟩ := open_of_blockLength (openBefore l b) (Nat.le_refl 1) (l.drop (b + 1))
  refine ⟨by omega, fun k hbk hke => ?_, ?_⟩
  · obtain ⟨m, rfl⟩ := Nat.exists_eq_add_of_le (Nat.succ_le_of_lt hbk)
    rw [openBefore_add, hsucc]
    exact h1 m (by omega)
  · rcases h2 with h2 | h2
    · rw [List.length_drop] at h2
      exact .inl (by omega)
    · refine .inr ?_
      rw [hend, openBefore_add, hsucc]
      exact h2

/-- In front of an open block there is the `MACRO` of an outermost one. -/
theorem exists_macro_of_openBefore (h : 0 < openBefore l k) :
    ∃ b s, b < k ∧ l[b]? = some s ∧ s.opcode = "MACRO" ∧ openBefore l b = 0 ∧
      ∀ m, b < m → m ≤ k → 0 < openBefore l m := by
  induction k with
  | zero => exact absurd h (Nat.lt_irrefl 0)
  | succ k ih =>
    rcases Nat.eq_zero_or_pos (openBefore l k) with h0 | hpos
    · cases hk : l[k]? with
      | none =>
        have hle := List.getElem?_eq_none_iff.1 hk
        unfold openBefore at h h0
        rw [List.take_of_length_le (by omega)] at h h0
        omega
      | some s =>
        have hs : s.opcode = "MACRO" := by
          by_contra hs
          rw [openBefore_succ hk, h0, openBehind, if_neg hs] at h
          split at h <;> omega
        refine ⟨k, s, Nat.lt_succ_self k, hk, hs, h0, fun m h1 h2 => ?_⟩
        obtain rfl : m = k + 1 := by omega
        exact h
    · obtain ⟨b, s, hb, hs, hm, h0, hall⟩ := ih hpos
      refine ⟨b, s, by omega, hs, hm, h0, fun m h1 h2 => ?_⟩
      rcases Nat.lt_or_ge k m with hlt | hge
      · obtain rfl : m = k + 1 := by omega
        exact h
      · exact hall m h1 hge

/-- **Outside of all blocks**: no block is open in front of the statement, and it opens none. -/
theorem outside_iff (hk : l[k]? = some s) :
    Outside l k ↔ openBefore l k = 0 ∧ s.opcode ≠ "MACRO" := by
  have hlt := (List.getElem?_eq_some_iff.1 hk).1
  constructor
  · intro h
    refine ⟨?_, fun hs => ?_⟩
    · by_contra hne
      obtain ⟨b, s', hb, hs', hm, h0, hall⟩ := exists_macro_of_openBefore (Nat.pos_of_ne_zero hne)
      obtain ⟨h1, -, h3⟩ := open_of_block hs' hm
      have hle := h b s' hs' hm (Nat.le_of_lt hb)
      rcases h3 with h3 | h3
      · omega
      · have := hall _ h1 hle
        omega
    · have h1 := (open_of_block hk hs).1
      have h2 := h k s hk hs (Nat.le_refl k)
      omega
  · rintro ⟨h0, hs⟩ b s' hs' hm hle
    have hne : b ≠ k := by
      rintro rfl
      rw [hk] at hs'
      exact hs (Option.some.inj hs' ▸ hm)
    by_contra hgt
    have := (open_of_block hs' hm).2.1 k (by omega) (by omega)
    omega

theorem AtTop.outside (h : AtTop l k) (hk : l[k]? = some s) (hs : s.opcode ≠ "MACRO") : Outside l k := by
  have hlt := (List.getElem?_eq_some_iff.1 hk).1
  rcases h with h | h
  · exact (outside_iff hk).2 ⟨h, hs⟩
  · omega

theorem Outside.atTop (h : Outside l k) : AtTop l k := by
  cases hk : l[k]? with
  | none => exact .inr (List.getElem?_eq_none_iff.1 hk)
  | some s => exact .inl ((outside_iff hk).1 h).1

theorem atTop_zero (l : List Statement) : AtTop l 0 := .inl rfl

/-- Behind a statement that opens no block, no block is open either. -/
theorem AtTop.succ (h : AtTop l k) (hk : l[k]? = some s) (hs : s.opcode ≠ "MACRO") :
    AtTop l (k + 1) := by
  have hlt := (List.getElem?_eq_some_iff.1 hk).1
  rcases h with h | h
  · refine .inl ?_
    rw [openBefore_succ hk, h, openBehind, if_neg hs]
    split <;> rfl
  · omega

/-- Behind a block that starts where none is open, none is open. -/
theorem AtTop.blockEnd (h : AtTop l k) (hk : l[k]? = some s) (hs : s.opcode = "MACRO") :
    AtTop l (blockEnd l k) := by
  have hlt := (List.getElem?_eq_some_iff.1 hk).1
  rcases h with h | h
  · rcases (open_of_block hk hs).2.2 with he | he
    · exact .inr (Nat.le_of_eq he.symm)
    · exact .inl (he.trans h)
  · omega

/-! ### What a search sees -/

/-- A search through `l` that starts with `depth` open definitions looks at the label of the statement at
`k`. -/
def seenAt (depth : Int) (l : List Statement) (k : Nat) : Prop :=
  (l.take (k + 1)).foldl (fun d s => openDefinitions d s.opcode) depth ≤ 0

theorem seenAt_zero (depth : Int) (s : Statement) (l : List Statement) :
    seenAt depth (s :: l) 0 ↔ openDefinitions depth s.opcode ≤ 0 := .rfl

theorem seenAt_succ (depth : Int) (s : Statement) (l : List Statement) (k : Nat) :
    seenAt depth (s :: l) (k + 1) ↔ seenAt (openDefinitions depth s.opcode) l k := .rfl

/-- A search never counts more open definitions than there are. -/
theorem foldl_openDefinitions_le {d : Int} {n : Nat} (h : d ≤ n) (l : List Statement) :
    l.foldl (fun d s => openDefinitions d s.opcode) d ≤ (l.foldl openBehind n : Nat) := by
  induction l generalizing d n with
  | nil => exact h
  | cons s rest ih =>
    refine ih ?_
    show openDefinitions d s.opcode ≤ (openBehind n s : Nat)
    unfold openDefinitions openBehind
    split
    · omega
    · split <;> omega

/-- Each `MEND` closes a block, and one that closes an outermost block has no label. -/
def ClosesUnlabelled (l : List Statement) : Prop :=
  ∀ k (h : k < l.length), l[k].opcode = "MEND" →
    0 < openBefore l k ∧ (openBefore l k = 1 → l[k].sequenceLabel? = none)

instance (l : List Statement) : Decidable (ClosesUnlabelled l) :=
  inferInstanceAs (Decidable (∀ k (_ : k < l.length), _))

/-- Where each `MEND` closes a block a search counts the open definitions. -/
theorem foldl_openDefinitions_eq (h : ClosesUnlabelled l) (i m : Nat) (hm : i + m ≤ l.length) :
    ((l.drop i).take m).foldl (fun d s => openDefinitions d s.opcode) (openBefore l i : Int) =
      openBefore l (i + m) := by
  induction m with
  | zero => simp
  | succ m ih =>
    have hk : l[i + m]? = some l[i + m] := List.getElem?_eq_getElem (by omega)
    have hdrop : (l.drop i)[m]? = some l[i + m] := by rw [List.getElem?_drop, hk]
    rw [List.take_add_one, List.foldl_append, ih (by omega), hdrop, ← Nat.add_assoc, openBefore_succ hk]
    show openDefinitions (openBefore l (i + m)) l[i + m].opcode = _
    unfold openDefinitions openBehind
    split
    · rfl
    · split
      · rename_i he
        have := (h (i + m) (by omega) he).1
        omega
      · rfl

/-- **A search sees every statement outside of all blocks**, wherever in front of it the search starts. -/
theorem seenAt_of_outside (h : Outside l k) (hk : l[k]? = some s) (hi : i < k) :
    seenAt 0 (l.drop (i + 1)) (k - (i + 1)) := by
  obtain ⟨h0, hs⟩ := (outside_iff hk).1 h
  have hle := foldl_openDefinitions_le (Int.natCast_nonneg (openBefore l (i + 1)))
    ((l.drop (i + 1)).take (k - (i + 1) + 1))
  rw [← openBefore_add, show i + 1 + (k - (i + 1) + 1) = k + 1 by omega, openBefore_succ hk, h0,
    openBehind, if_neg hs] at hle
  have hz : (if s.opcode = "MEND" then 0 - 1 else 0) = 0 := by split <;> rfl
  rw [hz] at hle
  exact hle

end Blocks

end AssemblerIndex
