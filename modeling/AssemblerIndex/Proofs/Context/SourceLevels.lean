import AssemblerIndex.Proofs.Context.StackOrder
import Mathlib.Data.Nat.Init

/-!
# Sources and the levels they came with

A source is pushed together with a level that owns it, and it is dropped when that level ends.  Nothing in the state
says which source belongs to which level; only the operations that led to the state do.

* `StandsSince` — the operation that pushed an entry of a stack, told from the heights of the stack;
* `Together` — a level and a source were pushed by the same operation, `PushedWithSource` by which one;
* `Stepwise` — a stack on which each operation pushes or pops one entry at the most;
* `SourcesGoWithLevels` — the sources of a state belong to its owning levels, one by one, and end with them;
* `stacks_in_order` — **the stacks are in order behind any operations, and a source goes with the level it came with**.
-/

namespace AssemblerIndex.Context

/-! ### Since when an entry stands -/

/-- A stack that had `size m` entries behind `m` operations, for all `m` up to `n`, has had its entry `i` since
operation `k`, or from the beginning if `k` is zero. -/
structure StandsSince (size : Nat → Nat) (n i k : Nat) : Prop where
  le : k ≤ n
  there : ∀ m, k ≤ m → m ≤ n → i < size m
  new : ∀ m, m + 1 = k → size m ≤ i

section

variable {size : Nat → Nat} {n i : Nat}

/-- An entry has been there since some operation, or from the beginning. -/
theorem exists_standsSince (hi : i < size n) : ∃ k, StandsSince size n i k := by
  induction n with
  | zero =>
    refine ⟨0, Nat.le_refl 0, fun m _ hm => ?_, fun m hm => by omega⟩
    obtain rfl := Nat.le_zero.1 hm
    exact hi
  | succ n ih =>
    by_cases hbefore : i < size n
    · -- it was there before the last operation
      obtain ⟨k, h⟩ := ih hbefore
      refine ⟨k, Nat.le_succ_of_le h.le, fun m hk hm => ?_, h.new⟩
      rcases Nat.lt_or_ge n m with hlast | hle
      · obtain rfl : m = n + 1 := by omega
        exact hi
      · exact h.there m hk hle
    · refine ⟨n + 1, Nat.le_refl _, fun m hk hm => ?_, fun m hm => ?_⟩
      · obtain rfl : m = n + 1 := by omega
        exact hi
      · obtain rfl : m = n := by omega
        omega

end

/-! ### Stacks that change by one entry at a time -/

/-- Each step pushes an entry, pops one, or leaves the stack as it is. -/
def Stepwise {α : Type} (stack : Nat → List α) : Prop :=
  ∀ m, stack (m + 1) = stack m ∨ (∃ a, stack (m + 1) = stack m ++ [a]) ∨ ∃ a, stack m = stack (m + 1) ++ [a]

section

variable {α : Type} {stack : Nat → List α} {p : α → Bool} {n i j k : Nat}

/-- As long as an entry stands, it and those beneath it stay what they are. -/
theorem Stepwise.take_eq (h : Stepwise stack) (hkn : k ≤ n)
    (hthere : ∀ m, k ≤ m → m ≤ n → j < (stack m).length) :
    (stack n).take (j + 1) = (stack k).take (j + 1) := by
  induction n, hkn using Nat.le_induction with
  | base => rfl
  | succ n hkn ih =>
    have hn := hthere n hkn (Nat.le_succ n)
    have hn' := hthere (n + 1) (by omega) (Nat.le_refl _)
    rw [← ih fun m hk hm => hthere m hk (by omega)]
    rcases h n with hsame | ⟨a, hpush⟩ | ⟨a, hpop⟩
    · rw [hsame]
    · rw [hpush, List.take_append_of_le_length (by omega)]
    · rw [hpop, List.take_append_of_le_length (by omega)]

theorem Stepwise.getElem?_eq (h : Stepwise stack) (hkn : k ≤ n)
    (hthere : ∀ m, k ≤ m → m ≤ n → j < (stack m).length) : (stack n)[j]? = (stack k)[j]? := by
  have htake := congrArg (·[j]?) (h.take_eq hkn hthere)
  simpa [List.getElem?_take] using htake

/-- A step behind which the stack has an entry more has pushed it. -/
theorem Stepwise.pushed (h : Stepwise stack) {m : Nat} (hm : (stack m).length ≤ j) (hm' : j < (stack (m + 1)).length) :
    ∃ a, stack (m + 1) = stack m ++ [a] ∧ (stack m).length = j := by
  rcases h m with hsame | ⟨a, hpush⟩ | ⟨a, hpop⟩
  · rw [hsame] at hm'
    omega
  · refine ⟨a, hpush, ?_⟩
    rw [hpush, List.length_append, List.length_singleton] at hm'
    omega
  · rw [hpop, List.length_append, List.length_singleton] at hm
    omega

/-- Among the entries with a property, one stands there since when it stands in the whole stack. -/
theorem Stepwise.countP_standsSince (h : Stepwise stack) {a : α} (hget : (stack n)[j]? = some a) (ha : p a = true)
    (hk : StandsSince (fun m => (stack m).length) n j k) :
    StandsSince (fun m => (stack m).countP p) n (((stack n).take j).countP p) k where
  le := hk.le
  there m hkm hmn := by
    have htake := h.take_eq hmn fun m' hm hn => hk.there m' (by omega) hn
    have hcount : ((stack m).take (j + 1)).countP p = ((stack n).take j).countP p + 1 := by
      rw [← htake, List.take_add_one, hget, List.countP_append]
      simp [ha]
    have hle : ((stack m).take (j + 1)).countP p ≤ (stack m).countP p := (List.take_sublist _ _).countP_le
    show _ < (stack m).countP p
    omega
  new m hm := by
    subst hm
    obtain ⟨b, hpush, hlength⟩ := h.pushed (hk.new m rfl) (hk.there (m + 1) (Nat.le_refl _) hk.le)
    have htake := congrArg (List.take j) (h.take_eq hk.le hk.there)
    rw [List.take_take, List.take_take, Nat.min_eq_left (by omega), hpush, List.take_left' hlength] at htake
    exact Nat.le_of_eq (congrArg (List.countP p) htake.symm)

/-- Every one of the entries with a property stands somewhere in the stack. -/
theorem exists_getElem?_of_lt_countP {l : List α} (hi : i < l.countP p) :
    ∃ j a, l[j]? = some a ∧ p a = true ∧ (l.take j).countP p = i := by
  induction l generalizing i with
  | nil => simp at hi
  | cons b l ih =>
    by_cases hb : p b = true
    · rw [List.countP_cons_of_pos hb] at hi
      cases i with
      | zero => exact ⟨0, b, rfl, hb, rfl⟩
      | succ i =>
        obtain ⟨j, a, hget, ha, hcount⟩ := ih (i := i) (by omega)
        refine ⟨j + 1, a, hget, ha, ?_⟩
        rw [List.take_succ_cons, List.countP_cons_of_pos hb, hcount]
    · rw [List.countP_cons_of_neg hb] at hi
      obtain ⟨j, a, hget, ha, hcount⟩ := ih hi
      refine ⟨j + 1, a, hget, ha, ?_⟩
      rw [List.take_succ_cons, List.countP_cons_of_neg hb, hcount]

end

/-! ### Levels and their sources -/

/-- The levels behind the first `m` operations. -/
def levelsBehind (x : Context) (ops : List Operation) (m : Nat) : List Level := (x.run (ops.take m)).levelStack

/-- The sources behind the first `m` operations. -/
def sourcesBehind (x : Context) (ops : List Operation) (m : Nat) : List Source := (x.run (ops.take m)).sourceStack

/-- Behind the operations there are a level and a source that were pushed by operation `k`, or both of them have been
there from the beginning. -/
structure Together (x : Context) (ops : List Operation) (level source k : Nat) : Prop where
  level : StandsSince (fun m => (x.levelsBehind ops m).length) ops.length level k
  source : StandsSince (fun m => (x.sourcesBehind ops m).length) ops.length source k

/-- Operation `k` pushed the level with a source of its own; the level of open code is there from the beginning. -/
def PushedWithSource (ops : List Operation) (l : Level) : Nat → Prop
  | 0 => l = ⟨.ordinary, true⟩
  | k + 1 => ∃ kind file, ops[k]? = some (.pushSource kind file) ∧ l = ⟨kind, true⟩

/-- Behind the operations the sources belong to the owning levels. -/
structure SourcesGoWithLevels (x : Context) (ops : List Operation) : Prop where
  /-- the source with a number came with the owning level of that number -/
  pushed : ∀ i < (x.run ops).sourceStack.length, ∃ j l k, (x.run ops).levelStack[j]? = some l ∧ l.ownsSource = true ∧
    ((x.run ops).levelStack.take j).countP (·.ownsSource) = i ∧ x.Together ops j i k ∧ PushedWithSource ops l k
  /-- the end of a level takes the innermost level off -/
  popped : ∀ y, (x.run ops).popLevel = .ok y → y.levelStack = (x.run ops).levelStack.dropLast
  /-- with the level it drops the innermost source if that came with the level -/
  dropped : ∀ y k, (x.run ops).popLevel = .ok y →
    x.Together ops ((x.run ops).levelStack.length - 1) ((x.run ops).sourceStack.length - 1) k →
      y.sourceStack = (x.run ops).sourceStack.dropLast
  /-- and it drops none otherwise -/
  kept : ∀ y, (x.run ops).popLevel = .ok y →
    (∀ k, ¬ x.Together ops ((x.run ops).levelStack.length - 1) ((x.run ops).sourceStack.length - 1) k) →
      y.sourceStack = (x.run ops).sourceStack

section

variable {x y : Context}

theorem levelsBehind_length (x : Context) (ops : List Operation) :
    x.levelsBehind ops ops.length = (x.run ops).levelStack := by
  rw [levelsBehind, List.take_length]

theorem levelStack_moved {op : Operation} (h : Moved op x y) :
    y.levelStack = x.levelStack ∨ (∃ l, y.levelStack = x.levelStack ++ [l]) ∨
      ∃ l, x.levelStack = y.levelStack ++ [l] := by
  cases h with
  | aside hbase hsources hlevels hmembers => exact .inl (by rw [levelStack, levelStack, hlevels])
  | inSource f heq hcursors =>
    subst heq
    exact .inl (levelStack_mapSource x f)
  | pushedLevel kind heq =>
    subst heq
    exact .inr (.inl ⟨_, levelStack_pushLevel x kind⟩)
  | pushedSource kind file his heq =>
    subst heq
    exact .inr (.inl ⟨_, levelStack_pushSource x kind file⟩)
  | popped hpop => exact .inr (.inr (levelStack_popLevel hpop))

/-- Only `pushSource` makes more sources. -/
theorem pushSource_of_lt {op : Operation} (hx : x.Matched) (h : Moved op x y)
    (hlt : x.sourceStack.length < y.sourceStack.length) :
    ∃ kind file, op = .pushSource kind file ∧ y.levelStack = x.levelStack ++ [⟨kind, true⟩] := by
  rw [hx.sources, (hx.moved h).sources] at hlt
  cases h with
  | aside hbase hsources hlevels hmembers =>
    rw [levelStack, levelStack, hlevels] at hlt
    omega
  | inSource f heq hcursors =>
    rw [heq, levelStack_mapSource] at hlt
    omega
  | pushedLevel kind heq =>
    rw [heq, levelStack_pushLevel, List.countP_append, List.countP_singleton] at hlt
    exact absurd hlt (Nat.lt_irrefl _)
  | pushedSource kind file his heq =>
    rw [heq]
    exact ⟨kind, file, his, levelStack_pushSource x kind file⟩
  | popped hpop =>
    obtain ⟨l, hl⟩ := levelStack_popLevel hpop
    rw [hl, List.countP_append] at hlt
    omega

theorem stepwise_levelsBehind (x : Context) (ops : List Operation) : Stepwise (x.levelsBehind ops) := by
  intro m
  unfold levelsBehind
  rw [List.take_add_one]
  cases ops[m]? with
  | none => exact .inl (by rw [Option.toList_none, List.append_nil])
  | some op =>
    rw [Option.toList_some, run_append]
    exact levelStack_moved (moved_after op _)

theorem length_sourcesBehind (hx : x.Matched) (ops : List Operation) (m : Nat) :
    (x.sourcesBehind ops m).length = (x.levelsBehind ops m).countP (·.ownsSource) :=
  (hx.run (ops.take m)).sources

/-- An owning level and the source of its number were pushed together. -/
theorem together_of_owns (hx : x.Matched) {ops : List Operation} {j : Nat} {l : Level}
    (hget : (x.run ops).levelStack[j]? = some l) (hl : l.ownsSource = true) :
    ∃ k, x.Together ops j (((x.run ops).levelStack.take j).countP (·.ownsSource)) k := by
  rw [← levelsBehind_length] at hget ⊢
  obtain ⟨k, hk⟩ : ∃ k, StandsSince (fun m => (x.levelsBehind ops m).length) ops.length j k :=
    exists_standsSince (List.getElem?_eq_some_iff.1 hget).1
  refine ⟨k, hk, ?_⟩
  simp only [length_sourcesBehind hx]
  exact (stepwise_levelsBehind x ops).countP_standsSince (p := (·.ownsSource)) hget hl hk

/-- A level that came together with a source is that of open code, or `pushSource` has pushed it. -/
theorem Together.pushedWithSource (hx : x.Matched) (hlevels : x.levels = []) {ops : List Operation} {i j k : Nat}
    {l : Level} (h : x.Together ops j i k) (hget : (x.run ops).levelStack[j]? = some l) :
    PushedWithSource ops l k := by
  rw [← levelsBehind_length, (stepwise_levelsBehind x ops).getElem?_eq h.level.le h.level.there] at hget
  cases k with
  | zero =>
    have hstart : x.levelsBehind ops 0 = [⟨.ordinary, true⟩] := by simp [levelsBehind, levelStack, hlevels]
    rw [hstart] at hget
    exact List.mem_singleton.1 (List.mem_of_getElem? hget)
  | succ m =>
    -- there is a source more behind the operation, and the entry of the levels is the one it has pushed
    have hsources := Nat.lt_of_le_of_lt (h.source.new m rfl) (h.source.there (m + 1) (Nat.le_refl _) h.source.le)
    obtain ⟨b, hpush, hlength⟩ := (stepwise_levelsBehind x ops).pushed (h.level.new m rfl)
      (h.level.there (m + 1) (Nat.le_refl _) h.level.le)
    have hm : m < ops.length := h.level.le
    have hrun : x.run (ops.take (m + 1)) = ops[m].after (x.run (ops.take m)) := by
      rw [List.take_add_one, List.getElem?_eq_getElem hm, Option.toList_some, run_append]
      rfl
    have hmove := moved_after ops[m] (x.run (ops.take m))
    rw [← hrun] at hmove
    obtain ⟨kind, file, hop, hlevel⟩ := pushSource_of_lt (hx.run (ops.take m)) hmove hsources
    rw [← hlength, levelsBehind, hlevel, levelsBehind, List.getElem?_concat_length] at hget
    obtain rfl := Option.some.inj hget
    exact ⟨kind, file, by rw [List.getElem?_eq_getElem hm, hop], rfl⟩

theorem PushedWithSource.ownsSource {ops : List Operation} {l : Level} {k : Nat} (h : PushedWithSource ops l k) :
    l.ownsSource = true := by
  cases k with
  | zero => rw [show l = ⟨.ordinary, true⟩ from h]
  | succ k =>
    obtain ⟨kind, file, -, rfl⟩ := h
    rfl

/-- The innermost level owns a source if and only if it came together with the innermost source. -/
theorem together_innermost_iff (hx : x.Matched) (hlevels : x.levels = []) {ops : List Operation} {ls : List Level}
    {l : Level} (hl : (x.run ops).levelStack = ls ++ [l]) :
    (∃ k, x.Together ops ((x.run ops).levelStack.length - 1) ((x.run ops).sourceStack.length - 1) k) ↔
      l.ownsSource = true := by
  have hget : (x.run ops).levelStack[(x.run ops).levelStack.length - 1]? = some l := by
    rw [hl, List.length_append, List.length_singleton, Nat.add_sub_cancel, List.getElem?_concat_length]
  constructor
  · rintro ⟨k, h⟩
    exact (h.pushedWithSource hx hlevels hget).ownsSource
  · intro howns
    have hcount : ((x.run ops).levelStack.take ((x.run ops).levelStack.length - 1)).countP (·.ownsSource) =
        (x.run ops).sourceStack.length - 1 := by
      rw [(hx.run ops).sources, hl, List.length_append, List.length_singleton, Nat.add_sub_cancel,
        List.take_left' rfl, List.countP_append, List.countP_singleton, if_pos howns, Nat.add_sub_cancel]
    rw [← hcount]
    exact together_of_owns hx hget howns

/-- From a state with the level of open code only, the sources go with the levels they came with. -/
theorem Matched.sourcesGoWithLevels (hx : x.Matched) (hlevels : x.levels = []) (ops : List Operation) :
    x.SourcesGoWithLevels ops where
  pushed i hi := by
    rw [(hx.run ops).sources] at hi
    obtain ⟨j, l, hget, hl, hcount⟩ := exists_getElem?_of_lt_countP hi
    obtain ⟨k, hk⟩ := together_of_owns hx hget hl
    rw [hcount] at hk
    exact ⟨j, l, k, hget, hl, hcount, hk, hk.pushedWithSource hx hlevels hget⟩
  popped y hpop := by
    obtain ⟨l, hl⟩ := levelStack_popLevel hpop
    rw [hl, List.dropLast_concat]
  dropped y k hpop htogether := by
    obtain ⟨l, hl, hsources⟩ := (hx.run ops).stacks_popLevel hpop
    rw [hsources, if_pos ((together_innermost_iff hx hlevels hl).1 ⟨k, htogether⟩)]
  kept y hpop hapart := by
    obtain ⟨l, hl, hsources⟩ := (hx.run ops).stacks_popLevel hpop
    rw [hsources, if_neg]
    intro howns
    obtain ⟨k, htogether⟩ := (together_innermost_iff hx hlevels hl).2 howns
    exact hapart k htogether

end

/-- **The stacks are in order behind any operations, and a source goes with the level it came with.** -/
theorem stacks_in_order (file : String) (settings : Settings) (now : Moment) (ops : List Operation) :
    ((start file settings now).run ops).InOrder ∧ (start file settings now).SourcesGoWithLevels ops :=
  ⟨((Matched.start file settings now).run ops).inOrder,
    (Matched.start file settings now).sourcesGoWithLevels rfl ops⟩

end AssemblerIndex.Context
