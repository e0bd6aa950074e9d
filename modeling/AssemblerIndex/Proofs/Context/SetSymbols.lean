import AssemblerIndex.Proofs.Context.SharedVariables
import AssemblerIndex.Proofs.Context.Snapshots

/-!
# What the assignment of a SET symbol changes

An assignment changes one place of one SET symbol.  Every scope that shares the SET symbol sees the change, and nothing
else that a scope sees is changed.

* `SetSymbol.fill` — a SET symbol behind the assignment of elements that follow each other;
* `Binds`, `Reached.binds` — in the states that operations lead to, a SET symbol is only visible where a name is bound
  to it;
* `SharesCurrent` — a name stands for the same SET symbol in a scope as in the current one;
* `Replaced` — another SET symbol has taken the place of one, wherever that was seen, and all else is as it was;
* `replaced_assign` — **an assignment replaces the SET symbol that is visible**.
-/

namespace AssemblerIndex

/-! ### The elements of a SET symbol -/

namespace SetSymbol

variable (s : SetSymbol)

/-- The SET symbol behind assignments of elements that follow each other, from `base` on. -/
def fill (s : SetSymbol) (base : Nat) : List SetValue → SetSymbol
  | [] => s
  | v :: vs => (s.assign (some base) v).fill (base + 1) vs

theorem fill_concat (base : Nat) (vs : List SetValue) (v : SetValue) :
    s.fill base (vs ++ [v]) = (s.fill base vs).assign (some (base + vs.length)) v := by
  induction vs generalizing s base with
  | nil => rfl
  | cons u us ih =>
    rw [List.cons_append, fill, ih, fill, List.length_cons, Nat.add_right_comm, Nat.add_assoc]

@[simp] theorem type_fill (base : Nat) (vs : List SetValue) : (s.fill base vs).type = s.type := by
  induction vs generalizing s base with
  | nil => rfl
  | cons v vs ih => rw [fill, ih, type_assign]

@[simp] theorem isScalar_fill (base : Nat) (vs : List SetValue) : (s.fill base vs).isScalar = s.isScalar := by
  induction vs generalizing s base with
  | nil => rfl
  | cons v vs ih => rw [fill, ih, isScalar_assign]

section

variable {s} (subscripted : s.isScalar = false)
include subscripted

theorem element_eq_value (i : Nat) : s.element i = s.value [i] := by
  unfold value
  rw [subscripted]

theorem element_assign (i j : Nat) (v : SetValue) :
    (s.assign (some i) v).element j = if j = i then v.coerce s.type else s.element j := by
  have hplace (subscript : Option Nat) : s.place subscript = subscript := by rw [place, if_neg (by simp [subscripted])]
  rw [element_eq_value (by rw [isScalar_assign, subscripted]), value_assign, hplace, hplace, List.head?_cons,
    ← element_eq_value subscripted]
  exact if_congr (by rw [Option.some.injEq, eq_comm]) rfl rfl

theorem maxSubscript_assign (i : Nat) (v : SetValue) : (s.assign (some i) v).maxSubscript = max s.maxSubscript i := by
  unfold maxSubscript assign
  rw [subscripted]
  dsimp only
  rw [Std.TreeMap.maxKey?_insert, Option.getD_some]
  cases s.elements.maxKey? with
  | none => simp
  | some m =>
    simp only [Option.elim_some, Option.getD_some, Nat.isLE_compare]
    split <;> omega

/-- The elements in front of `base` and those behind the assigned ones are as they were. -/
theorem element_fill_of_outside {base i : Nat} {vs : List SetValue} (h : i < base ∨ base + vs.length ≤ i) :
    (s.fill base vs).element i = s.element i := by
  induction vs using List.reverseRecOn with
  | nil => rfl
  | append_singleton vs v ih =>
    rw [List.length_append, List.length_singleton] at h
    rw [fill_concat, element_assign (by rw [isScalar_fill, subscripted]), if_neg (by omega), ih (by omega)]

/-- An assigned element has its value as the type has it. -/
theorem element_fill {base k : Nat} {vs : List SetValue} (hk : k < vs.length) :
    (s.fill base vs).element (base + k) = vs[k].coerce s.type := by
  induction vs using List.reverseRecOn with
  | nil => cases hk
  | append_singleton vs v ih =>
    rw [List.length_append, List.length_singleton] at hk
    rw [fill_concat, element_assign (by rw [isScalar_fill, subscripted]), type_fill]
    rcases Nat.lt_succ_iff_lt_or_eq.1 hk with hlt | rfl
    · rw [if_neg (by omega), ih hlt, List.getElem_append_left hlt]
    · rw [if_pos rfl, List.getElem_concat_length rfl]

/-- The last element that was assigned counts if no greater subscript was assigned before. -/
theorem maxSubscript_fill (base : Nat) {vs : List SetValue} (hvs : vs ≠ []) :
    (s.fill base vs).maxSubscript = max s.maxSubscript (base + vs.length - 1) := by
  induction vs using List.reverseRecOn with
  | nil => exact absurd rfl hvs
  | append_singleton vs v ih =>
    rw [fill_concat, maxSubscript_assign (by rw [isScalar_fill, subscripted]), List.length_append,
      List.length_singleton]
    cases vs with
    | nil =>
      rw [fill, List.length_nil]
      omega
    | cons u us =>
      rw [ih (List.cons_ne_nil u us), List.length_cons]
      omega

end

end SetSymbol

/-! ### Where SET symbols are -/

/-- The table holds no SET symbol. -/
def Table.Parametric (t : Table Variable) : Prop := ∀ n s, t.find? n ≠ some (.set s)

namespace Table.Parametric

variable {t : Table Variable}

theorem empty : Parametric {} := fun _ _ h => nomatch h

theorem insert (h : t.Parametric) (name : String) {v : Variable} (hv : ∀ s, v ≠ .set s) :
    (t.insert name v).Parametric := by
  intro n s hn
  rw [Table.find?_insert] at hn
  split at hn
  · exact hv s (Option.some.inj hn)
  · exact h n s hn

theorem bindPositional (h : t.Parametric) (i : Nat) (ps : List Parameter) (args : List MacroData) :
    (MacroDefinition.bindPositional t i ps args).Parametric := by
  induction ps generalizing t i args with
  | nil => exact h
  | cons p ps ih => exact ih (h.insert _ (by nofun)) _ _

theorem bindKeywords (h : t.Parametric) (ps : List Parameter) (given : Table MacroData) :
    (MacroDefinition.bindKeywords t ps given).Parametric := by
  induction ps generalizing t given with
  | nil => exact h
  | cons p ps ih => exact ih (h.insert _ (by nofun)) _

/-- The parameters of a call are none. -/
theorem call (d : MacroDefinition) (label : Option MacroData) (args : List Argument) :
    (d.call label args).parameters.Parametric := by
  unfold MacroDefinition.call
  dsimp only
  refine insert (.bindKeywords (.bindPositional ?_ _ _ _) _ _) _ (by nofun)
  split
  · exact empty.insert _ (by nofun)
  · exact empty

end Table.Parametric

namespace Context

/-- The name is bound to the SET symbol in the current scope. -/
def Binds (x : Context) (name : String) (s : SetSymbol) : Prop :=
  ∃ b, x.scope.bindings.find? name = some b ∧ x.bound? name b = some s

/-- The scope holds SET symbols in its bindings only. -/
def Vocabulary.Parametric (w : Vocabulary) : Prop := w.systemVariables.Parametric ∧ w.parameters.Parametric

section

variable {x y : Context} {name : String}

theorem parametric_after (h : ∀ w ∈ x.vocabularies, w.Parametric) (op : Operation) :
    ∀ w ∈ (op.after x).vocabularies, w.Parametric := by
  have hrevised := revised_after op x
  generalize op.after x = y at hrevised ⊢
  intro w hw
  obtain ⟨i, hi, rfl⟩ := List.mem_iff_getElem.1 hw
  have hdepth : i < y.depth := by rwa [length_vocabularies] at hi
  rcases hrevised.depth_cases hdepth with hold | ⟨rfl, macroName, label, args, henter⟩
  · -- a standing scope only changes its bindings
    have hconstant := hrevised.constant hold hdepth
    have hold' : i < x.vocabularies.length := by rwa [length_vocabularies]
    rw [List.getElem?_eq_getElem hi, List.getElem?_eq_getElem hold', Option.map_some, Option.map_some,
      Option.some.injEq, Vocabulary.mk.injEq] at hconstant
    obtain ⟨-, hsystem, hparameters, -⟩ := hconstant
    unfold Vocabulary.Parametric
    rw [hsystem, hparameters]
    exact h _ (List.getElem_mem hold')
  · obtain ⟨d, -, hvocabularies, -⟩ := enterMacro_eq_ok henter
    have hlast : y.vocabularies[x.depth] = _ := List.getElem_of_eq hvocabularies _
    rw [hlast, List.getElem_concat_length x.length_vocabularies.symm]
    exact ⟨Table.Parametric.empty.insert _ (by nofun), .call d label args⟩

theorem Reached.parametric (h : x.Reached) : ∀ w ∈ x.vocabularies, w.Parametric := by
  obtain ⟨file, settings, now, ops, rfl⟩ := h
  refine run_induction (P := fun y => ∀ w ∈ y.vocabularies, w.Parametric) ?_ (fun op y hy => parametric_after hy op) ops
  intro w hw
  rw [vocabularies_eq] at hw
  obtain rfl := List.mem_singleton.1 hw
  exact ⟨.empty, .empty⟩

/-- A SET symbol is visible under a name that is bound to it. -/
theorem Reached.binds (h : x.Reached) {s : SetSymbol} (hs : x.visible? name = some (.set s)) : x.Binds name s := by
  have hcurrent : vocabulary (x.invocation?, x.scope) ∈ x.vocabularies := List.mem_of_getElem? x.vocabularies_current
  obtain ⟨hsystem, hparameters⟩ := h.parametric _ hcurrent
  rw [visible?_eq, seenIn?, vocabularies_current, Option.bind_some, Vocabulary.seen?] at hs
  split at hs
  · rename_i b hb
    obtain ⟨r, hr, heq⟩ := Option.map_eq_some_iff.1 hs
    cases heq
    exact ⟨b, hb, hr⟩
  · split at hs
    · rename_i v hv
      exact absurd (hv.trans hs) (hsystem name s)
    · exact absurd hs (hparameters name s)

/-! ### States with the same variables -/

theorem storage_bind (x : Context) (name : String) (b : Binding) :
    (x.bind name b).storage = (x.vocabularies.dropLast ++ [(vocabulary (x.invocation?, x.scope)).bind name b],
      x.globals, x.systemGlobals, x.callCount) :=
  storage_mapScope ..

theorem storage_globals (x : Context) (t : Table SetSymbol) :
    ({ x with globals := t } : Context).storage = (x.vocabularies, t, x.systemGlobals, x.callCount) := rfl

theorem storage_systemGlobals (x : Context) (t : Table SetSymbol) :
    ({ x with systemGlobals := t } : Context).storage = (x.vocabularies, x.globals, t, x.callCount) := rfl

section

variable (h : y.storage = x.storage)
include h

theorem bound?_of_storage (n : String) (b : Binding) : y.bound? n b = x.bound? n b :=
  bound?_congr (congrArg (·.2.1) h) (congrArg (·.2.2.1) h)

theorem boundIn?_of_storage (i : Nat) (n : String) : y.boundIn? i n = x.boundIn? i n := by
  rw [boundIn?, boundIn?, show y.vocabularies = x.vocabularies from congrArg Prod.fst h]

theorem seenIn?_of_storage (i : Nat) (n : String) : y.seenIn? i n = x.seenIn? i n := by
  unfold Context.seenIn? Vocabulary.seen?
  simp only [show y.vocabularies = x.vocabularies from congrArg Prod.fst h, bound?_of_storage h]

theorem length_calls_of_storage : y.calls.length = x.calls.length := by
  have hlength := congrArg (fun u => u.1.length) h
  exact Nat.succ.inj ((length_vocabularies y).symm.trans (hlength.trans (length_vocabularies x)))

theorem find?_bindings_of_storage (n : String) : y.scope.bindings.find? n = x.scope.bindings.find? n := by
  rw [← boundIn?_current, ← boundIn?_current, length_calls_of_storage h, boundIn?_of_storage h]

theorem visible?_of_storage : y.visible? = x.visible? := by
  funext n
  rw [visible?_eq, visible?_eq, length_calls_of_storage h, seenIn?_of_storage h]

theorem Binds.of_storage {name : String} {s : SetSymbol} (hs : x.Binds name s) : y.Binds name s := by
  obtain ⟨b, hb, hs⟩ := hs
  exact ⟨b, (find?_bindings_of_storage h name).trans hb, (bound?_of_storage h name b).trans hs⟩

/-- An assignment does the same in both. -/
theorem assign?_of_storage (n : String) (subscript : Option Nat) (v : SetValue) :
    (y.assign? n subscript v).map storage = (x.assign? n subscript v).map storage := by
  have hbindings := find?_bindings_of_storage h n
  simp only [storage, Prod.mk.injEq] at h
  obtain ⟨hvocabularies, hglobals, hsystem, hcount⟩ := h
  unfold assign?
  rw [hbindings]
  cases x.scope.bindings.find? n with
  | none => rfl
  | some b =>
    cases b with
    | own s =>
      have hlast : vocabulary (y.invocation?, y.scope) = vocabulary (x.invocation?, x.scope) := by
        have hconcat := (vocabularies_concat y).symm.trans (hvocabularies.trans (vocabularies_concat x))
        exact List.singleton_inj.1 (List.append_inj_right' hconcat rfl)
      rw [Option.map_some, Option.map_some, storage_bind, storage_bind, hlast, hvocabularies, hglobals, hsystem, hcount]
    | userGlobal =>
      rw [hglobals]
      simp only [Option.map_map, Function.comp_def, storage_globals]
      rw [hvocabularies, hsystem, hcount]
    | systemGlobal =>
      rw [hsystem]
      simp only [Option.map_map, Function.comp_def, storage_systemGlobals]
      rw [hvocabularies, hglobals, hcount]

end

/-! ### Replacing a SET symbol -/

/-- The name stands for the same SET symbol in the scope as in the current one. -/
def SharesCurrent (x : Context) (i : Nat) (name : String) : Prop :=
  i = x.calls.length ∨ ∃ b : Binding, b.IsShared ∧ x.boundIn? i name = some b ∧ x.scope.bindings.find? name = some b

/-- From `x` to `y` another SET symbol has taken the place of the one that the current scope sees under a name. -/
structure Replaced (x y : Context) (name : String) (s : SetSymbol) : Prop where
  depth : y.depth = x.depth
  /-- it is seen in all scopes that share the SET symbol -/
  seen : ∀ i, x.SharesCurrent i name → y.seenIn? i name = some (.set s)
  /-- every other variable of every scope is as it was -/
  others : ∀ i n, ¬(n = name ∧ x.SharesCurrent i name) → y.seenIn? i n = x.seenIn? i n
  /-- so is every other variable outside of the scopes -/
  apart : ∀ n (b : Binding), b.IsShared → ¬(n = name ∧ x.scope.bindings.find? name = some b) →
    y.bound? n b = x.bound? n b
  /-- and the scopes share what they have shared -/
  shared : ∀ i n (b : Binding), b.IsShared → (y.boundIn? i n = some b ↔ x.boundIn? i n = some b)

theorem Replaced.length_calls {s : SetSymbol} (h : Replaced x y name s) : y.calls.length = x.calls.length := by
  have hdepth := h.depth
  unfold Context.depth at hdepth
  omega

theorem Replaced.visible? {s : SetSymbol} (h : Replaced x y name s) : y.visible? name = some (.set s) := by
  rw [visible?_eq, h.length_calls]
  exact h.seen _ (.inl rfl)

theorem Replaced.find?_bindings {s : SetSymbol} (h : Replaced x y name s) {b : Binding} (hb : b.IsShared) (n : String) :
    y.scope.bindings.find? n = some b ↔ x.scope.bindings.find? n = some b := by
  rw [← boundIn?_current, ← boundIn?_current, h.length_calls]
  exact h.shared _ n b hb

theorem Replaced.sharesCurrent {s : SetSymbol} (h : Replaced x y name s) (i : Nat) (n : String) :
    y.SharesCurrent i n ↔ x.SharesCurrent i n := by
  unfold SharesCurrent
  rw [h.length_calls]
  refine or_congr_right (exists_congr fun b => and_congr_right fun hb => ?_)
  rw [h.shared i n b hb, h.find?_bindings hb]

theorem Replaced.refl {s : SetSymbol} (hs : x.Binds name s) : Replaced x x name s where
  depth := rfl
  seen i hi := by
    obtain ⟨b, hb, hbound⟩ := hs
    have hin : x.boundIn? i name = some b := by
      rcases hi with rfl | ⟨c, -, hin, hcurrent⟩
      · rw [boundIn?_current, hb]
      · rw [hin, ← hcurrent, hb]
    rw [seenIn?_of_bound x hin, hbound]
    rfl
  others _ _ _ := rfl
  apart _ _ _ _ := rfl
  shared _ _ _ _ := Iff.rfl

theorem Replaced.trans {z : Context} {s r : SetSymbol} (h : Replaced x y name s) (h' : Replaced y z name r) :
    Replaced x z name r where
  depth := h'.depth.trans h.depth
  seen i hi := h'.seen i ((h.sharesCurrent i name).2 hi)
  others i n hn := (h'.others i n (by rwa [h.sharesCurrent])).trans (h.others i n hn)
  apart n b hb hn := (h'.apart n b hb (by rwa [h.find?_bindings hb])).trans (h.apart n b hb hn)
  shared i n b hb := (h'.shared i n b hb).trans (h.shared i n b hb)

/-- Only the variables of a state matter. -/
theorem Replaced.of_storage {z : Context} {s : SetSymbol} (h : Replaced x y name s) (hz : z.storage = x.storage) :
    Replaced z y name s := by
  have hshares (i : Nat) : z.SharesCurrent i name ↔ x.SharesCurrent i name := by
    unfold SharesCurrent
    rw [length_calls_of_storage hz, boundIn?_of_storage hz, find?_bindings_of_storage hz]
  refine ⟨?_, fun i hi => h.seen i ((hshares i).1 hi), fun i n hn => ?_, fun n b hb hn => ?_, fun i n b hb => ?_⟩
  · exact h.depth.trans (congrArg Nat.succ (length_calls_of_storage hz)).symm
  · rw [hshares] at hn
    rw [seenIn?_of_storage hz, h.others i n hn]
  · rw [find?_bindings_of_storage hz] at hn
    rw [bound?_of_storage hz, h.apart n b hb hn]
  · rw [boundIn?_of_storage hz, h.shared i n b hb]

/-- An assignment enters and leaves no scope. -/
theorem depth_after_assign (x : Context) (name : String) (subscript : Option Nat) (v : SetValue) :
    ((Operation.assign name subscript v).after x).depth = x.depth := by
  rw [← length_vocabularies]
  cases revised_after (.assign name subscript v) x with
  | kept same none quiet => rw [same, length_vocabularies]
  | rebound n b rebinds eq => rw [eq, length_revised]
  | entered n label args is eq => cases is
  | left is eq => cases is

theorem find?_scope_bind (x : Context) (name n : String) (b : Binding) :
    (x.bind name b).scope.bindings.find? n = if n = name then some b else x.scope.bindings.find? n := by
  unfold bind mapScope scope
  cases x.calls with
  | nil => exact Table.find?_insert ..
  | cons c cs => exact Table.find?_insert ..

/-- A SET symbol that a name is bound to can be assigned. -/
theorem Binds.exists_assign? {s : SetSymbol} (h : x.Binds name s) (subscript : Option Nat) (v : SetValue) :
    ∃ y, x.assign? name subscript v = some y := by
  obtain ⟨b, hbound, hs⟩ := h
  cases b with
  | own r => simp [assign?, hbound]
  | userGlobal =>
    have hfind : x.globals.find? name = some s := hs
    simp [assign?, hbound, hfind]
  | systemGlobal =>
    have hfind : x.systemGlobals.find? name = some s := hs
    simp [assign?, hbound, hfind]

theorem revised_of_assign {subscript : Option Nat} {v : SetValue} (h : x.assign? name subscript v = some y) :
    Revised (.assign name subscript v) x y ∧ y.depth = x.depth := by
  have hafter : (Operation.assign name subscript v).after x = y := by
    rw [after_eq]
    show (x.assign? name subscript v).getD x = y
    rw [h, Option.getD_some]
  exact ⟨hafter ▸ revised_after .., hafter ▸ depth_after_assign x name subscript v⟩

/-- The other SET symbols outside of the scopes stay as they are. -/
theorem bound?_of_assign_other {b : Binding} (hbound : x.scope.bindings.find? name = some b) {subscript : Option Nat}
    {v : SetValue} (h : x.assign? name subscript v = some y) {n : String} {d : Binding} (hd : d.IsShared)
    (hn : ¬(n = name ∧ x.scope.bindings.find? name = some d)) : y.bound? n d = x.bound? n d := by
  have hne : ¬(n = name ∧ d = b) := fun h => hn ⟨h.1, h.2 ▸ hbound⟩
  have hother := bound?_assign_other hd hbound hne subscript v
  rwa [h, Option.getD_some] at hother

/-- An assignment only changes bindings to a SET symbol of the scope itself. -/
theorem boundIn?_of_assign {subscript : Option Nat} {v : SetValue} (h : x.assign? name subscript v = some y) (i : Nat)
    (n : String) {d : Binding} (hd : d.IsShared) : y.boundIn? i n = some d ↔ x.boundIn? i n = some d := by
  obtain ⟨hrevised, hdepth⟩ := revised_of_assign h
  rcases Nat.lt_or_ge i x.depth with hi | hi
  · rcases hrevised.boundIn? hi (hdepth ▸ hi) n with ⟨heq, -⟩ | ⟨rfl, e, he, heq⟩
    · rw [heq]
    · cases he with
      | assign _ _ hown =>
        rw [heq, boundIn?_current, hown]
        constructor
        · rintro ⟨⟩
          exact hd.elim
        · rintro ⟨⟩
          exact hd.elim
  · constructor
    · intro hy
      exact absurd (lt_depth_of_boundIn? hy) (by omega)
    · intro hx
      exact absurd (lt_depth_of_boundIn? hx) (by omega)

theorem seenIn?_of_depth_le {i : Nat} (hi : x.depth ≤ i) (n : String) : x.seenIn? i n = none := by
  rw [Context.seenIn?, List.getElem?_eq_none (by rwa [length_vocabularies]), Option.bind_none]

/-- What the name is bound to is the assigned SET symbol. -/
theorem bound?_of_assign {b : Binding} {s : SetSymbol} (hbound : x.scope.bindings.find? name = some b)
    (hs : x.bound? name b = some s) {subscript : Option Nat} {v : SetValue} (h : x.assign? name subscript v = some y) :
    ∃ c, y.scope.bindings.find? name = some c ∧ y.bound? name c = some (s.assign subscript v) ∧
      (b.IsShared → c = b) := by
  have shared (hb : b.IsShared) : y.scope.bindings.find? name = some b ∧
      y.bound? name b = some (s.assign subscript v) := by
    have hself := bound?_assign_self hb hbound subscript v
    rw [h, hs] at hself
    have hlength : y.calls.length = x.calls.length := Nat.succ.inj (revised_of_assign h).2
    refine ⟨?_, hself⟩
    rw [← boundIn?_current, hlength, boundIn?_of_assign h _ name hb, boundIn?_current, hbound]
  cases b with
  | own r =>
    obtain rfl := Option.some.inj hs
    simp only [assign?, hbound] at h
    obtain rfl := Option.some.inj h
    refine ⟨.own (r.assign subscript v), ?_, rfl, fun hb => hb.elim⟩
    rw [find?_scope_bind, if_pos rfl]
  | userGlobal => exact ⟨_, (shared trivial).1, (shared trivial).2, fun _ => rfl⟩
  | systemGlobal => exact ⟨_, (shared trivial).1, (shared trivial).2, fun _ => rfl⟩

theorem Binds.assign {s : SetSymbol} (hs : x.Binds name s) {subscript : Option Nat} {v : SetValue}
    (h : x.assign? name subscript v = some y) : y.Binds name (s.assign subscript v) := by
  obtain ⟨b, hbound, hs⟩ := hs
  obtain ⟨c, hc, hassigned, -⟩ := bound?_of_assign hbound hs h
  exact ⟨c, hc, hassigned⟩

/-- **An assignment replaces the SET symbol that is visible**, and it is the only one that it changes. -/
theorem replaced_assign {s : SetSymbol} (hs : x.Binds name s) {subscript : Option Nat} {v : SetValue}
    (h : x.assign? name subscript v = some y) : Replaced x y name (s.assign subscript v) := by
  obtain ⟨b, hbound, hs⟩ := hs
  obtain ⟨hrevised, hdepth⟩ := revised_of_assign h
  have hlength : y.calls.length = x.calls.length := Nat.succ.inj hdepth
  obtain ⟨c, hc, hassigned, hsame⟩ := bound?_of_assign hbound hs h
  refine ⟨hdepth, fun i hi => ?_, fun i n hn => ?_, fun n d hd hn => bound?_of_assign_other hbound h hd hn,
    fun i n d hd => boundIn?_of_assign h i n hd⟩
  · rcases hi with rfl | ⟨d, hd, hin, hcurrent⟩
    · rw [seenIn?_of_bound y (b := c) (by rw [← hlength, boundIn?_current, hc]), hassigned]
      rfl
    · obtain rfl : b = d := Option.some.inj (hbound.symm.trans hcurrent)
      rw [seenIn?_of_bound y ((boundIn?_of_assign h i name hd).2 hin), ← hsame hd, hassigned]
      rfl
  · rcases Nat.lt_or_ge i x.depth with hi | hi
    · have halike : AlikeIn x y i n := hrevised.alikeIn hi (hdepth ▸ hi) fun hcurrent heq =>
        hn ⟨(Option.some.inj heq).symm, .inl hcurrent⟩
      refine halike.seenIn? fun d hin => ?_
      have hapart (hd : d.IsShared) : y.bound? n d = x.bound? n d :=
        bound?_of_assign_other hbound h hd fun h => hn ⟨h.1, .inr ⟨d, hd, h.1 ▸ hin, h.2⟩⟩
      cases d with
      | own r => rfl
      | userGlobal => exact hapart trivial
      | systemGlobal => exact hapart trivial
    · rw [seenIn?_of_depth_le (hdepth ▸ hi), seenIn?_of_depth_le hi]

end

end Context

end AssemblerIndex
