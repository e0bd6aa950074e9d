import AssemblerIndex.Library
import Mathlib.Algebra.Order.BigOperators.Group.List
import Mathlib.Algebra.Order.Group.Nat
import Mathlib.Data.Set.Finite.List

/-!
# The names of a library in memory

Only finitely many names lead to a member: such a name is no longer than its capital form, which is the
name of one of the members.
-/

namespace AssemblerIndex

namespace Text

theorem upperChar_ne_nil (c : Char) : upperChar c ≠ [] := by
  have long : ∀ e ∈ longCapitals, e.2 ≠ [] := by decide
  unfold upperChar
  split
  · simp
  · split
    · rename_i ns hns
      obtain ⟨l₁, l₂, h, -⟩ := List.lookup_eq_some_iff.1 hns
      have := long (c.toNat, ns) (by rw [h]; simp)
      simpa using this
    · simp

/-- A text is no longer than its capital form. -/
theorem length_le_upperChars (s : List Char) : s.length ≤ (upperChars s).length := by
  induction s with
  | nil => simp
  | cons c s ih =>
    have := List.length_pos_iff.2 (upperChar_ne_nil c)
    unfold upperChars at ih ⊢
    rw [List.flatMap_cons, List.length_append, List.length_cons]
    omega

end Text

/-- There are finitely many texts of bounded length. -/
theorem finite_length_le (n : Nat) : {s : String | s.toList.length ≤ n}.Finite := by
  have hchar : Finite Char := Finite.of_injective (fun c : Char => (⟨c.val.toNat, c.val.toNat_lt⟩ : Fin _))
    fun a b h => Char.ext (UInt32.toNat_inj.1 (Fin.mk.inj h))
  exact (List.finite_length_le Char n).preimage (fun a _ b _ h => String.toList_inj.1 h)

/-- Finitely many names lead to a member of a library in memory. -/
theorem Library.finite_ofMembers (members : List (String × LibraryMember)) :
    {n | ((ofMembers members).find? n).isSome}.Finite := by
  let table := Table.ofList (members.map fun m => (Text.upper m.1, m.2))
  obtain ⟨k, hk⟩ : ∃ k, ∀ n ∈ table.names, n.toList.length ≤ k :=
    ⟨(table.names.map fun n => n.toList.length).sum, fun n hn => List.le_sum_of_mem (List.mem_map_of_mem hn)⟩
  refine (finite_length_le k).subset fun n hn => ?_
  obtain ⟨m, hm⟩ := Option.isSome_iff_exists.1 hn
  have hmem : (Text.upper n, m) ∈ table.entries := Table.mem_of_lookup hm
  have h1 := hk (Text.upper n) (List.mem_map.2 ⟨_, hmem, rfl⟩)
  have h2 := Text.length_le_upperChars n.toList
  rw [Text.upper, String.toList_ofList] at h1
  exact h2.trans h1

/-- All names that lead to a member of a library in memory are among finitely many. -/
theorem Library.exists_names (members : List (String × LibraryMember)) :
    ∃ names : Finset String, ∀ n m, (ofMembers members).find? n = some m → n ∈ names := by
  have hfin := finite_ofMembers members
  refine ⟨hfin.toFinset, fun n m hm => hfin.mem_toFinset.2 ?_⟩
  rw [Set.mem_ofPred_eq, hm]
  rfl

end AssemblerIndex
