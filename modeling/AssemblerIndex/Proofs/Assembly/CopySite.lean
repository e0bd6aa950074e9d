import AssemblerIndex.Proofs.Assembly.Alike
import AssemblerIndex.Proofs.Assembly.Pairing

/-!
# A copy statement and the member that it names

An open code with a copy statement is compared to the one that has the statements of the member in its
place.  A place of the one listing is a place of the other one at an index that `shift` says; while the
member is open, its statements are those inserted (`Along`).
-/

namespace AssemblerIndex

open Assembly

/-- A copy statement in an open code, what stands before and after it, and the member of the library that
it names. -/
structure CopySite where
  file : String
  library : Library
  settings : Settings
  now : Moment
  before : List Statement
  copy : Statement
  after : List Statement
  name : String
  found : LibraryMember

namespace CopySite

variable (S : CopySite)

/-- The statements of the member. -/
def body : List Statement := statementsOf S.found.text.toList

/-- The member as it is copied. -/
def member : CopyMember := S.found.copyMember S.name

/-- The open code with the copy statement. -/
def copying : List Statement := S.before ++ S.copy :: S.after

/-- The open code with the statements of the member in its place. -/
def inlined : List Statement := S.before ++ (S.body ++ S.after)

/-- What is assembled, with a list of statements as the open code. -/
def job (l : List Statement) : Job := ⟨l.toArray, S.file, S.library, S.settings⟩

/-- The assembly of a list of statements as the open code, from a fresh state. -/
def assembling (l : List Statement) : Assembly :=
  { fresh S.file "" S.library S.settings S.now with control := [⟨.openCode l.toArray S.file, 0⟩] }

/-- The index of the statement in the one listing that stands at `i` in the other one. -/
def shift (i : Nat) : Nat := if i ≤ S.before.length then i else i - 1 + S.body.length

/-- The entry of a label in the one listing that stands for a label in the other one. -/
def relabel (l : SequenceSymbol) : SequenceSymbol :=
  if l.location.file = S.file then { l with offset := S.shift l.offset } else l

theorem moves_shift : Moves S.relabel S.shift S.file where
  sameFile l := by
    unfold relabel
    split <;> rfl
  moved _ h := if_pos h

theorem moves_id {file : String} (hf : file ≠ S.file) : Moves S.relabel id file where
  sameFile := S.moves_shift.sameFile
  moved _ h := if_neg (h ▸ hf)

theorem balanced_assembling (l : List Statement) : Balanced (S.job l) (S.assembling l) :=
  ⟨rfl, rfl, .openCode 0, rfl, rfl, Nat.zero_le _,
    (sound_fresh S.file "" S.library S.settings S.now).of_names rfl fun _ => id, rfl⟩

/-! ### Places -/

section Places

variable {S} {i : Nat}

theorem shift_of_le (h : i ≤ S.before.length) : S.shift i = i := if_pos h

theorem shift_of_lt (h : S.before.length < i) : S.shift i = i - 1 + S.body.length :=
  if_neg (Nat.not_le.2 h)

theorem shift_succ (h : i ≠ S.before.length) : S.shift (i + 1) = S.shift i + 1 := by
  rcases Nat.lt_or_gt_of_ne h with hlt | hgt
  · rw [shift_of_le hlt, shift_of_le (Nat.le_of_lt hlt)]
  · rw [shift_of_lt hgt, shift_of_lt (Nat.lt_succ_of_lt hgt)]
    omega

/-- Up to the copy statement the listings are the same. -/
theorem drop_of_le (h : i ≤ S.before.length) :
    S.copying.drop i = S.before.drop i ++ S.copy :: S.after ∧
      S.inlined.drop i = S.before.drop i ++ (S.body ++ S.after) :=
  ⟨List.drop_append_of_le_length h, List.drop_append_of_le_length h⟩

/-- Behind the copy statement the one listing is the other one at shifted indices. -/
theorem drop_of_lt (h : S.before.length < i) : S.inlined.drop (S.shift i) = S.copying.drop i := by
  obtain ⟨k, rfl⟩ := Nat.exists_eq_add_of_lt h
  have hcopying : S.copying = (S.before ++ [S.copy]) ++ S.after := by simp [copying]
  have hinlined : S.inlined = (S.before ++ S.body) ++ S.after := by simp [inlined]
  rw [shift_of_lt h, hcopying, hinlined,
    show S.before.length + k + 1 = (S.before ++ [S.copy]).length + k by simp; omega,
    show (S.before ++ [S.copy]).length + k - 1 + S.body.length = (S.before ++ S.body).length + k by
      simp; omega,
    List.drop_length_add_append, List.drop_length_add_append]

theorem getElem?_copying (hi : i ≠ S.before.length) : S.inlined[S.shift i]? = S.copying[i]? := by
  rcases Nat.lt_or_gt_of_ne hi with hlt | hgt
  · rw [shift_of_le (Nat.le_of_lt hlt)]
    unfold inlined copying
    rw [List.getElem?_append_left hlt, List.getElem?_append_left hlt]
  · rw [← List.head?_drop, ← List.head?_drop, drop_of_lt hgt]

theorem getElem?_copy : S.copying[S.before.length]? = some S.copy := by
  unfold copying
  rw [List.getElem?_append_right (Nat.le_refl _), Nat.sub_self]
  rfl

theorem getElem?_body {k : Nat} (hk : k < S.body.length) :
    S.inlined[S.before.length + k]? = S.body[k]? := by
  unfold inlined
  rw [List.getElem?_append_right (Nat.le_add_right ..), Nat.add_sub_cancel_left,
    List.getElem?_append_left hk]

/-- Behind a statement other than the copy statement the listings have the same labels. -/
theorem facing (hcopy : S.copy.IsPlain) (hbody : ∀ s ∈ S.body, s.IsPlain) (hi : i ≠ S.before.length) :
    Facing S.shift (i + 1) (S.copying.drop (i + 1)) (S.shift i + 1) (S.inlined.drop (S.shift i + 1)) := by
  rcases Nat.lt_or_gt_of_ne hi with hlt | hgt
  · obtain ⟨h1, h2⟩ := drop_of_le (S := S) (i := i + 1) hlt
    have hlen : i + 1 + (S.before.drop (i + 1)).length = S.before.length := by
      rw [List.length_drop]
      omega
    -- what remains before the site, then the statements that only one side has, then what follows
    rw [shift_of_le (Nat.le_of_lt hlt), h1, h2]
    refine .append_both _ (fun k hk => shift_of_le (by omega)) ?_
    rw [hlen]
    refine .left hcopy (.append_right _ hbody (facing_self _ fun k => ?_))
    rw [shift_of_lt (by omega)]
    omega
  · rw [← shift_succ hi, drop_of_lt (Nat.lt_succ_of_lt hgt)]
    refine facing_self _ fun k => ?_
    rw [shift_of_lt (by omega), shift_of_lt (by omega)]
    omega

/-! ### Definitions -/

/-- A definition that is closed within a list of statements does not depend on what follows. -/
theorem throughMend_append {l m : List NestedStatement} (n : List NestedStatement) (hm : m ≠ [])
    (depth : Int) (h : (throughMend depth (l ++ m)).length ≤ l.length) :
    throughMend depth (l ++ n) = throughMend depth (l ++ m) := by
  induction l generalizing depth with
  | nil =>
    have := length_throughMend_pos hm depth
    rw [List.nil_append, List.length_nil] at h
    omega
  | cons s rest ih =>
    rw [List.cons_append, List.cons_append, throughMend, throughMend]
    rw [List.cons_append, throughMend] at h
    split
    · rfl
    · rename_i hs
      rw [if_neg hs, List.length_cons, List.length_cons] at h
      rw [ih _ (by omega)]

/-- A definition reaches as far in the one listing as in the other one, since the copy statement stands
outside of it. -/
theorem throughMend_shift (ho : Outside S.copying S.before.length) {s : Statement}
    (hs : S.copying[i]? = some s) (hop : s.opcode = "MACRO") (hi : i ≠ S.before.length) :
    ∃ items, throughMend 0 ((S.copying.drop i).map (.direct S.file)) = items ∧
      throughMend 0 ((S.inlined.drop (S.shift i)).map (.direct S.file)) = items ∧
      S.shift (i + items.length) = S.shift i + items.length := by
  refine ⟨_, rfl, ?_⟩
  rcases Nat.lt_or_gt_of_ne hi with hlt | hgt
  · obtain ⟨h1, h2⟩ := drop_of_le (Nat.le_of_lt hlt)
    have hend : i + (throughMend 0 ((S.copying.drop i).map (.direct S.file))).length ≤ S.before.length := by
      rw [length_throughMend, List.map_map]
      have := ho i s hs hop (Nat.le_of_lt hlt)
      rwa [blockEnd, ← List.map_id (S.copying.drop i)] at this
    rw [shift_of_le (Nat.le_of_lt hlt), shift_of_le hend]
    refine ⟨?_, rfl⟩
    rw [h1, List.map_append] at hend ⊢
    rw [h2, List.map_append]
    refine throughMend_append _ (by simp) 0 ?_
    rw [List.length_map, List.length_drop]
    omega
  · rw [drop_of_lt hgt, shift_of_lt hgt, shift_of_lt (Nat.lt_add_right _ hgt)]
    exact ⟨rfl, by omega⟩

end Places

/-! ### Listings -/

/-- The listings on the two sides while the member is not open in the place of the copy statement, and no
macro is being expanded. -/
inductive Beside : List Activation → List Activation → Prop
  | openCode (i : Nat) : Beside [⟨.openCode S.copying.toArray S.file, i⟩]
    [⟨.openCode S.inlined.toArray S.file, S.shift i⟩]
  | copy {outer outer' : List Activation} (m : CopyMember) (i : Nat) (capital : Text.upper m.name = m.name)
    (h : Beside outer outer') :
    Beside (⟨.copyMember m, i⟩ :: outer) (⟨.copyMember m, i⟩ :: outer')

/-- The listings on the two sides. -/
inductive Along : List Activation → List Activation → Prop
  | finished : Along [] []
  | beside {control control' : List Activation} (h : S.Beside control control') : Along control control'
  | inserted (k : Nat) (hk : k ≤ S.body.length) :
    Along [⟨.copyMember S.member, k⟩, ⟨.openCode S.copying.toArray S.file, S.before.length + 1⟩]
      [⟨.openCode S.inlined.toArray S.file, S.before.length + k⟩]
  | call {outer outer' : List Activation} (d : MacroDefinition) (i : Nat) (h : Along outer outer') :
    Along (⟨.macroBody d, i⟩ :: outer) (⟨.macroBody d, i⟩ :: outer')

/-- Assemblies that are alike run side by side. -/
def pairing : Pairing alikeness where
  relabel := S.relabel
  Along := S.Along
  finished := .finished
  call i hd h := by
    obtain rfl : _ = _ := hd
    exact .call _ i h

section Listings

variable {S} {control control' : List Activation} {a b : Assembly} {j j' : Job}

theorem Along.isEmpty (h : S.Along control control') : control.isEmpty = control'.isEmpty := by
  cases h with
  | finished => rfl
  | beside h => cases h <;> rfl
  | inserted k hk => rfl
  | call d i h => rfl

theorem Beside.membersIn (h : S.Beside control control') : membersIn control = membersIn control' := by
  induction h with
  | openCode i => rfl
  | copy m i _ _ ih => exact congrArg (m.name :: ·) ih

/-- Outside of the inserted statements the same copy members are open on both sides. -/
theorem Beside.sameOpen (h : S.Beside a.control b.control) (ha : Balanced j a) (hb : Balanced j' b) :
    SameOpen a b :=
  ⟨ha.sources, hb.sources, by rw [ha.openCopyMembers, hb.openCopyMembers, h.membersIn]⟩

end Listings

end CopySite

end AssemblerIndex
