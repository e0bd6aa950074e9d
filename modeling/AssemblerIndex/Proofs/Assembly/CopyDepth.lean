import AssemblerIndex.Proofs.Assembly.Stays
import Mathlib.Data.Finset.Card

/-!
# The nesting of copy members in a definition

A definition is read with a bound on the nesting of its copy members.  The bound is never met: no member
is opened in itself, and behind the first one each is named by a statement of a member of the library,
of which there are no more than characters.  So a greater bound reads the same (`readTo_eq`).
-/

namespace AssemblerIndex

/-! ### The number of statements -/

theorem length_flatten_linePieces (s : List Char) : (linePieces s).flatten.length ≤ s.length := by
  induction s with
  | nil => simp [linePieces]
  | cons c rest ih =>
    unfold linePieces
    split
    · simp only [List.flatten_cons, List.nil_append, List.length_cons]
      omega
    · split
      · rename_i p ps hp
        rw [hp] at ih
        simp only [List.flatten_cons, List.length_append, List.length_cons] at ih ⊢
        omega
      · simp

theorem length_dropReturn (s : List Char) : (dropReturn s).length ≤ s.length := by
  unfold dropReturn
  split <;> simp

theorem length_flatten_map_le {α : Type} {f : List α → List α} (hf : ∀ l, (f l).length ≤ l.length)
    (ls : List (List α)) : (ls.map f).flatten.length ≤ ls.flatten.length := by
  induction ls with
  | nil => simp
  | cons l ls ih =>
    have := hf l
    simp only [List.map_cons, List.flatten_cons, List.length_append]
    omega

theorem length_flatten_recordLines (s : List Char) : (recordLines s).flatten.length ≤ s.length := by
  refine le_trans ?_ (length_flatten_linePieces s)
  have hne := linePieces_ne_nil s
  unfold recordLines
  dsimp only
  have hsplit : linePieces s = (linePieces s).dropLast ++ [(linePieces s).getLast?.getD []] := by
    rw [List.getLast?_eq_some_getLast hne, Option.getD_some, List.dropLast_append_getLast hne]
  have hmap := length_flatten_map_le length_dropReturn (linePieces s).dropLast
  have hall := congrArg (fun l => l.flatten.length) hsplit
  simp only [List.flatten_append, List.length_append, List.flatten_cons, List.flatten_nil,
    List.append_nil] at hall
  split
  · simp only [List.append_nil]
    omega
  · simp only [List.flatten_append, List.flatten_cons, List.flatten_nil, List.append_nil,
      List.length_append]
    omega

/-- Every statement has a line of its own that is not blank. -/
theorem length_statementLines (row : Nat) (open? : Option (List NumberedLine)) (ls : List (List Char)) :
    (statementLines row open? ls).length ≤ ls.flatten.length + (if open?.isSome then 1 else 0) := by
  induction ls generalizing row open? with
  | nil => simp [statementLines]
  | cons line rest ih =>
    have hfl : (line :: rest).flatten.length = line.length + rest.flatten.length := by simp
    unfold statementLines
    dsimp only
    split
    · split
      · have := ih (row + 1) none
        simp only [Option.isSome_none, Bool.false_eq_true, if_false] at this ⊢
        omega
      · rename_i hline
        -- a line that is not blank has a character
        have hpos : 0 < line.length := by
          rcases Nat.eq_zero_or_pos line.length with h | h
          · rw [List.length_eq_zero_iff.1 h] at hline
            simp [Text.isBlankLine] at hline
          · exact h
        split
        · have := ih (row + 1) (some [⟨row, line⟩])
          simp only [Option.isSome_some, if_true, Option.isSome_none, Bool.false_eq_true, if_false]
            at this ⊢
          omega
        · have := ih (row + 1) none
          simp only [Option.isSome_none, Bool.false_eq_true, if_false, List.length_cons] at this ⊢
          omega
    · rename_i l
      split
      · have := ih (row + 1) (some (⟨row, line⟩ :: l))
        simp only [Option.isSome_some, if_true] at this ⊢
        omega
      · have := ih (row + 1) none
        simp only [Option.isSome_none, Bool.false_eq_true, if_false, List.length_cons,
          Option.isSome_some, if_true] at this ⊢
        omega

theorem length_statementsOf (s : List Char) : (statementsOf s).length ≤ s.length := by
  unfold statementsOf
  rw [List.length_map]
  have h1 := length_statementLines 0 none (recordLines s)
  have h2 := length_flatten_recordLines s
  simp only [Option.isSome_none, Bool.false_eq_true, if_false] at h1
  omega

/-! ### The names that members of the library copy -/

/-- The names of the copy members that the statements of the members of a library ask for. -/
def Library.copyNames (l : Library) : List String :=
  l.members.flatMap fun f => (statementsOf f.text.toList).filterMap fun s =>
    (NestedStatement.mk s []).copyName?

theorem Library.length_copyNames (l : Library) : l.copyNames.length ≤ l.extent := by
  have key : ∀ (ms : List LibraryMember) (n : Nat), n + (ms.flatMap fun f =>
      (statementsOf f.text.toList).filterMap fun s => (NestedStatement.mk s []).copyName?).length ≤
      ms.foldl (fun n m => n + m.text.length) n := by
    intro ms
    induction ms with
    | nil => simp
    | cons m ms ih =>
      intro n
      have h1 := List.length_filterMap_le (fun s => (NestedStatement.mk s []).copyName?)
        (statementsOf m.text.toList)
      have h2 := length_statementsOf m.text.toList
      have h3 := ih (n + m.text.length)
      rw [String.length_toList] at h2
      rw [List.flatMap_cons, List.length_append, List.foldl_cons]
      omega
  have := key l.members 0
  unfold copyNames extent
  omega

namespace Assembly

theorem extent_lt_copyDepth (a : Assembly) : a.library.extent + 2 ≤ a.copyDepth := by
  unfold copyDepth
  omega

/-! ### Opening copy members -/

/-- One more name in a list leaves fewer names outside of it. -/
theorem card_filter_lt {names : Finset String} {l : List String} {n : String} (h : n ∈ names)
    (hn : n ∉ l) : (names.filter (· ∉ n :: l)).card < (names.filter (· ∉ l)).card := by
  refine Finset.card_lt_card ⟨fun x hx => ?_, fun hsub => ?_⟩
  · rw [Finset.mem_filter] at hx ⊢
    exact ⟨hx.1, fun hmem => hx.2 (List.mem_cons_of_mem _ hmem)⟩
  · have := hsub (Finset.mem_filter.2 ⟨h, hn⟩)
    rw [Finset.mem_filter] at this
    exact this.2 List.mem_cons_self

/-- What is read does not depend on the bound if the tables are in order. -/
def Agree (library : Library) (openMembers : List String) (items : List NestedStatement)
    (f g : List String → Reading → List NestedStatement → Reading) : Prop :=
  ∀ r : Reading, r.assembly.Sound → r.assembly.library = library →
    f openMembers r items = g openMembers r items

/-- A copy member that takes the place of a statement is one of the library that was not open. -/
theorem copied?_eq_some {r r' : Reading} {openMembers : List String} {n : NestedStatement}
    {m : CopyMember} (hr : r.assembly.Sound) (h : r.copied? openMembers n = (r', some m)) :
    n.copyName? = some m.name ∧ m.name ∉ openMembers ∧
      ∃ f ∈ r.assembly.library.members, m = f.copyMember m.name := by
  unfold Reading.copied? at h
  split at h
  · simp at h
  · rename_i name hname
    have hs := spares_copyMember? r.assembly name
    have hfind := @find?_of_copyMember? r.assembly hr name
    generalize r.assembly.copyMember? name = u at h hs hfind
    obtain ⟨a, m?⟩ := u
    dsimp only at h hs hfind
    obtain ⟨-, hm⟩ := Prod.mk.inj h
    obtain ⟨rfl, hopen⟩ := Option.filter_eq_some_iff.1 hm
    obtain ⟨rfl, hmem⟩ := hfind rfl
    obtain ⟨f, hf, hm'⟩ := (hs.sound hr).copyMember hmem
    refine ⟨hname, by simpa using hopen, f, ?_, hm'⟩
    rw [hs.library] at hf
    exact r.assembly.library.mem_of_find? _ _ hf

/-- A statement is appended in the same way if the copy member that it opens is. -/
theorem agree_appendOne {library : Library} {openMembers : List String} {n : NestedStatement}
    {f g : List String → Reading → List NestedStatement → Reading}
    (h : ∀ m : CopyMember, n.copyName? = some m.name → m.name ∉ openMembers →
      (∃ f ∈ library.members, m = f.copyMember m.name) →
      Agree library (m.name :: openMembers) (n.copied m) f g)
    {r : Reading} (hr : r.assembly.Sound) (hl : r.assembly.library = library) :
    r.appendOne f openMembers n = r.appendOne g openMembers n := by
  unfold Reading.appendOne
  have hn := spares_noteBody r n
  have hc := (loads_copied? (r.noteBody n) openMembers n).spares
  have hcopied := @copied?_eq_some (r.noteBody n)
  dsimp only
  split
  · generalize hq : (r.noteBody n).copied? openMembers n = q at hc
    obtain ⟨r', m?⟩ := q
    cases m? with
    | none => rfl
    | some m =>
      obtain ⟨h1, h2, h3⟩ := hcopied (hn.sound hr) hq
      rw [hn.library, hl] at h3
      exact h m h1 h2 h3 r' (hc.sound (hn.sound hr)) ((hc.library.trans hn.library).trans hl)
  · rfl

/-- Statements are appended in the same way if the copy members that they open are. -/
theorem agree_append {library : Library} {openMembers : List String} {items : List NestedStatement}
    {d e : Nat}
    (h : ∀ n ∈ items, ∀ m : CopyMember, n.copyName? = some m.name → m.name ∉ openMembers →
      (∃ f ∈ library.members, m = f.copyMember m.name) →
      Agree library (m.name :: openMembers) (n.copied m) (Reading.append d) (Reading.append e)) :
    Agree library openMembers items (Reading.append (d + 1)) (Reading.append (e + 1)) := by
  intro r hr hl
  unfold Reading.append
  induction items generalizing r with
  | nil => rfl
  | cons n rest ih =>
    rw [List.foldl_cons, List.foldl_cons, agree_appendOne (h n List.mem_cons_self) hr hl]
    have hs := (loads_appendOne (loads_append e) openMembers r n).spares
    exact ih (fun k hk => h k (List.mem_cons_of_mem _ hk)) _ (hs.sound hr) (hs.library.trans hl)

/-- The statements of a copy member ask for names that members of the library ask for. -/
theorem mem_copyNames {library : Library} {f : LibraryMember} (hf : f ∈ library.members)
    {name x : String} {n k : NestedStatement} (hk : k ∈ n.copied (f.copyMember name))
    (hx : k.copyName? = some x) : x ∈ library.copyNames := by
  unfold NestedStatement.copied at hk
  obtain ⟨s, hs, rfl⟩ := List.mem_map.1 hk
  refine List.mem_flatMap.2 ⟨f, hf, List.mem_filterMap.2 ⟨s, ?_, hx⟩⟩
  simpa [LibraryMember.copyMember] using hs

/-- A bound that exceeds the number of names that are still to be opened is never met. -/
theorem agree_of_card {library : Library} (k : Nat) {openMembers : List String}
    {items : List NestedStatement}
    (hitems : ∀ n ∈ items, ∀ x, n.copyName? = some x → x ∈ library.copyNames)
    (hk : (library.copyNames.toFinset.filter (· ∉ openMembers)).card ≤ k) (d e : Nat) :
    Agree library openMembers items (Reading.append (k + 1 + d)) (Reading.append (k + 1 + e)) := by
  induction k generalizing openMembers items with
  | zero =>
    rw [Nat.zero_add, Nat.add_comm 1, Nat.add_comm 1]
    refine agree_append fun n hn m hname hopen _ => ?_
    have := card_filter_lt (List.mem_toFinset.2 (hitems n hn _ hname)) hopen
    omega
  | succ k ih =>
    rw [show k + 1 + 1 + d = k + 1 + d + 1 by omega, show k + 1 + 1 + e = k + 1 + e + 1 by omega]
    refine agree_append fun n hn m hname hopen ⟨f, hf, hm⟩ => ?_
    have := card_filter_lt (List.mem_toFinset.2 (hitems n hn _ hname)) hopen
    refine ih (fun n' hn' x hx => ?_) (by omega)
    rw [hm] at hn'
    exact mem_copyNames hf hn' hx

/-- Reads a definition, opening copy members at most `depth - 1` deep. -/
def readTo (a : Assembly) (depth : Nat) (opening prototype : NestedStatement)
    (rest : List NestedStatement) : Reading :=
  ((({ assembly := a } : Reading).note opening none).note prototype none).append depth [] rest

/-- **The bound on the nesting of copy members is never met**: a greater one reads the same. -/
theorem readTo_eq {a : Assembly} (ha : a.Sound) {depth : Nat} (hd : a.copyDepth ≤ depth)
    (opening prototype : NestedStatement) (rest : List NestedStatement) :
    a.readTo depth opening prototype rest = a.read opening prototype rest := by
  have hext := extent_lt_copyDepth a
  have hlen := a.library.length_copyNames
  obtain ⟨d, rfl⟩ : ∃ d, depth = a.library.extent + 1 + d + 1 := ⟨depth - (a.library.extent + 2), by omega⟩
  obtain ⟨e, he⟩ : ∃ e, a.copyDepth = a.library.extent + 1 + e + 1 :=
    ⟨a.copyDepth - (a.library.extent + 2), by omega⟩
  have key : Agree a.library [] rest (Reading.append (a.library.extent + 1 + d + 1))
      (Reading.append (a.library.extent + 1 + e + 1)) := by
    refine agree_append fun n _ m _ _ ⟨f, hf, hm⟩ => agree_of_card _ (fun k hk x hx => ?_) ?_ d e
    · rw [hm] at hk
      exact mem_copyNames hf hk hx
    · refine (Finset.card_filter_le _ _).trans ((List.toFinset_card_le _).trans hlen)
  have h1 := spares_note { assembly := a } opening none
  have h2 := spares_note (({ assembly := a } : Reading).note opening none) prototype none
  unfold readTo read
  rw [he]
  exact key _ (h2.sound (h1.sound ha)) (h2.library.trans h1.library)

end Assembly

end AssemblerIndex
