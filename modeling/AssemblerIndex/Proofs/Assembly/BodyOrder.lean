import Mathlib.Data.List.Lex
import AssemblerIndex.Proofs.Assembly.Chronicle
import AssemblerIndex.Proofs.Statement.OccurrenceOrder

/-!
# The order of the statements of a body

The body of a macro holds statements of the file where it is defined and, in the places of `COPY` statements, those of
copy members.  Each comes with a nest that tells the way it came by, and these ways are in lexicographic order.

* `NestedStatement.InFront` — the order; statements that came the same way are in the order of their lines;
* `exists_of_lex_between` — what lies between two statements that came the same way came that way at least;
* `Expands` — what is read of statements with the copy members that they name: it is in order (`Expands.pairwise`),
  and copy members are read as a whole (`Expands.mem_or_whole`);
* `exists_expands_read` — the body of a definition is what is kept of what is read, and all of that is noted;
* `Chronicle.pieced` — the body of every macro that was registered is a piece of what is read of a file, so that
  **it is in order**, and no `COPY` is left in it (`Chronicle.orderly`).
-/

namespace AssemblerIndex

open Assembly (Job)

/-! ### The order of the statements in a listing -/

/-- The place lies in an earlier line of the same file. -/
def NestItem.Before (i k : NestItem) : Prop :=
  i.location.file = k.location.file ∧ i.location.pos.line < k.location.pos.line

instance : Std.Asymm NestItem.Before := ⟨fun _ _ h h' => Nat.lt_asymm h.2 h'.2⟩

/-- The statement stands in front of the other: their ways part at two places of a file, its own being the earlier one.
If both came the same way, its lines end before those of the other begin. -/
structure NestedStatement.InFront (n k : NestedStatement) : Prop where
  nest : List.Lex NestItem.Before n.nest k.nest
  lines : n.nest.dropLast = k.nest.dropLast →
    n.file = k.file ∧ n.statement.span.stop.line < k.statement.span.start.line

/-- What lies between two ways that part in their last places came the same way up to there. -/
theorem exists_of_lex_between {i k : NestItem} {way : List NestItem} {l : List NestItem}
    (h : List.Lex NestItem.Before (way ++ [i]) l) (h' : List.Lex NestItem.Before l (way ++ [k])) :
    ∃ m more, l = way ++ m :: more := by
  induction way generalizing l with
  | nil =>
    cases l with
    | nil => cases h
    | cons m more => exact ⟨m, more, rfl⟩
  | cons w way ih =>
    cases h with
    | cons h =>
      cases h' with
      | cons h' =>
        obtain ⟨m, more, rfl⟩ := ih h h'
        exact ⟨m, more, rfl⟩
      | rel h' => exact absurd h' (asymm h')
    | rel h =>
      cases h' with
      | cons h' => exact absurd h (asymm h)
      | rel h' => exact absurd h' (asymm h)

namespace NestedStatement

/-- A statement of a file that came by the given way. -/
def placed (way : List NestItem) (file : String) (member : Option String) (s : Statement) : NestedStatement :=
  ⟨s, way ++ [⟨⟨file, s.position⟩, member⟩]⟩

section

variable {way : List NestItem} {file : String} {member : Option String} {s t : Statement}

@[simp] theorem nest_placed : (placed way file member s).nest = way ++ [⟨⟨file, s.position⟩, member⟩] := rfl

@[simp] theorem dropLast_nest_placed : (placed way file member s).nest.dropLast = way := List.dropLast_concat

@[simp] theorem file_placed : (placed way file member s).file = file := by
  simp [placed, NestedStatement.file]

end

end NestedStatement

open NestedStatement

/-- The statements of a file stand in order, whichever way they came by. -/
theorem pairwise_placed (way : List NestItem) (file : String) (member : Option String) (source : List Char) :
    ((statementsOf source).map (placed way file member)).Pairwise InFront := by
  refine List.pairwise_map.2 ((pairwise_line_lt_statementsOf source).imp_of_mem fun {s t} hs ht hlt => ?_)
  have hline := position_line_of_mem hs
  have hline' := position_line_of_mem ht
  refine ⟨List.Lex.append_left _ (.rel ⟨rfl, ?_⟩) way, fun _ => ⟨by simp, hlt⟩⟩
  show s.position.line < t.position.line
  omega

/-! ### What takes the place of `COPY` statements -/

theorem lex_append {l k : List NestItem} (h : List.Lex NestItem.Before l k) (hlength : l.length = k.length)
    (more more' : List NestItem) : List.Lex NestItem.Before (l ++ more) (k ++ more') := by
  induction h with
  | nil => cases hlength
  | cons _ ih => exact .cons (ih (by simpa using hlength))
  | rel h => exact .rel h

/-- The statement is the other one, or takes the place of it, with others, if that is a `COPY`. -/
def NestedStatement.Under (n k : NestedStatement) : Prop := k = n ∨ n.nest <+: k.nest.dropLast

theorem NestedStatement.Under.leads {n k : NestedStatement} (h : n.Under k) : n.nest <+: k.nest := by
  rcases h with rfl | h
  · exact List.prefix_rfl
  · exact h.trans (List.dropLast_prefix _)

/-- The order of statements that came the same way is that of what takes their places. -/
theorem NestedStatement.InFront.of_under {n n' k k' : NestedStatement} (h : n.InFront n') (hne : n.nest ≠ [])
    (hne' : n'.nest ≠ []) (hway : n.nest.dropLast = n'.nest.dropLast) (hk : n.Under k) (hk' : n'.Under k') :
    k.InFront k' := by
  have hpositive := List.length_pos_iff.2 hne
  have hpositive' := List.length_pos_iff.2 hne'
  have hlength : n.nest.length = n'.nest.length := by
    have := congrArg List.length hway
    simp only [List.length_dropLast] at this
    omega
  constructor
  · obtain ⟨more, hmore⟩ := hk.leads
    obtain ⟨more', hmore'⟩ := hk'.leads
    rw [← hmore, ← hmore']
    exact lex_append h.nest hlength more more'
  · intro heq
    rcases hk with rfl | hk <;> rcases hk' with rfl | hk'
    · exact h.lines hway
    · have := (heq ▸ hk').length_le
      rw [List.length_dropLast] at this
      omega
    · have := (heq ▸ hk).length_le
      rw [List.length_dropLast] at this
      omega
    · have hsame := (List.prefix_of_prefix_length_le (heq ▸ hk) hk' hlength.le).eq_of_length hlength
      exact absurd h.nest (asymm (hsame ▸ h.nest))

/-- What takes the place of a copied statement takes the place of the `COPY`. -/
theorem under_of_under_copied {n n' k : NestedStatement} {m : CopyMember} (hn' : n' ∈ n.copied m) (hk : n'.Under k) :
    n.Under k := by
  obtain ⟨s, -, rfl⟩ := List.mem_map.1 hn'
  rcases hk with rfl | hk
  · exact .inr (by simp)
  · exact .inr ((List.prefix_append ..).trans hk)

/-- A `COPY` stands in front of what takes its place. -/
theorem inFront_of_under_copied {n n' k : NestedStatement} {m : CopyMember} (hne : n.nest ≠ []) (hn' : n' ∈ n.copied m)
    (hk : n'.Under k) : n.InFront k := by
  obtain ⟨s, -, rfl⟩ := List.mem_map.1 hn'
  obtain ⟨more, hmore⟩ := hk.leads
  simp only [List.append_assoc, List.singleton_append] at hmore
  constructor
  · have := hmore ▸ List.Lex.append_left NestItem.Before .nil n.nest
    rwa [List.append_nil] at this
  · intro hway
    have := congrArg List.length hway
    have := List.length_pos_iff.2 hne
    simp only [← hmore, List.length_dropLast, List.length_append, List.length_cons] at *
    omega

/-- What is read of statements: they themselves and, behind a `COPY`, what is read of the member that it names, unless
that is passed over. -/
inductive Expands (l : Library) : List NestedStatement → List NestedStatement → Prop
  | nil : Expands l [] []
  | kept {n : NestedStatement} {items new : List NestedStatement} (keeps : n.statement.opcode ≠ "COPY")
    (h : Expands l items new) : Expands l (n :: items) (n :: new)
  | copied {n : NestedStatement} {name : String} {found : LibraryMember} {items inner new : List NestedStatement}
    (copies : n.statement.opcode = "COPY") (find : l.find? name = some found)
    (inside : Expands l (n.copied (found.copyMember name)) inner) (h : Expands l items new) :
    Expands l (n :: items) (n :: (inner ++ new))
  | passed {n : NestedStatement} {items new : List NestedStatement} (copies : n.statement.opcode = "COPY")
    (h : Expands l items new) : Expands l (n :: items) (n :: new)

/-- The statement is kept in a body. -/
def NestedStatement.keeps (n : NestedStatement) : Bool := n.statement.opcode ≠ "COPY"

@[simp] theorem NestedStatement.keeps_iff {n : NestedStatement} : n.keeps ↔ n.statement.opcode ≠ "COPY" := by
  simp [keeps]

namespace Expands

variable {l : Library} {items new : List NestedStatement}

theorem append {items' new' : List NestedStatement} (h : Expands l items new) (h' : Expands l items' new') :
    Expands l (items ++ items') (new ++ new') := by
  induction h with
  | nil => exact h'
  | kept keeps _ ih => exact .kept keeps ih
  | copied copies find inside _ _ ih =>
    rw [List.cons_append, List.cons_append, List.append_assoc]
    exact .copied copies find inside ih
  | passed copies _ ih => exact .passed copies ih

theorem cons (h : Expands l items new) (n : NestedStatement) : Expands l (n :: items) (n :: new) := by
  by_cases copies : n.statement.opcode = "COPY"
  · exact .passed copies h
  · exact .kept copies h

/-- All statements are read. -/
theorem subset (h : Expands l items new) : items ⊆ new := by
  induction h with
  | nil => exact fun _ => id
  | kept _ _ ih | passed _ _ ih => exact List.cons_subset_cons _ ih
  | copied _ _ _ _ _ ih => exact List.cons_subset_cons _ (List.subset_append_of_subset_right _ ih)

/-- Without a `COPY` nothing else is read. -/
theorem eq_of_forall_ne (h : Expands l items new) (hitems : ∀ n ∈ items, n.statement.opcode ≠ "COPY") :
    new = items := by
  induction h with
  | nil => rfl
  | kept _ _ ih => rw [ih (List.forall_mem_cons.1 hitems).2]
  | copied copies => exact absurd copies (hitems _ List.mem_cons_self)
  | passed copies => exact absurd copies (hitems _ List.mem_cons_self)

/-- What is read stands in the places of the statements. -/
theorem exists_under (h : Expands l items new) : ∀ k ∈ new, ∃ n ∈ items, n.Under k := by
  have hlater {n : NestedStatement} {items new : List NestedStatement} (h : ∀ k ∈ new, ∃ n ∈ items, n.Under k) :
      ∀ k ∈ new, ∃ n' ∈ n :: items, n'.Under k := by
    intro k hk
    obtain ⟨n', hn', hk⟩ := h k hk
    exact ⟨n', List.mem_cons_of_mem _ hn', hk⟩
  induction h with
  | nil => exact nofun
  | kept _ _ ih => exact List.forall_mem_cons.2 ⟨⟨_, List.mem_cons_self, .inl rfl⟩, hlater ih⟩
  | @copied n _ _ _ _ _ _ _ _ _ ih ih' =>
    refine List.forall_mem_cons.2 ⟨⟨n, List.mem_cons_self, .inl rfl⟩,
      List.forall_mem_append.2 ⟨fun k hk => ?_, hlater ih'⟩⟩
    obtain ⟨n', hn', hk⟩ := ih k hk
    exact ⟨n, List.mem_cons_self, under_of_under_copied hn' hk⟩
  | passed _ _ ih => exact List.forall_mem_cons.2 ⟨⟨_, List.mem_cons_self, .inl rfl⟩, hlater ih⟩

/-- What is read of a statement stands in front of what is read of later ones that came the same way. -/
theorem inFront {n k k' : NestedStatement} {way : List NestItem} (h : Expands l items new)
    (hway : ∀ n' ∈ n :: items, n'.nest ≠ [] ∧ n'.nest.dropLast = way) (hfront : ∀ n' ∈ items, n.InFront n')
    (hk : n.Under k) (hk' : k' ∈ new) : k.InFront k' := by
  obtain ⟨n', hn', hk'⟩ := h.exists_under k' hk'
  obtain ⟨hne, hn⟩ := hway n List.mem_cons_self
  obtain ⟨hne', hn''⟩ := hway n' (List.mem_cons_of_mem _ hn')
  exact (hfront n' hn').of_under hne hne' (hn.trans hn''.symm) hk hk'

/-- **What is read stands in order**, if the statements do and came the same way. -/
theorem pairwise (h : Expands l items new) (way : List NestItem)
    (hway : ∀ n ∈ items, n.nest ≠ [] ∧ n.nest.dropLast = way) (horder : items.Pairwise InFront) :
    new.Pairwise InFront := by
  induction h generalizing way with
  | nil => exact .nil
  | kept _ h ih | passed _ h ih =>
    obtain ⟨hfront, hrest⟩ := List.pairwise_cons.1 horder
    exact List.pairwise_cons.2 ⟨fun k hk => h.inFront hway hfront (.inl rfl) hk,
      ih way (List.forall_mem_cons.1 hway).2 hrest⟩
  | @copied n name found _ _ _ _ _ hinside h ih ih' =>
    obtain ⟨hfront, hrest⟩ := List.pairwise_cons.1 horder
    have hinner : ∀ n' ∈ n.copied (found.copyMember name), n'.nest ≠ [] ∧ n'.nest.dropLast = n.nest := by
      intro n' hn'
      obtain ⟨s, -, rfl⟩ := List.mem_map.1 hn'
      simp
    refine List.pairwise_cons.2 ⟨List.forall_mem_append.2 ⟨fun k hk => ?_, fun k hk => ?_⟩, List.pairwise_append.2
      ⟨ih n.nest hinner ?_, ih' way (List.forall_mem_cons.1 hway).2 hrest, fun k hk k' hk' => ?_⟩⟩
    · obtain ⟨n', hn', hk⟩ := hinside.exists_under k hk
      exact inFront_of_under_copied (hway n List.mem_cons_self).1 hn' hk
    · exact h.inFront hway hfront (.inl rfl) hk
    · exact pairwise_placed n.nest found.uri (some name) found.text.toList
    · obtain ⟨n', hn', hk⟩ := hinside.exists_under k hk
      exact h.inFront hway hfront (under_of_under_copied hn' hk) hk'

/-- What is read is one of the statements, or else one of a member of the library that is read as a whole. -/
theorem mem_or_whole (h : Expands l items new) (hitems : ∀ n ∈ items, n.nest ≠ []) : ∀ k ∈ new, k ∈ items ∨
    ∃ (name : String) (found : LibraryMember) (way : List NestItem), l.find? name = some found ∧ way ≠ [] ∧
      k ∈ (statementsOf found.text.toList).map (placed way found.uri (some name)) ∧
      (statementsOf found.text.toList).map (placed way found.uri (some name)) ⊆ new := by
  induction h with
  | nil => exact nofun
  | kept _ _ ih | passed _ _ ih =>
    refine List.forall_mem_cons.2 ⟨.inl List.mem_cons_self, fun k hk => ?_⟩
    refine (ih (List.forall_mem_cons.1 hitems).2 k hk).imp (List.mem_cons_of_mem _) ?_
    exact fun ⟨name, found, way, find, hne, hmem, hwhole⟩ =>
      ⟨name, found, way, find, hne, hmem, List.subset_cons_of_subset _ hwhole⟩
  | @copied n name found _ inner _ _ find hinside _ ih ih' =>
    obtain ⟨hn, hrest⟩ := List.forall_mem_cons.1 hitems
    have hinner : ∀ n' ∈ n.copied (found.copyMember name), n'.nest ≠ [] := by
      intro n' hn'
      obtain ⟨s, -, rfl⟩ := List.mem_map.1 hn'
      simp
    refine List.forall_mem_cons.2 ⟨.inl List.mem_cons_self,
      List.forall_mem_append.2 ⟨fun k hk => .inr ?_, fun k hk => ?_⟩⟩
    · rcases ih hinner k hk with hk | ⟨name', found', way, find', hne, hmem, hwhole⟩
      · exact ⟨name, found, n.nest, find, hn, hk, List.subset_cons_of_subset _
          (List.subset_append_of_subset_left _ hinside.subset)⟩
      · exact ⟨name', found', way, find', hne, hmem, List.subset_cons_of_subset _
          (List.subset_append_of_subset_left _ hwhole)⟩
    · refine (ih' hrest k hk).imp (List.mem_cons_of_mem _) ?_
      exact fun ⟨name', found', way, find', hne, hmem, hwhole⟩ => ⟨name', found', way, find', hne, hmem,
        List.subset_cons_of_subset _ (List.subset_append_of_subset_right _ hwhole)⟩

end Expands

/-- The occurrences in a statement, with some macro that it calls, are among others. -/
def NestedStatement.NotedIn (n : NestedStatement) (os : FileOccurrences) : Prop :=
  ∃ callee, ∀ o ∈ n.statement.occurrences callee, (n.file, o) ∈ os

theorem NestedStatement.NotedIn.mono {n : NestedStatement} {os os' : FileOccurrences} (h : n.NotedIn os)
    (hos : os ⊆ os') : n.NotedIn os' := by
  obtain ⟨callee, h⟩ := h
  exact ⟨callee, fun o ho => hos (h o ho)⟩

namespace Reading

/-- From `r` to `r'` some statements have been noted and, unless they are a `COPY`, kept. -/
structure Adds (r r' : Reading) (new : List NestedStatement) : Prop where
  body : r'.body = (new.filter (·.keeps)).reverse ++ r.body
  occurrences : r.occurrences ⊆ r'.occurrences
  noted : ∀ n ∈ new, n.NotedIn r'.occurrences

variable {r r' r'' : Reading} {new new' : List NestedStatement}

theorem Adds.refl (r : Reading) : r.Adds r [] := ⟨rfl, fun _ => id, nofun⟩

theorem Adds.trans (h : r.Adds r' new) (h' : r'.Adds r'' new') : r.Adds r'' (new ++ new') where
  body := by rw [h'.body, h.body, List.filter_append, List.reverse_append, List.append_assoc]
  occurrences := List.Subset.trans h.occurrences h'.occurrences
  noted := List.forall_mem_append.2 ⟨fun n hn => (h.noted n hn).mono h'.occurrences, h'.noted⟩

theorem notedIn_note (r : Reading) (n : NestedStatement) (callee : Option MacroDefinition) :
    n.NotedIn (r.note n callee).occurrences :=
  ⟨callee, fun _ ho => List.mem_append_left _ (List.mem_reverse.2 (List.mem_map_of_mem ho))⟩

theorem subset_note (r : Reading) (n : NestedStatement) (callee : Option MacroDefinition) :
    r.occurrences ⊆ (r.note n callee).occurrences := List.subset_append_right ..

end Reading

namespace Assembly

variable {a : Assembly}

/-- Appending a statement adds what is read of it. -/
theorem exists_adds_appendOne (sound : a.Sound)
    {inner : List String → Reading → List NestedStatement → Reading}
    (hinner : ∀ openMembers {r : Reading} items, a.Loads r.assembly → ∃ new,
      r.Adds (inner openMembers r items) new ∧ (new = [] ∨ Expands a.library items new))
    {r : Reading} (hr : a.Loads r.assembly) (openMembers : List String) (n : NestedStatement) :
    ∃ new, r.Adds (r.appendOne inner openMembers n) new ∧ Expands a.library [n] new := by
  have hnote := hr.trans (loads_noteBody r n)
  have hnoted : n.NotedIn (r.noteBody n).occurrences := Reading.notedIn_note ..
  have hoccurrences : r.occurrences ⊆ (r.noteBody n).occurrences :=
    Reading.subset_note { r with assembly := r.assembly.meet [n.statement.opcode] } ..
  unfold Reading.appendOne
  dsimp only
  split
  · rename_i copies
    have hloads := hnote.trans (loads_copied? (r.noteBody n) openMembers n)
    have hcopy : r.Adds ((r.noteBody n).copied? openMembers n).1 [n] := by
      have hsame : ((r.noteBody n).copied? openMembers n).1.body = r.body ∧
          ((r.noteBody n).copied? openMembers n).1.occurrences = (r.noteBody n).occurrences := by
        unfold Reading.copied?
        split <;> exact ⟨rfl, rfl⟩
      refine ⟨by simp [hsame.1, copies, NestedStatement.keeps], hsame.2 ▸ hoccurrences, fun k hk => ?_⟩
      cases List.mem_singleton.1 hk
      exact hsame.2 ▸ hnoted
    split
    · rename_i r' m hcopied
      rw [hcopied] at hloads hcopy
      obtain ⟨name, found, -, find, rfl⟩ := Reading.copied?_eq_some (hnote.spares.sound sound) hcopied
      obtain ⟨new, hadds, hnew⟩ := hinner ((found.copyMember name).name :: openMembers)
        (n.copied (found.copyMember name)) hloads
      refine ⟨n :: new, hcopy.trans hadds, ?_⟩
      rcases hnew with rfl | hnew
      · exact .passed copies .nil
      · exact List.append_nil new ▸ .copied copies (hnote.library ▸ find) hnew .nil
    · rename_i r' hcopied
      rw [hcopied] at hcopy
      exact ⟨[n], hcopy, .passed copies .nil⟩
  · rename_i keeps
    refine ⟨[n], ⟨?_, hoccurrences, fun k hk => ?_⟩, .kept keeps .nil⟩
    · rw [List.filter_cons_of_pos (NestedStatement.keeps_iff.2 keeps)]
      rfl
    · cases List.mem_singleton.1 hk
      exact hnoted

theorem exists_adds_append (sound : a.Sound) (depth : Nat) {r : Reading} (hr : a.Loads r.assembly)
    (openMembers : List String) (items : List NestedStatement) :
    ∃ new, r.Adds (r.append depth openMembers items) new ∧
      (depth = 0 ∧ new = [] ∨ Expands a.library items new) := by
  induction depth generalizing openMembers items r with
  | zero => exact ⟨[], .refl r, .inl ⟨rfl, rfl⟩⟩
  | succ depth ih =>
    have hinner (openMembers : List String) {r : Reading} (items : List NestedStatement) (hr : a.Loads r.assembly) :
        ∃ new, r.Adds (r.append depth openMembers items) new ∧ (new = [] ∨ Expands a.library items new) := by
      obtain ⟨new, hadds, hnew⟩ := ih hr openMembers items
      exact ⟨new, hadds, hnew.imp_left And.right⟩
    suffices ∃ new, r.Adds (r.append (depth + 1) openMembers items) new ∧ Expands a.library items new by
      obtain ⟨new, hadds, hnew⟩ := this
      exact ⟨new, hadds, .inr hnew⟩
    unfold Reading.append
    induction items generalizing r with
    | nil => exact ⟨[], .refl r, .nil⟩
    | cons n rest ihr =>
      obtain ⟨new, hadds, hnew⟩ := exists_adds_appendOne sound hinner hr openMembers n
      obtain ⟨new', hadds', hnew'⟩ := ihr (hr.trans (loads_appendOne (loads_append depth) openMembers r n))
      exact ⟨new ++ new', hadds.trans hadds', hnew.append hnew'⟩

/-- The body of a definition is what is kept of what is read behind the prototype, and all that is read is noted. -/
theorem exists_expands_read (sound : a.Sound) (opening prototype : NestedStatement) (rest : List NestedStatement) :
    ∃ new, Expands a.library rest new ∧ (a.read opening prototype rest).statements = new.filter (·.keeps) ∧
      ∀ n ∈ opening :: prototype :: new, n.NotedIn (a.read opening prototype rest).occurrences := by
  have hnoted := (loads_note ⟨a, [], []⟩ opening none).trans (loads_note _ prototype none)
  obtain ⟨new, hadds, hnew⟩ := exists_adds_append sound a.copyDepth hnoted [] rest
  refine ⟨new, hnew.resolve_left fun h => Nat.succ_ne_zero _ h.1, ?_,
    List.forall_mem_cons.2 ⟨?_, List.forall_mem_cons.2 ⟨?_, hadds.noted⟩⟩⟩
  · rw [Reading.statements, show (a.read opening prototype rest).body = _ from hadds.body, List.reverse_append,
      List.reverse_reverse, show (Reading.note _ prototype none).body.reverse = [] from rfl, List.nil_append]
  · exact ((Reading.notedIn_note ⟨a, [], []⟩ opening none).mono (Reading.subset_note ..)).mono hadds.occurrences
  · exact (Reading.notedIn_note _ prototype none).mono hadds.occurrences

end Assembly

/-! ### The bodies of macros -/

/-- The body is a piece of what is kept of statements of a file that are read. -/
def MacroDefinition.Pieced (j : Job) (d : MacroDefinition) : Prop :=
  ∃ listing items new, Listed j [] listing ∧ items <:+: listing ∧ Expands j.library items new ∧
    d.nestedBody <:+: new.filter (·.keeps)

/-- The statements of the body stand in order, without a `COPY` among them. -/
structure MacroDefinition.Orderly (d : MacroDefinition) : Prop where
  order : d.nestedBody.Pairwise InFront
  keeps : ∀ n ∈ d.nestedBody, n.statement.opcode ≠ "COPY"

section

variable {j : Job} {n : Annals} {ds : List MacroDefinition} {listing : List NestedStatement} {source : List Char}

/-- A listing is that of a file, or the body of a macro. -/
theorem Listed.cases_file (h : Listed j ds listing) : Listed j [] listing ∨ ∃ d ∈ ds, listing = d.nestedBody := by
  cases h with
  | openCode => exact .inl .openCode
  | member find => exact .inl (.member find)
  | @body d mem => exact .inr ⟨d, mem, rfl⟩

/-- The statements of a listing of a file came the same way, and stand in order. -/
theorem Listed.of_file (h : Listed j [] listing) (hsource : j.statements.toList = statementsOf source) :
    (∀ n ∈ listing, n.nest ≠ [] ∧ n.nest.dropLast = []) ∧ listing.Pairwise InFront := by
  obtain ⟨file, source, rfl⟩ : ∃ (file : String) (source : List Char),
      listing = (statementsOf source).map (placed [] file none) := by
    cases h with
    | openCode => exact ⟨j.file, source, hsource ▸ rfl⟩
    | @member name found find => exact ⟨found.uri, found.text.toList, rfl⟩
    | body hd => cases hd
  refine ⟨fun n hn => ?_, pairwise_placed ..⟩
  obtain ⟨s, -, rfl⟩ := List.mem_map.1 hn
  exact ⟨by simp, dropLast_nest_placed⟩

theorem MacroDefinition.Pieced.orderly {d : MacroDefinition} (h : d.Pieced j)
    (hsource : j.statements.toList = statementsOf source) : d.Orderly := by
  obtain ⟨listing, items, new, listed, hsub, hexpands, hbody⟩ := h
  obtain ⟨hway, horder⟩ := listed.of_file hsource
  have hnew := hexpands.pairwise [] (fun n hn => hway n (hsub.subset hn)) (horder.sublist hsub.sublist)
  refine ⟨(hnew.sublist List.filter_sublist).sublist hbody.sublist, fun n hn => ?_⟩
  exact NestedStatement.keeps_iff.1 (List.mem_filter.1 (hbody.subset hn)).2

theorem Listed.pairwise (h : Listed j ds listing) (hsource : j.statements.toList = statementsOf source)
    (hds : ∀ d ∈ ds, d.Orderly) : listing.Pairwise InFront := by
  rcases h.cases_file with h | ⟨d, hd, rfl⟩
  · exact (h.of_file hsource).2
  · exact (hds d hd).order

/-- A definition that is read from a file, or from the body of one that has been, is a piece of what is read. -/
theorem Captured.pieced {r : MacroRecord} (h : Captured j ds r) (hsource : j.statements.toList = statementsOf source)
    (hds : ∀ d ∈ ds, d.Pieced j) : r.definition.Pieced j := by
  obtain ⟨isExternal, informed, library, known, listed, found, traced⟩ := h
  rename_i a opening prototype rest listing
  obtain ⟨new, hexpands, hbody, -⟩ := Assembly.exists_expands_read informed.sound opening prototype rest
  rw [library] at hexpands
  have hsub : rest <:+: listing := (List.suffix_append [opening, prototype] rest).isInfix.trans found.isPiece
  have hbody : MacroDefinition.nestedBody ((a.read opening prototype rest).record opening.file prototype.statement
      ⟨opening.statement.span.start.line, ((rest.getLast?).getD prototype).statement.span.stop.line + 1⟩
      isExternal).definition = new.filter (·.keeps) := (Reading.nestedBody_definition ..).trans hbody
  unfold MacroDefinition.Pieced
  rw [hbody]
  rcases listed.cases_file with listed | ⟨d, hd, rfl⟩
  · exact ⟨listing, rest, new, listed, hsub, hexpands, List.infix_rfl⟩
  · obtain ⟨listing, items, new', listed, hitems, hnew', hpiece⟩ := hds d hd
    have hkeeps := fun n hn => ((hds d hd).orderly hsource).keeps n (hsub.subset hn)
    rw [hexpands.eq_of_forall_ne hkeeps, List.filter_eq_self.2 fun n hn => NestedStatement.keeps_iff.2 (hkeeps n hn)]
    exact ⟨listing, items, new', listed, hitems, hnew', hsub.trans hpiece⟩

/-- **The bodies of all macros that have been registered are pieces of what is read.** -/
theorem Chronicle.pieced (h : Chronicle j n ds) (hsource : j.statements.toList = statementsOf source) :
    ∀ d ∈ ds, d.Pieced j := by
  induction h with
  | start => exact nofun
  | noted _ _ _ ih => exact ih
  | registered _ captured ih =>
    refine List.forall_mem_append.2 ⟨ih, fun d hd => ?_⟩
    cases List.mem_singleton.1 hd
    exact captured.pieced hsource ih

theorem Chronicle.orderly (h : Chronicle j n ds) (hsource : j.statements.toList = statementsOf source) :
    ∀ d ∈ ds, d.Orderly :=
  fun d hd => (h.pieced hsource d hd).orderly hsource

end

end AssemblerIndex
