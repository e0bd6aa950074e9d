import AssemblerIndex.Statement.Name
import AssemblerIndex.Text.LetterCase

/-!
# Reading an expression from left to right

A step of reading takes something off the front of a text and never adds to it: `Taken` carries the
proof.  The steps here take blanks, single characters, word operators, names, numbers and quoted
terms.
-/

namespace AssemblerIndex.Expression

/-- What a step of reading took from the front of `s`, and what it left. -/
structure Taken (α : Type) (s : List Char) where
  value : α
  rest : List Char
  length_le : rest.length ≤ s.length

namespace Taken

variable {α β : Type} {s t : List Char}

/-- A step that takes nothing. -/
def nothing (value : α) : Taken α s := ⟨value, s, Nat.le_refl _⟩

/-- A step that started further on. -/
def widen (r : Taken α t) (h : t.length ≤ s.length) : Taken α s :=
  ⟨r.value, r.rest, Nat.le_trans r.length_le h⟩

/-- Changes the value of a step. -/
def map (f : α → β) (r : Taken α s) : Taken β s := ⟨f r.value, r.rest, r.length_le⟩

end Taken

theorem length_le_cons (c : Char) (s : List Char) : s.length ≤ (c :: s).length := Nat.le_succ _

theorem length_le_cons_cons (c d : Char) (s : List Char) : s.length ≤ (c :: d :: s).length :=
  Nat.le_trans (Nat.le_succ _) (Nat.le_succ _)

/-- Takes the spaces at the front. -/
def takeSpaces (s : List Char) : Taken Unit s :=
  ⟨(), s.dropWhile (· = ' '), (List.dropWhile_sublist _).length_le⟩

/-- What follows a character at the front of a text. -/
def after? (c : Char) : List Char → Option (List Char)
  | d :: rest => if d = c then some rest else none
  | [] => none

theorem length_after? {c : Char} {s rest : List Char} (h : after? c s = some rest) :
    rest.length < s.length := by
  unfold after? at h
  split at h
  · split at h
    · cases h
      simp
    · simp at h
  · simp at h

/-- Takes a character, if it comes next. -/
def takeNext (c : Char) (s : List Char) : Taken Unit s :=
  match h : after? c s with
  | some rest => ⟨(), rest, Nat.le_of_lt (length_after? h)⟩
  | none => .nothing ()

/-- Takes a character, if it comes next behind spaces, and the spaces in any case. -/
def takeChar (c : Char) (s : List Char) : Taken Unit s :=
  let ⟨_, t, ht⟩ := takeSpaces s
  (takeNext c t).widen ht

/-- What follows a word operator at the front of a text; the operator ends where the name ends. -/
def keyword? (word s : List Char) : Option (List Char) :=
  let rest := s.drop word.length
  if (s.take word.length).map Char.toUpper = word ∧ !rest.head?.any isNameChar then some rest
  else none

theorem length_keyword? {word s rest : List Char} (h : keyword? word s = some rest)
    (hw : word ≠ []) : rest.length < s.length := by
  unfold keyword? at h
  simp only at h
  split at h
  · rename_i hc
    cases h
    have hl := congrArg List.length hc.1
    have := List.length_pos_iff.2 hw
    simp only [List.length_map, List.length_take, List.length_drop] at *
    omega
  · simp at h

/-- Takes a name, in capital letters. -/
def takeName (s : List Char) : Taken String s :=
  ⟨String.ofList ((s.takeWhile isNameChar).map Char.toUpper), s.dropWhile isNameChar,
    (List.dropWhile_sublist _).length_le⟩

/-- Takes the digits at the front. -/
def takeDigits (s : List Char) : Taken (List Char) s :=
  ⟨s.takeWhile Char.isDigit, s.dropWhile Char.isDigit, (List.dropWhile_sublist _).length_le⟩

/-- Takes a quoted text behind its opening apostrophe through its closing one, as it is written. -/
def takeQuoted (s : List Char) : Taken (List Char) s :=
  match s with
  | '\'' :: '\'' :: rest =>
    let r := takeQuoted rest
    ⟨'\'' :: '\'' :: r.value, r.rest, Nat.le_trans r.length_le (length_le_cons_cons '\'' '\'' rest)⟩
  | '\'' :: rest => ⟨['\''], rest, length_le_cons '\'' rest⟩
  | c :: rest =>
    let r := takeQuoted rest
    ⟨c :: r.value, r.rest, Nat.le_trans r.length_le (length_le_cons c rest)⟩
  | [] => .nothing []

theorem suffix_takeQuoted (s : List Char) : (takeQuoted s).rest <:+ s := by
  fun_induction takeQuoted s with
  | case1 rest r ih => exact (ih.trans (List.suffix_cons ..)).trans (List.suffix_cons ..)
  | case2 rest => exact List.suffix_cons ..
  | case3 c rest _ _ r ih => exact ih.trans (List.suffix_cons ..)
  | case4 => exact List.suffix_refl _

/-- A word in an expression: the text of a quoted term, or a name in capital letters. -/
inductive Word where
  | term (s : List Char)
  | name (n : String)

/-- Takes a quoted term, or else a name. -/
def takeWord (s : List Char) : Taken Word s :=
  match s with
  | c :: '\'' :: rest =>
    if c.toUpper ∈ ['X', 'B', 'C'] then
      ((takeQuoted rest).map fun q => .term (c :: '\'' :: q)).widen (length_le_cons_cons c '\'' rest)
    else (takeName (c :: '\'' :: rest)).map .name
  | s => (takeName s).map .name

end AssemblerIndex.Expression
