import AssemblerIndex.Statement.Operands

/-!
# Macro operands

What a macro parameter is bound to: nothing, a single text, or a list in parentheses whose elements
are operands again.  `MacroData.text` writes an operand as it was read.
-/

namespace AssemblerIndex

/-- An operand of a macro call. -/
inductive MacroData where
  | absent
  | single (s : List Char)
  | composite (items : List MacroData)
  deriving Repr, Inhabited

/-- No operand is longer than the list it is part of. -/
theorem length_le_of_mem_splitOperandsFrom {n : Nesting} {before current s o : List Char}
    (h : o ∈ splitOperandsFrom n before current s) : o.length ≤ current.length + s.length := by
  induction s generalizing n before current with
  | nil => simp_all [splitOperandsFrom]
  | cons c rest ih =>
    unfold splitOperandsFrom at h
    split at h
    · rcases List.mem_cons.1 h with rfl | h
      · simp
      · have := ih h
        simp only [List.length_cons, List.length_nil] at *
        omega
    · have := ih h
      simp only [List.length_cons] at *
      omega

theorem length_le_of_mem_splitOperands {s o : List Char} (h : o ∈ splitOperands s) :
    o.length ≤ s.length := by
  unfold splitOperands at h
  split at h
  · simp at h
  · simpa using length_le_of_mem_splitOperandsFrom h

/-- What stands between the parentheses that enclose a text. -/
def enclosed? : List Char → Option (List Char)
  | '(' :: rest => if rest.getLast? = some ')' then some rest.dropLast else none
  | _ => none

theorem length_of_enclosed? {s inner : List Char} (h : enclosed? s = some inner) :
    inner.length + 2 ≤ s.length := by
  unfold enclosed? at h
  split at h
  · rename_i rest
    split at h
    · rename_i hr
      cases h
      have : 0 < rest.length := List.length_pos_iff.2 (by rintro rfl; simp at hr)
      simp only [List.length_dropLast, List.length_cons]
      omega
    · simp at h
  · simp at h

namespace MacroData

/-- The operand that a text stands for. -/
def ofText (s : List Char) : MacroData :=
  if s.isEmpty then .absent
  else match h : enclosed? s with
    | some inner => .composite ((splitOperands inner).attach.map fun ⟨o, ho⟩ =>
        have := length_le_of_mem_splitOperands ho
        have := length_of_enclosed? h
        ofText o)
    | none => .single s
termination_by s.length

mutual

/-- The operand as it is written. -/
def text : MacroData → List Char
  | .absent => []
  | .single s => s
  | .composite [] => ['(', ')']
  | .composite (d :: ds) => '(' :: (text d ++ textBehind ds)

/-- The further elements of a list and the closing parenthesis, as they are written. -/
def textBehind : List MacroData → List Char
  | [] => [')']
  | d :: ds => ',' :: (text d ++ textBehind ds)

end

/-- The element with the given subscript, counted from one; a single text is its own first
element. -/
def element (d : MacroData) (i : Nat) : MacroData :=
  match d, i with
  | .single s, 1 => .single s
  | .composite items, i + 1 => items[i]?.getD .absent
  | _, _ => .absent

/-- The element that a list of subscripts leads to. -/
def subscripted (d : MacroData) (subscripts : List Nat) : MacroData := subscripts.foldl element d

/-- The number of elements. -/
def number : MacroData → Nat
  | .absent => 0
  | .single s => if s.isEmpty then 0 else 1
  | .composite items => items.length

/-- The number of characters. -/
def count (d : MacroData) : Nat := d.text.length

/-- The operand is a list. -/
def isComposite : MacroData → Bool
  | .composite _ => true
  | _ => false

/-- The first text reached by taking first elements. -/
def leading : MacroData → List Char
  | .absent => []
  | .single s => s
  | .composite [] => []
  | .composite (d :: _) => d.leading

end MacroData

end AssemblerIndex
