import AssemblerIndex.Context.Attributes
import AssemblerIndex.Expression.Scan

/-!
# Conditional assembly expressions

An expression is read from left to right and evaluated on the way, since whether a parenthesis behind
a variable starts a subscript depends on the variable.  From loosest to tightest the operators are
`OR` and `XOR`; `AND`; `NOT`; one relation; addition; multiplication; signs.  Arithmetic is that of
words of 32 bits, division goes toward zero and a division by zero gives zero.  Texts are ordered by
length, then by content.  What makes no sense counts as zero, and every step leaves a text that is no
longer than the one it was given.
-/

namespace AssemblerIndex.Expression

/-- The relations between two values. -/
inductive Relation where
  | eq | ne | le | lt | ge | gt
  deriving DecidableEq, Repr

/-- The relations and their words, in the order in which they are looked for. -/
def relationWords : List (List Char × Relation) := [
  (['E', 'Q'], .eq), (['N', 'E'], .ne), (['L', 'E'], .le), (['L', 'T'], .lt), (['G', 'E'], .ge),
  (['G', 'T'], .gt)]

/-- The relation at the front of a text and what follows it. -/
def relation? (s : List Char) : List (List Char × Relation) → Option (Relation × List Char)
  | [] => none
  | (word, r) :: more =>
    match keyword? word s with
    | some rest => some (r, rest)
    | none => relation? s more

theorem length_relation? {s rest : List Char} {r : Relation} {words : List (List Char × Relation)}
    (h : relation? s words = some (r, rest)) (hw : ∀ w ∈ words, w.1 ≠ []) :
    rest.length < s.length := by
  induction words with
  | nil => simp [relation?] at h
  | cons w more ih =>
    obtain ⟨word, r'⟩ := w
    unfold relation? at h
    split at h
    · rename_i hk
      cases h
      exact length_keyword? hk (hw _ List.mem_cons_self)
    · exact ih h fun v hv => hw v (List.mem_cons_of_mem _ hv)

theorem relationWords_ne_nil : ∀ w ∈ relationWords, w.1 ≠ [] := by decide

/-- The order of texts: by length, then by content. -/
def compareTexts (a b : List Char) : Ordering := (compare a.length b.length).then (compare a b)

/-- The order of two values: that of texts between texts, else that of words. -/
def compareValues (a b : SetValue) : Ordering :=
  match a, b with
  | .character s, .character t => compareTexts s t
  | a, b => compare a.toWord.toInt b.toWord.toInt

/-- The relation holds for values in the given order. -/
def Relation.holds : Relation → Ordering → Bool
  | .eq, o => o.isEq
  | .ne, o => o.isNe
  | .le, o => o.isLE
  | .lt, o => o.isLT
  | .ge, o => o.isGE
  | .gt, o => o.isGT

/-- The quotient of two words; a division by zero gives zero. -/
def quotient (a b : Int32) : Int32 := a / b

/-- The value of an ordinary symbol in an expression. -/
def symbolTerm (x : Context) (name : String) : SetValue :=
  match x.symbols.value? name with
  | some (.absolute n) => .arithmetic n
  | _ => .arithmetic 0

/-- The value of a text that is meant to be a self-defining term. -/
def termValue (s : List Char) : SetValue := .arithmetic ((SelfDefiningTerm.value? s).getD 0)

/-- The name that an attribute reference asks for; that to an unknown name asks for the empty one. -/
def knownName (x : Context) (name : String) : String := if x.names.contains name then name else ""

/-- The part of a text that a substring notation selects; `none` stands for all of the rest. -/
def selected (s : List Char) (start : Int32) (length : Option Int32) : List Char :=
  let tail := s.drop (start.toInt.toNat - 1)
  match length with
  | some n => tail.take n.toInt.toNat
  | none => tail

/-- The attribute reference at the front of a text: its attribute and what follows the
apostrophe. -/
def attribute? : List Char → Option (Attribute × List Char)
  | c :: '\'' :: rest =>
    if isNameStart c ∧ rest.head?.any (fun n => n = '&' || isNameStart n) then
      (Attribute.ofLetter? c).map (·, rest)
    else none
  | _ => none

theorem length_attribute? {s rest : List Char} {a : Attribute}
    (h : attribute? s = some (a, rest)) : rest.length < s.length := by
  unfold attribute? at h
  split at h
  · split at h
    · obtain ⟨b, _, h⟩ := Option.map_eq_some_iff.1 h
      cases h
      simp only [List.length_cons]
      omega
    · simp at h
  · simp at h

/-- A variable reference: the variable if there is one, and the subscripts. -/
structure Reference where
  target : Option Variable
  subscripts : List Nat

/-- The value of a variable reference. -/
def Reference.value (r : Reference) : SetValue :=
  match r.target with
  | some v => v.value r.subscripts
  | none => .character []

/-- The text that a variable reference inserts. -/
def Reference.text (r : Reference) : List Char := r.value.toText

/-- What an expression asks its surroundings for. -/
structure Environment where
  /-- the variable visible under a name -/
  visible? : String → Option Variable
  /-- the value of the ordinary symbol of a name -/
  symbol : String → SetValue
  /-- an attribute of the ordinary symbol or operation code of a name -/
  symbolAttribute : Attribute → String → SetValue
  /-- an attribute of a variable with subscripts -/
  variableAttribute : Attribute → Option Variable → List Nat → SetValue

/-- What a state of the assembler answers. -/
def environment (x : Context) : Environment :=
  { visible? := x.visible?
    symbol := symbolTerm x
    symbolAttribute := fun a name => x.symbolAttribute a (knownName x name)
    variableAttribute := x.variableAttribute }

/-- The value of a word: a quoted term, or the name of an ordinary symbol. -/
def wordValue (e : Environment) : Word → SetValue
  | .term s => termValue s
  | .name n => e.symbol n

mutual

/-- An expression. -/
def expression (e : Environment) (s : List Char) : Taken SetValue s :=
  let ⟨l, t, ht⟩ := conjunction e s
  (moreDisjuncts e l t).widen ht
termination_by 11 * s.length + 9

/-- The operands of `OR` and `XOR` behind the first one. -/
def moreDisjuncts (e : Environment) (l : SetValue) (s : List Char) : Taken SetValue s :=
  let ⟨_, t, ht⟩ := takeSpaces s
  match h : keyword? ['O', 'R'] t with
  | some u =>
    have hu := length_keyword? h (List.cons_ne_nil _ _)
    let ⟨r, w, hw⟩ := conjunction e u
    (moreDisjuncts e (.boolean (l.toBool || r.toBool)) w).widen
      (Nat.le_trans hw (Nat.le_trans (Nat.le_of_lt hu) ht))
  | none =>
    match h' : keyword? ['X', 'O', 'R'] t with
    | some u =>
      have hu := length_keyword? h' (List.cons_ne_nil _ _)
      let ⟨r, w, hw⟩ := conjunction e u
      (moreDisjuncts e (.boolean (l.toBool != r.toBool)) w).widen
        (Nat.le_trans hw (Nat.le_trans (Nat.le_of_lt hu) ht))
    | none => ⟨l, t, ht⟩
termination_by 11 * s.length + 0

/-- Operands joined by `AND`. -/
def conjunction (e : Environment) (s : List Char) : Taken SetValue s :=
  let ⟨l, t, ht⟩ := negation e s
  (moreConjuncts e l t).widen ht
termination_by 11 * s.length + 8

/-- The operands of `AND` behind the first one. -/
def moreConjuncts (e : Environment) (l : SetValue) (s : List Char) : Taken SetValue s :=
  let ⟨_, t, ht⟩ := takeSpaces s
  match h : keyword? ['A', 'N', 'D'] t with
  | some u =>
    have hu := length_keyword? h (List.cons_ne_nil _ _)
    let ⟨r, w, hw⟩ := negation e u
    (moreConjuncts e (.boolean (l.toBool && r.toBool)) w).widen (by omega)
  | none => ⟨l, t, ht⟩
termination_by 11 * s.length + 0

/-- A relation, possibly behind `NOT`. -/
def negation (e : Environment) (s : List Char) : Taken SetValue s :=
  let ⟨_, t, ht⟩ := takeSpaces s
  match h : keyword? ['N', 'O', 'T'] t with
  | some u =>
    have hu := length_keyword? h (List.cons_ne_nil _ _)
    let ⟨r, w, hw⟩ := negation e u
    ⟨.boolean (!r.toBool), w, by omega⟩
  | none => (comparison e t).widen ht
termination_by 11 * s.length + 7

/-- A sum, or a relation between two sums. -/
def comparison (e : Environment) (s : List Char) : Taken SetValue s :=
  let ⟨l, l', hl⟩ := sum e s
  let ⟨_, t, ht⟩ := takeSpaces l'
  match h : relation? t relationWords with
  | some (op, u) =>
    have hu := length_relation? h relationWords_ne_nil
    let ⟨r, w, hw⟩ := sum e u
    ⟨.boolean (op.holds (compareValues l r)), w, by omega⟩
  | none => ⟨l, t, by omega⟩
termination_by 11 * s.length + 6

/-- Products joined by plus and minus signs. -/
def sum (e : Environment) (s : List Char) : Taken SetValue s :=
  let ⟨l, t, ht⟩ := product e s
  (moreSummands e l t).widen ht
termination_by 11 * s.length + 5

/-- The products behind the first one. -/
def moreSummands (e : Environment) (l : SetValue) (s : List Char) : Taken SetValue s :=
  let ⟨_, t, ht⟩ := takeSpaces s
  match h : after? '+' t with
  | some u =>
    have hu := length_after? h
    let ⟨r, w, hw⟩ := product e u
    (moreSummands e (.arithmetic (l.toWord + r.toWord)) w).widen (by omega)
  | none =>
    match h' : after? '-' t with
    | some u =>
      have hu := length_after? h'
      let ⟨r, w, hw⟩ := product e u
      (moreSummands e (.arithmetic (l.toWord - r.toWord)) w).widen (by omega)
    | none => ⟨l, t, ht⟩
termination_by 11 * s.length + 0

/-- Signed terms joined by multiplication and division signs. -/
def product (e : Environment) (s : List Char) : Taken SetValue s :=
  let ⟨l, t, ht⟩ := signed e s
  (moreFactors e l t).widen ht
termination_by 11 * s.length + 4

/-- The signed terms behind the first one. -/
def moreFactors (e : Environment) (l : SetValue) (s : List Char) : Taken SetValue s :=
  let ⟨_, t, ht⟩ := takeSpaces s
  match h : after? '*' t with
  | some u =>
    have hu := length_after? h
    let ⟨r, w, hw⟩ := signed e u
    (moreFactors e (.arithmetic (l.toWord * r.toWord)) w).widen (by omega)
  | none =>
    match h' : after? '/' t with
    | some u =>
      have hu := length_after? h'
      let ⟨r, w, hw⟩ := signed e u
      (moreFactors e (.arithmetic (quotient l.toWord r.toWord)) w).widen (by omega)
    | none => ⟨l, t, ht⟩
termination_by 11 * s.length + 0

/-- A term, possibly behind signs. -/
def signed (e : Environment) (s : List Char) : Taken SetValue s :=
  let ⟨_, t, ht⟩ := takeSpaces s
  match h : after? '-' t with
  | some u =>
    have hu := length_after? h
    let ⟨r, w, hw⟩ := signed e u
    ⟨.arithmetic (-r.toWord), w, by omega⟩
  | none =>
    match h' : after? '+' t with
    | some u =>
      have hu := length_after? h'
      let ⟨r, w, hw⟩ := signed e u
      ⟨.arithmetic r.toWord, w, by omega⟩
    | none => (term e t).widen ht
termination_by 11 * s.length + 3

/-- A term at the front of a text that starts with no space. -/
def term (e : Environment) (s : List Char) : Taken SetValue s :=
  match h : attribute? s with
  | some (a, u) =>
    have hu := length_attribute? h
    (attributeValue e a u).widen (Nat.le_of_lt hu)
  | none => plainTerm e s
termination_by 11 * s.length + 2

/-- A term that is no attribute reference. -/
def plainTerm (e : Environment) (s : List Char) : Taken SetValue s :=
  match s with
  | [] => .nothing (.arithmetic 0)
  | '(' :: u =>
    let ⟨r, w, hw⟩ := expression e u
    ((takeChar ')' w).map fun _ => r).widen (by simp only [List.length_cons]; omega)
  | '\'' :: u => ((strings e u).map .character).widen (by simp)
  | '&' :: u => ((reference e u).map Reference.value).widen (by simp)
  | c :: u =>
    if c.isDigit then (takeDigits (c :: u)).map termValue
    else if isNameStart c then (takeWord (c :: u)).map (wordValue e)
    else ⟨.arithmetic 0, u, by simp⟩
termination_by 11 * s.length + 1

/-- The value of an attribute reference, behind its apostrophe. -/
def attributeValue (e : Environment) (a : Attribute) (s : List Char) : Taken SetValue s :=
  match s with
  | '&' :: u =>
    ((reference e u).map fun r => e.variableAttribute a r.target r.subscripts).widen (by simp)
  | s => (takeName s).map fun n => e.symbolAttribute a n
termination_by 11 * s.length + 1

/-- A variable reference, behind its ampersand. -/
def reference (e : Environment) (s : List Char) : Taken Reference s :=
  let ⟨name, t, ht⟩ := takeName s
  let v := e.visible? name
  match h : after? '(' t with
  | some u =>
    have hu := length_after? h
    if v.any Variable.takesSubscript then
      ((subscripts e u).map fun is => ⟨v, is⟩).widen (by omega)
    else ⟨⟨v, []⟩, t, ht⟩
  | none => ⟨⟨v, []⟩, t, ht⟩
termination_by 11 * s.length + 1

/-- Subscripts and the closing parenthesis. -/
def subscripts (e : Environment) (s : List Char) : Taken (List Nat) s :=
  let ⟨i, t, ht⟩ := expression e s
  let ⟨_, w, hw⟩ := takeSpaces t
  match h : after? ',' w with
  | some u =>
    have hu := length_after? h
    ((subscripts e u).map (i.toWord.toInt.toNat :: ·)).widen (by omega)
  | none => ((takeChar ')' w).map fun _ => [i.toWord.toInt.toNat]).widen (by omega)
termination_by 11 * s.length + 10

/-- The characters of a quoted text, behind its opening apostrophe. -/
def quoted (e : Environment) (s : List Char) : Taken (List Char) s :=
  match s with
  | [] => .nothing []
  | '\'' :: '\'' :: u =>
    ((quoted e u).map ('\'' :: ·)).widen (length_le_cons_cons '\'' '\'' u)
  | '\'' :: u => ⟨[], u, length_le_cons '\'' u⟩
  | '&' :: '&' :: u => ((quoted e u).map ('&' :: ·)).widen (length_le_cons_cons '&' '&' u)
  | '&' :: u =>
    let ⟨r, t, ht⟩ := reference e u
    let ⟨_, w, hw⟩ := takeNext '.' t
    ((quoted e w).map (r.text ++ ·)).widen (Nat.le_trans hw (Nat.le_trans ht (length_le_cons '&' u)))
  | c :: u => ((quoted e u).map (c :: ·)).widen (length_le_cons c u)
termination_by 11 * s.length + 0

/-- A substring notation behind its parenthesis: the start and the length. -/
def substring (e : Environment) (s : List Char) : Taken (Int32 × Option Int32) s :=
  let ⟨b, t, ht⟩ := expression e s
  let ⟨_, t', ht'⟩ := takeChar ',' t
  let ⟨_, w, hw⟩ := takeSpaces t'
  match h : after? '*' w with
  | some u =>
    have hu := length_after? h
    ((takeChar ')' u).map fun _ => (b.toWord, none)).widen (by omega)
  | none =>
    let ⟨n, u, hu⟩ := expression e w
    ((takeChar ')' u).map fun _ => (b.toWord, some n.toWord)).widen (by omega)
termination_by 11 * s.length + 10

/-- Quoted texts joined by periods, behind the first apostrophe. -/
def strings (e : Environment) (s : List Char) : Taken (List Char) s :=
  let ⟨q, t, ht⟩ := quoted e s
  match h : after? '(' t with
  | some u =>
    have hu := length_after? h
    let ⟨(start, length), w, hw⟩ := substring e u
    (moreStrings e (selected q start length) w).widen (by omega)
  | none => (moreStrings e q t).widen ht
termination_by 11 * s.length + 1

/-- The further quoted texts behind a first one. -/
def moreStrings (e : Environment) (first : List Char) (s : List Char) : Taken (List Char) s :=
  match s with
  | '.' :: '\'' :: u => ((strings e u).map (first ++ ·)).widen (by simp only [List.length_cons]; omega)
  | s => ⟨first, s, Nat.le_refl _⟩
termination_by 11 * s.length + 0

end

/-- The value of an expression. -/
def evaluate (x : Context) (s : List Char) : SetValue := (expression (environment x) s).value

end AssemblerIndex.Expression
