import AssemblerIndex.Expression.Evaluation
import Mathlib.Data.List.Basic

/-!
# Expression trees

What a conditional assembly expression means and how it is written, said without reading it: trees over numbers and
scalar SET symbols, their values, and their texts with parentheses where the operators around need them.

* `Tree`, `Tree.value` — an expression and its value in a state of the assembler;
* `Tree.Admissible` — its numbers fit a word and its names are those of visible scalar SET symbols;
* `Tree.text` — its text as an operand of operators that bind no tighter than `k`;
* `Written k t s` — `s` is such a text with any number of blanks in front of each `NOT`.
-/

namespace AssemblerIndex.Expression

/-! ### Trees -/

/-- A sign in front of a term. -/
inductive Sign where
  | plus | minus
  deriving DecidableEq, Repr

/-- An operator between two operands. -/
inductive Operator where
  | or | xor | and | relation (r : Relation) | plus | minus | times | divided
  deriving DecidableEq, Repr

/-- An expression. -/
inductive Tree where
  | literal (n : Nat)
  | symbol (name : List Char)
  | signed (sign : Sign) (t : Tree)
  | binary (op : Operator) (l r : Tree)
  | not (t : Tree)
  deriving DecidableEq, Repr

/-! ### Values -/

/-- The first text stands in front of the second in the order of their characters. -/
def contentBefore : List Char → List Char → Bool
  | _, [] => false
  | [], _ :: _ => true
  | c :: s, d :: t => c < d || c == d && contentBefore s t

/-- The first value is less than the second: texts by their length, then by their content, others as words. -/
def less : SetValue → SetValue → Bool
  | .character s, .character t => s.length < t.length || s.length == t.length && contentBefore s t
  | a, b => a.toWord.toInt < b.toWord.toInt

/-- The values are the same as texts, or else as words. -/
def same : SetValue → SetValue → Bool
  | .character s, .character t => s == t
  | a, b => a.toWord.toInt == b.toWord.toInt

/-- The relation between two values. -/
def Relation.between (a b : SetValue) : Relation → Bool
  | .eq => same a b
  | .ne => !same a b
  | .lt => less a b
  | .le => less a b || same a b
  | .gt => !(less a b || same a b)
  | .ge => !less a b

/-- A whole number as a word of 32 bits. -/
def wrapped (z : Int) : SetValue := .arithmetic (Int32.ofInt z)

/-- The value of an operator between two values. -/
def Operator.value (a b : SetValue) : Operator → SetValue
  | .or => .boolean (a.toBool || b.toBool)
  | .xor => .boolean (a.toBool != b.toBool)
  | .and => .boolean (a.toBool && b.toBool)
  | .relation r => .boolean (r.between a b)
  | .plus => wrapped (a.toWord.toInt + b.toWord.toInt)
  | .minus => wrapped (a.toWord.toInt - b.toWord.toInt)
  | .times => wrapped (a.toWord.toInt * b.toWord.toInt)
  | .divided => if b.toWord.toInt = 0 then wrapped 0 else wrapped (a.toWord.toInt.tdiv b.toWord.toInt)

/-- The value of a sign in front of a value. -/
def Sign.value (a : SetValue) : Sign → SetValue
  | .plus => wrapped a.toWord.toInt
  | .minus => wrapped (-a.toWord.toInt)

/-- The value of a scalar SET symbol. -/
def scalarValue (x : Context) (name : List Char) : SetValue :=
  match x.visible? (String.ofList name) with
  | some (.set s) => s.scalar
  | _ => .character []

/-- The value of an expression. -/
def Tree.value (x : Context) : Tree → SetValue
  | .literal n => wrapped n
  | .symbol name => scalarValue x name
  | .signed sign t => sign.value (t.value x)
  | .binary op l r => op.value (l.value x) (r.value x)
  | .not t => .boolean (!(t.value x).toBool)

/-- A name in capital letters. -/
def IsCapitalName (name : List Char) : Prop :=
  name ≠ [] ∧ (∀ c ∈ name, c.isUpper ∨ c.isDigit ∨ c ∈ ['@', '#', '$', '_']) ∧ ∀ c ∈ name.head?, ¬c.isDigit

/-- The numbers are positive words or zero, and the names are those of scalar SET symbols that are visible. -/
def Tree.Admissible (x : Context) : Tree → Prop
  | .literal n => n < 2147483648
  | .symbol name => IsCapitalName name ∧ ∃ s, x.visible? (String.ofList name) = some (.set s) ∧ s.isScalar
  | .signed _ t => t.Admissible x
  | .binary _ l r => l.Admissible x ∧ r.Admissible x
  | .not t => t.Admissible x

/-! ### Texts -/

/-- The character of a sign. -/
def Sign.char : Sign → Char
  | .plus => '+'
  | .minus => '-'

/-- The word of a relation. -/
def Relation.word : Relation → List Char
  | .eq => ['E', 'Q']
  | .ne => ['N', 'E']
  | .le => ['L', 'E']
  | .lt => ['L', 'T']
  | .ge => ['G', 'E']
  | .gt => ['G', 'T']

/-- An operator between its operands; words stand between blanks. -/
def Operator.word : Operator → List Char
  | .or => [' ', 'O', 'R', ' ']
  | .xor => [' ', 'X', 'O', 'R', ' ']
  | .and => [' ', 'A', 'N', 'D', ' ']
  | .relation r => ' ' :: r.word ++ [' ']
  | .plus => ['+']
  | .minus => ['-']
  | .times => ['*']
  | .divided => ['/']

/-- How tight an operator binds. -/
def Operator.level : Operator → Nat
  | .or | .xor => 0
  | .and => 1
  | .relation _ => 3
  | .plus | .minus => 4
  | .times | .divided => 5

/-- How tight the left operand must bind: like the operator itself, but tighter than a relation. -/
def Operator.leftLevel : Operator → Nat
  | .relation _ => 4
  | op => op.level

/-- How tight an expression binds: `NOT` looser than relations, signs tighter than all operators. -/
def Tree.level : Tree → Nat
  | .literal _ | .symbol _ => 7
  | .signed _ _ => 6
  | .binary op _ _ => op.level
  | .not _ => 2

/-- The text, in parentheses if they are needed. -/
def enclosedIf (needed : Bool) (s : List Char) : List Char := if needed then '(' :: s ++ [')'] else s

/-- The text of an expression where it must bind as tight as `k`. -/
def Tree.text (k : Nat) : Tree → List Char
  | .literal n => decimalDigits n
  | .symbol name => '&' :: name
  | .signed sign t => enclosedIf (6 < k) (sign.char :: t.text 6)
  | .binary op l r => enclosedIf (op.level < k) (l.text op.leftLevel ++ op.word ++ r.text (op.level + 1))
  | .not t => enclosedIf (2 < k) (['N', 'O', 'T', ' '] ++ t.text 2)

/-- The expression may be written so where it must bind as tight as `k`: like `Tree.text`, with blanks in front of
`NOT`. -/
inductive Written : Nat → Tree → List Char → Prop
  | literal {k n : Nat} : Written k (.literal n) (decimalDigits n)
  | symbol {k : Nat} {name : List Char} : Written k (.symbol name) ('&' :: name)
  | signed {k : Nat} {sign : Sign} {t : Tree} {s : List Char} (hk : k ≤ 6) (ht : Written 6 t s) :
      Written k (.signed sign t) (sign.char :: s)
  | binary {k : Nat} {op : Operator} {l r : Tree} {s s' : List Char} (hk : k ≤ op.level) (hl : Written op.leftLevel l s)
      (hr : Written (op.level + 1) r s') : Written k (.binary op l r) (s ++ op.word ++ s')
  | not {k : Nat} {t : Tree} {s : List Char} (blanks : Nat) (hk : k ≤ 2) (ht : Written 2 t s) :
      Written k (.not t) (List.replicate blanks ' ' ++ ['N', 'O', 'T', ' '] ++ s)
  | parentheses {k : Nat} {t : Tree} {s : List Char} (hk : t.level < k) (ht : Written 0 t s) :
      Written k t ('(' :: s ++ [')'])

/-- What is too loose stands in parentheses, and there without regard to what is around. -/
theorem written_enclosedIf {t : Tree} {s : List Char} (k : Nat) (h : ∀ j ≤ t.level, Written j t s) :
    Written k t (enclosedIf (t.level < k) s) := by
  unfold enclosedIf
  by_cases hk : t.level < k
  · rw [if_pos (by simpa using hk)]
    exact .parentheses hk (h 0 (Nat.zero_le _))
  · rw [if_neg (by simpa using hk)]
    exact h k (Nat.le_of_not_lt hk)

theorem written_text (t : Tree) (k : Nat) : Written k t (t.text k) := by
  induction t generalizing k with
  | literal n => exact .literal
  | symbol name => exact .symbol
  | signed sign t ih => exact written_enclosedIf k fun j hj => .signed hj (ih 6)
  | binary op l r ihl ihr => exact written_enclosedIf k fun j hj => .binary hj (ihl _) (ihr _)
  | not t ih => exact written_enclosedIf k fun j hj => .not 0 hj (ih 2)

end AssemblerIndex.Expression
