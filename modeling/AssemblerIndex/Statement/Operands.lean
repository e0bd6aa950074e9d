import AssemblerIndex.Statement.Basic
import AssemblerIndex.Statement.Name

/-!
# Operand lists

Operands are separated by the commas outside of quotes and parentheses.  An apostrophe opens or
closes a quoted text unless it belongs to an attribute reference such as `L'SYM`, which shows in the
characters next to it; so a scan keeps what it has passed, last character first.
-/

namespace AssemblerIndex

/-! ### Apostrophes of attribute references -/

/-- The letters of the attributes. -/
def isAttributeLetter (c : Char) : Bool := c.toUpper ∈ ['L', 'K', 'N', 'T', 'D', 'I', 'O', 'S']

/-- The character would make a preceding attribute letter part of a longer name. -/
def extendsAttribute (c : Char) : Bool := c.isAlphanum || c ∈ ['@', '#', '$', '_', '&']

/-- The character may follow the apostrophe of an attribute reference. -/
def startsAttributed (c : Char) : Bool := c.isAlpha || c ∈ ['@', '#', '$', '_', '&', '*', '=']

/-- An apostrophe between `before`, last character first, and `next` belongs to an attribute
reference. -/
def isAttributeQuote (before : List Char) (next : Option Char) : Bool :=
  match before, next with
  | a :: earlier, some n =>
    isAttributeLetter a && !earlier.head?.any extendsAttribute && startsAttributed n
  | _, _ => false

/-- The columns of the apostrophes that belong to attribute references. -/
def attributeQuotes (before : List Char) : List Char → List Nat
  | [] => []
  | c :: rest =>
    let further := attributeQuotes (c :: before) rest
    if c = '\'' ∧ isAttributeQuote before rest.head? then before.length :: further else further

/-! ### Quotes and parentheses -/

/-- What is open at some point of an operand: parentheses, and possibly a quoted text. -/
structure Nesting where
  depth : Nat := 0
  quoted : Bool := false
  deriving DecidableEq, Repr, Inhabited

namespace Nesting

/-- Nothing is open. -/
def isClosed (n : Nesting) : Bool := !n.quoted && n.depth == 0

/-- What is open behind the character `c`, between `before` and `next`. -/
def after (n : Nesting) (before : List Char) (c : Char) (next : Option Char) : Nesting :=
  if c = '\'' ∧ isAttributeQuote before next = false then { n with quoted := !n.quoted }
  else if n.quoted then n
  else if c = '(' then { n with depth := n.depth + 1 }
  else if c = ')' then { n with depth := n.depth - 1 }
  else n

end Nesting

/-! ### Splitting -/

/-- Splits the rest of an operand list behind `before`; `current` is the operand so far, last
character first. -/
def splitOperandsFrom (n : Nesting) (before current : List Char) : List Char → List (List Char)
  | [] => [current.reverse]
  | c :: rest =>
    if c = ',' ∧ n.isClosed then current.reverse :: splitOperandsFrom n (c :: before) [] rest
    else splitOperandsFrom (n.after before c rest.head?) (c :: before) (c :: current) rest

/-- Splits an operand list at the commas outside of quotes and parentheses. -/
def splitOperands (s : List Char) : List (List Char) :=
  if s.isEmpty then [] else splitOperandsFrom {} [] [] s

/-- Finds the parenthesis that closes the one a text starts with: the text through it, and what
follows. -/
def splitClosing (n : Nesting) (before : List Char) : List Char → Option (List Char × List Char)
  | [] => none
  | c :: rest =>
    let n' := n.after before c rest.head?
    if c = ')' ∧ n.quoted = false ∧ n'.depth = 0 then some ((c :: before).reverse, rest)
    else splitClosing n' (c :: before) rest

/-- Splits a branch operand `(condition).TARGET`; the target is given in capital letters. -/
def splitBranch (s : List Char) : Option (List Char × String) :=
  if s.head? = some '(' then
    match splitClosing {} [] s with
    | some (condition, '.' :: target) => some (condition, String.ofList (Text.upperChars target))
    | _ => none
  else none

/-- Splits `&NAME` or `&NAME(subscript)`; the name is given in capital letters. -/
def splitVariable : List Char → Option (String × Option (List Char))
  | '&' :: rest =>
    let name := rest.takeWhile isNameChar
    if name.isEmpty then none
    else
      let subscript? := match rest.dropWhile isNameChar with
        | '(' :: tail => if tail.getLast? = some ')' then some tail.dropLast else none
        | _ => none
      some (String.ofList (Text.upperChars name), subscript?)
  | _ => none

/-! ### Statements with replaced fields -/

/-- A field with a new text, placed where the old one stood; nothing if the text is empty. -/
def replacedField (text : List Char) (old : Option Field) (otherwise : Position) : Option Field :=
  if text.isEmpty then none
  else some ⟨text, match old with
    | some f => f.span
    | none => .point otherwise⟩

/-- The statement with the given texts in its fields.  All its operands lie where the operand field
was. -/
def Statement.withTexts (s : Statement) (label instruction operands : List Char) : Statement :=
  let span := match s.operandField with
    | some f => f.span
    | none => .point s.span.stop
  { s with
    label := replacedField label s.label s.span.start
    instruction := replacedField instruction s.instruction s.span.start
    operandField := if operands.isEmpty then none else some ⟨operands, span⟩
    operands := (splitOperands operands).map fun o => ⟨o, span⟩ }

end AssemblerIndex
