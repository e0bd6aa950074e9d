import AssemblerIndex.Expression.Substitution

/-!
# Reading with a cursor

Expressions are read off the front of what is left of a text.  Here the whole text stays, and a cursor moves through it:
characters are looked up at places, no step asks whether its new place still lies in the text, and texts are taken out
between two places.

A reader is told how often calls may be nested and loops may go round.  It gives nothing if that is not enough, and
nothing if it takes out what does not lie in the text.

* `Scanner` — a reader with a cursor;
* `Scanner.peek`, `Scanner.advance`, `Scanner.stretch` — what it does to the text;
* `Scanner.expression`, …, `Scanner.primary` — the readers of the levels of an expression, from the loosest to the
  tightest, with `Scanner.reference`, `Scanner.attributeValue`, `Scanner.strings` and `Scanner.quotedTerm` below them;
* `Scanner.substitute` — replaces variable symbols.
-/

namespace AssemblerIndex.Expression

/-- A reader with a cursor, from a place in a text to a value and a further place. -/
abbrev Scanner (α : Type) := StateT Nat Option α

namespace Scanner

section Steps

variable (text : List Char)

/-- The character that stands so many places behind the cursor. -/
def peek (ahead : Nat) : Scanner (Option Char) := return text[(← get) + ahead]?

/-- Moves the cursor, wherever that leads. -/
def advance (count : Nat) : Scanner Unit := modify (· + count)

/-- The text between two places, which must lie in the text in this order. -/
def stretch (start stop : Nat) : Scanner (List Char) :=
  if start ≤ stop ∧ stop ≤ text.length then return (text.drop start).take (stop - start) else failure

/-- Takes characters of a class. -/
def takeWhile (p : Char → Bool) : Nat → Scanner (List Char)
  | 0 => failure
  | fuel + 1 => do
    match ← peek text 0 with
    | some c =>
      if p c then
        advance 1
        return c :: (← takeWhile p fuel)
      else return []
    | none => return []

/-- Passes spaces. -/
def spaces (fuel : Nat) : Scanner Unit := do
  let _ ← takeWhile text (· = ' ') fuel

/-- Takes a name, in capital letters. -/
def name (fuel : Nat) : Scanner String :=
  return String.ofList ((← takeWhile text isNameChar fuel).map Char.toUpper)

/-- Passes a character, if it is this one; tells whether it is. -/
def next (c : Char) : Scanner Bool := do
  if (← peek text 0) = some c then
    advance 1
    return true
  else return false

/-- Passes spaces, and a character behind them, if it is this one; tells whether it is. -/
def eat (c : Char) (fuel : Nat) : Scanner Bool := do
  spaces text fuel
  next text c

/-- Passes spaces, and a word operator behind them, if it is this one; tells whether it is. -/
def eatKeyword (word : List Char) (fuel : Nat) : Scanner Bool := do
  spaces text fuel
  let start ← get
  if start + word.length ≤ text.length then
    let front ← stretch text start (start + word.length)
    if front.map Char.toUpper = word ∧ !(← peek text word.length).any isNameChar then
      advance word.length
      return true
    else return false
  else return false

/-- Takes the first of the relations that stands behind spaces. -/
def relation (fuel : Nat) : List (List Char × Relation) → Scanner (Option Relation)
  | [] => return none
  | (word, r) :: more => do
    if ← eatKeyword text word fuel then return some r else relation fuel more

/-- Passes a quoted text through its closing apostrophe. -/
def passQuoted : Nat → Scanner Unit
  | 0 => failure
  | fuel + 1 => do
    match ← peek text 0 with
    | none => return ()
    | some c =>
      advance 1
      if c = '\'' then
        if ← next text '\'' then passQuoted fuel else return ()
      else passQuoted fuel

/-- A quoted term; the cursor is on its letter, in front of an apostrophe. -/
def quotedTerm (fuel : Nat) : Scanner SetValue := do
  let start ← get
  advance 2
  passQuoted text fuel
  return termValue (← stretch text start (← get))

end Steps

/-- The attribute of a reference with this letter, by the two characters behind it. -/
def attributeAt? (letter : Char) (quote next : Option Char) : Option Attribute :=
  if isNameStart letter ∧ quote = some '\'' ∧ next.any (fun n => n = '&' || isNameStart n) then
    Attribute.ofLetter? letter
  else none

section Readers

variable (e : Environment) (text : List Char)

mutual

/-- An expression. -/
def expression : Nat → Scanner SetValue
  | 0 => failure
  | fuel + 1 => do moreDisjuncts (← conjunction fuel) fuel

/-- The operands of `OR` and `XOR` behind the first one. -/
def moreDisjuncts (l : SetValue) : Nat → Scanner SetValue
  | 0 => failure
  | fuel + 1 => do
    if ← eatKeyword text ['O', 'R'] fuel then
      let r ← conjunction fuel
      moreDisjuncts (.boolean (l.toBool || r.toBool)) fuel
    else if ← eatKeyword text ['X', 'O', 'R'] fuel then
      let r ← conjunction fuel
      moreDisjuncts (.boolean (l.toBool != r.toBool)) fuel
    else return l

/-- Operands joined by `AND`. -/
def conjunction : Nat → Scanner SetValue
  | 0 => failure
  | fuel + 1 => do moreConjuncts (← negation fuel) fuel

/-- The operands of `AND` behind the first one. -/
def moreConjuncts (l : SetValue) : Nat → Scanner SetValue
  | 0 => failure
  | fuel + 1 => do
    if ← eatKeyword text ['A', 'N', 'D'] fuel then
      let r ← negation fuel
      moreConjuncts (.boolean (l.toBool && r.toBool)) fuel
    else return l

/-- A relation, possibly behind `NOT`. -/
def negation : Nat → Scanner SetValue
  | 0 => failure
  | fuel + 1 => do
    if ← eatKeyword text ['N', 'O', 'T'] fuel then return .boolean (!(← negation fuel).toBool)
    else comparison fuel

/-- A sum, or a relation between two sums. -/
def comparison : Nat → Scanner SetValue
  | 0 => failure
  | fuel + 1 => do
    let l ← sum fuel
    match ← relation text fuel relationWords with
    | some r => return .boolean (r.holds (compareValues l (← sum fuel)))
    | none => return l

/-- Products joined by plus and minus signs. -/
def sum : Nat → Scanner SetValue
  | 0 => failure
  | fuel + 1 => do moreSummands (← product fuel) fuel

/-- The products behind the first one. -/
def moreSummands (l : SetValue) : Nat → Scanner SetValue
  | 0 => failure
  | fuel + 1 => do
    if ← eat text '+' fuel then
      let r ← product fuel
      moreSummands (.arithmetic (l.toWord + r.toWord)) fuel
    else if ← eat text '-' fuel then
      let r ← product fuel
      moreSummands (.arithmetic (l.toWord - r.toWord)) fuel
    else return l

/-- Signed terms joined by multiplication and division signs. -/
def product : Nat → Scanner SetValue
  | 0 => failure
  | fuel + 1 => do moreFactors (← signed fuel) fuel

/-- The signed terms behind the first one. -/
def moreFactors (l : SetValue) : Nat → Scanner SetValue
  | 0 => failure
  | fuel + 1 => do
    if ← eat text '*' fuel then
      let r ← signed fuel
      moreFactors (.arithmetic (l.toWord * r.toWord)) fuel
    else if ← eat text '/' fuel then
      let r ← signed fuel
      moreFactors (.arithmetic (quotient l.toWord r.toWord)) fuel
    else return l

/-- A term, possibly behind signs. -/
def signed : Nat → Scanner SetValue
  | 0 => failure
  | fuel + 1 => do
    if ← eat text '-' fuel then return .arithmetic (-(← signed fuel).toWord)
    else if ← eat text '+' fuel then return .arithmetic (← signed fuel).toWord
    else primary fuel

/-- A term behind spaces. -/
def primary : Nat → Scanner SetValue
  | 0 => failure
  | fuel + 1 => do
    spaces text fuel
    match ← peek text 0 with
    | none => return .arithmetic 0
    | some c =>
      if c = '(' then
        advance 1
        let v ← expression fuel
        let _ ← eat text ')' fuel
        return v
      else if c = '\'' then return .character (← strings fuel)
      else if c = '&' then return (← reference fuel).value
      else if c.isDigit then return termValue (← takeWhile text Char.isDigit fuel)
      else if isNameStart c then
        let quote ← peek text 1
        match attributeAt? c quote (← peek text 2) with
        | some a =>
          advance 2
          attributeValue a fuel
        | none =>
          if quote = some '\'' ∧ c.toUpper ∈ ['X', 'B', 'C'] then quotedTerm text fuel
          else return e.symbol (← name text fuel)
      else
        advance 1
        return .arithmetic 0

/-- The value of an attribute reference; the cursor is behind its apostrophe. -/
def attributeValue (a : Attribute) : Nat → Scanner SetValue
  | 0 => failure
  | fuel + 1 => do
    if (← peek text 0) = some '&' then
      let r ← reference fuel
      return e.variableAttribute a r.target r.subscripts
    else return e.symbolAttribute a (← name text fuel)

/-- A variable reference; the cursor is on its ampersand. -/
def reference : Nat → Scanner Reference
  | 0 => failure
  | fuel + 1 => do
    advance 1
    let v := e.visible? (← name text fuel)
    if v.any Variable.takesSubscript then
      if ← next text '(' then return ⟨v, ← subscripts fuel⟩ else return ⟨v, []⟩
    else return ⟨v, []⟩

/-- Subscripts and the closing parenthesis. -/
def subscripts : Nat → Scanner (List Nat)
  | 0 => failure
  | fuel + 1 => do
    let i ← expression fuel
    if ← eat text ',' fuel then return i.toWord.toInt.toNat :: (← subscripts fuel)
    else
      let _ ← eat text ')' fuel
      return [i.toWord.toInt.toNat]

/-- The characters of a quoted text, through its closing apostrophe. -/
def quoted : Nat → Scanner (List Char)
  | 0 => failure
  | fuel + 1 => do
    match ← peek text 0 with
    | none => return []
    | some c =>
      if c = '\'' then
        if (← peek text 1) = some '\'' then
          advance 2
          return '\'' :: (← quoted fuel)
        else
          advance 1
          return []
      else if c = '&' then
        if (← peek text 1) = some '&' then
          advance 2
          return '&' :: (← quoted fuel)
        else
          let r ← reference fuel
          let _ ← next text '.'
          return r.text ++ (← quoted fuel)
      else
        advance 1
        return c :: (← quoted fuel)

/-- A substring notation behind its parenthesis. -/
def substring : Nat → Scanner (Int32 × Option Int32)
  | 0 => failure
  | fuel + 1 => do
    let start ← expression fuel
    let _ ← eat text ',' fuel
    spaces text fuel
    if ← next text '*' then
      let _ ← eat text ')' fuel
      return (start.toWord, none)
    else
      let length ← expression fuel
      let _ ← eat text ')' fuel
      return (start.toWord, some length.toWord)

/-- Quoted texts joined by periods; the cursor is on the first apostrophe. -/
def strings : Nat → Scanner (List Char)
  | 0 => failure
  | fuel + 1 => do
    advance 1
    let q ← quoted fuel
    if ← next text '(' then
      let cut ← substring fuel
      moreStrings (selected q cut.1 cut.2) fuel
    else moreStrings q fuel

/-- The further quoted texts behind a first one. -/
def moreStrings (first : List Char) : Nat → Scanner (List Char)
  | 0 => failure
  | fuel + 1 => do
    if (← peek text 0) = some '.' ∧ (← peek text 1) = some '\'' then
      advance 1
      return first ++ (← strings fuel)
    else return first

end

/-- The text with its variable symbols replaced, from the cursor on. -/
def substitute : Nat → Scanner (List Char)
  | 0 => failure
  | fuel + 1 => do
    match ← peek text 0 with
    | none => return []
    | some c =>
      if c = '&' then
        let behind ← peek text 1
        if behind = some '&' then
          advance 2
          return '&' :: '&' :: (← substitute fuel)
        else if behind.any isNameStart then
          let start ← get
          let r ← reference e text fuel
          match r.target with
          | some _ =>
            let _ ← next text '.'
            return r.text ++ (← substitute fuel)
          | none =>
            let written ← stretch text start (← get)
            return written ++ (← substitute fuel)
        else
          advance 1
          return '&' :: (← substitute fuel)
      else
        advance 1
        return c :: (← substitute fuel)

end Readers

end Scanner

end AssemblerIndex.Expression
