import AssemblerIndex.Expression.Evaluation

/-!
# Substitution

Variable symbols in a model statement are replaced by their values.  A period behind a variable
symbol ends it and disappears, a doubled ampersand stays as it is written, and so does the name of an
unknown variable.
-/

namespace AssemblerIndex

namespace Expression

/-- The text in which every variable symbol is replaced by its value in the surroundings. -/
def substituteIn (e : Environment) (s : List Char) : List Char :=
  match s with
  | [] => []
  | '&' :: '&' :: u => '&' :: '&' :: substituteIn e u
  | '&' :: u =>
    if u.head?.any isNameStart then
      let ⟨r, t, _⟩ := reference e u
      match r.target with
      | some _ =>
        let ⟨_, w, _⟩ := takeNext '.' t
        r.text ++ substituteIn e w
      | none => '&' :: (u.takeWhile isNameChar ++ substituteIn e t)
    else '&' :: substituteIn e u
  | c :: u => c :: substituteIn e u
termination_by s.length

/-- The text in which every variable symbol is replaced by its value. -/
def substitute (x : Context) (s : List Char) : List Char := substituteIn (environment x) s

end Expression

/-- The field holds a variable symbol, or at least an ampersand. -/
def mentionsVariable (s : List Char) : Bool := s.contains '&'

/-- The statement with the variable symbols of all its fields replaced; a statement without any stays
as it is. -/
def Statement.substituted (s : Statement) (x : Context) : Statement :=
  let instruction := fieldText s.instruction
  if mentionsVariable s.labelText || mentionsVariable instruction || mentionsVariable s.operandText
  then s.withTexts (Expression.substitute x s.labelText) (Expression.substitute x instruction)
    (Expression.substitute x s.operandText)
  else s

end AssemblerIndex
