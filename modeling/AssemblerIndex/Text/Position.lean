/-!
# Places in a source

Lines and columns count from zero, and columns count characters.
-/

namespace AssemblerIndex

/-- A place in a text. -/
structure Position where
  line : Nat
  column : Nat
  deriving DecidableEq, Repr, Inhabited

/-- A stretch of text from `start` up to, but not including, `stop`. -/
structure Span where
  start : Position
  stop : Position
  deriving DecidableEq, Repr, Inhabited

/-- A place in a named file. -/
structure Location where
  file : String
  pos : Position
  deriving DecidableEq, Repr, Inhabited

/-- A stretch of a named file. -/
structure FileSpan where
  file : String
  span : Span
  deriving DecidableEq, Repr, Inhabited

/-- The empty stretch at a place. -/
def Span.point (p : Position) : Span := ⟨p, p⟩

/-- The place lies in the stretch or right behind it. -/
def Span.touches (s : Span) (p : Position) : Bool :=
  s.start.line ≤ p.line && p.line ≤ s.stop.line
    && (p.line != s.start.line || s.start.column ≤ p.column)
    && (p.line != s.stop.line || p.column ≤ s.stop.column)

/-- Order of files by name, then of stretches by the place where they begin. -/
def FileSpan.le (a b : FileSpan) : Bool :=
  if a.file = b.file then
    if a.span.start.line = b.span.start.line then a.span.start.column ≤ b.span.start.column
    else a.span.start.line < b.span.start.line
  else a.file < b.file

end AssemblerIndex
