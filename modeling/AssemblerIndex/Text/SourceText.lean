import AssemblerIndex.Text.Blank
import AssemblerIndex.Text.Position

/-!
# Texts by line

A text is cut at its line feeds.  `SourceText` keeps the lines without their terminators and answers
what stands before a place; `recordLines` gives the lines that the statements of a source are read
from, which know no empty line after a final line feed.
-/

namespace AssemblerIndex

/-- The pieces of a text between its line feeds; there is always at least one. -/
def linePieces : List Char → List (List Char)
  | [] => [[]]
  | c :: rest =>
    if c = '\n' then [] :: linePieces rest
    else match linePieces rest with
      | p :: ps => (c :: p) :: ps
      | [] => [[c]]

theorem linePieces_ne_nil (s : List Char) : linePieces s ≠ [] := by
  cases s with
  | nil => simp [linePieces]
  | cons c rest =>
    unfold linePieces
    split
    · simp
    · split <;> simp

/-- A text cut into lines. -/
structure SourceText where
  lines : Array (List Char)
  deriving DecidableEq, Repr, Inhabited

namespace SourceText

/-- Cuts a text into lines; carriage returns that end a line are dropped. -/
def ofString (s : String) : SourceText :=
  ⟨((linePieces s.toList).map (Text.trimEndWhile (· = '\r'))).toArray⟩

/-- The number of lines, an empty one after a final line feed included. -/
def lineCount (t : SourceText) : Nat := t.lines.size

/-- The line with the given number, empty behind the last one. -/
def line (t : SourceText) (n : Nat) : List Char := t.lines[n]?.getD []

/-- The part of a line in front of a place. -/
def lineBefore (t : SourceText) (p : Position) : List Char := (t.line p.line).take p.column

/-- The character in front of a place, a space at the start of a line. -/
def charBefore (t : SourceText) (p : Position) : Char := (t.lineBefore p).getLast?.getD ' '

end SourceText

/-- Drops the carriage return of a line that a line feed ended. -/
def dropReturn (s : List Char) : List Char :=
  if s.getLast? = some '\r' then s.dropLast else s

/-- The lines of a source as records: a final line feed starts no further line, and a carriage
return belongs to the line feed that follows it. -/
def recordLines (s : List Char) : List (List Char) :=
  let pieces := linePieces s
  let last := pieces.getLast?.getD []
  pieces.dropLast.map dropReturn ++ (if last.isEmpty then [] else [last])

end AssemblerIndex
