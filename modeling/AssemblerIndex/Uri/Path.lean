import AssemblerIndex.Text.Parts
import AssemblerIndex.Uri.Escape

/-!
# Paths of addresses

A path is a list of segments.  `.` stands for no segment, and `..` takes the one in front of it away.  A
drive letter stays where it is: it is the top of what lies on the drive.
-/

namespace AssemblerIndex.Uri

open AssemblerIndex.Text

/-- The characters that are dropped wherever they stand. -/
def isIgnored (c : Char) : Bool := c = '\t' || c = '\n' || c = '\r'

/-- A text without the characters that are dropped. -/
def cleaned (s : List Char) : List Char := s.filter (!isIgnored ·)

/-- A text with every `%2e` written as the period it stands for. -/
def withPeriods : List Char → List Char
  | '%' :: '2' :: 'e' :: rest => '.' :: withPeriods rest
  | '%' :: '2' :: 'E' :: rest => '.' :: withPeriods rest
  | c :: rest => c :: withPeriods rest
  | [] => []

/-- A drive letter of a file system. -/
def isDrive (s : List Char) : Bool :=
  match s with
  | [c, ':'] | [c, '|'] => c.isAlpha
  | _ => false

/-- The segment, up to a backslash, is a drive letter. -/
def staysInPlace (segment : List Char) : Bool := isDrive (segment.takeWhile (· ≠ '\\'))

/-- What follows the first `n` characters that are not dropped. -/
def behindCleaned (n : Nat) : List Char → List Char
  | [] => []
  | c :: rest =>
    if n = 0 then c :: rest
    else behindCleaned (if isIgnored c then n else n - 1) rest

/-- A path part way through: its segments, last one first, and whether it began with a drive letter. -/
structure PathWalk where
  above : List (List Char) := []
  isOnDrive : Bool := false
  deriving DecidableEq, Repr, Inhabited

namespace PathWalk

/-- Adds a segment. -/
def push (w : PathWalk) (segment : List Char) : PathWalk := { w with above := segment :: w.above }

/-- Takes the last segment away, unless it stays in its place. -/
def up (w : PathWalk) : PathWalk :=
  match w.above with
  | [] => w
  | s :: above => if staysInPlace s then w else { w with above }

/-- A drive letter with a colon behind it. -/
def enterDrive (w : PathWalk) (segment : List Char) : PathWalk :=
  { w.push [segment.headD ' ', ':'] with isOnDrive := true }

/-- Goes to a segment as it is given; `.` and `..` at the end leave an empty one.  The path of a file may
begin with a drive letter, and one that a dropped character follows ends its segment. -/
def step (isFile isLast : Bool) (w : PathWalk) (given : List Char) : PathWalk :=
  let segment := cleaned given
  let atEnd (w : PathWalk) := if isLast then w.push [] else w
  if withPeriods segment = ['.', '.'] then atEnd w.up
  else if withPeriods segment = ['.'] then atEnd w
  else if isFile ∧ w.above = [] ∧ isDrive segment then w.enterDrive segment
  else if isFile ∧ w.above = [] ∧ (segment.drop 1).head? = some ':' ∧ isDrive (segment.take 2)
      ∧ (behindCleaned 2 given).head?.any isIgnored then
    (w.push (segment.take 2)).push (escape pathReserved (segment.drop 2))
  else w.push (escape pathReserved segment)

/-- Goes along segments. -/
def along (isFile : Bool) (w : PathWalk) : List (List Char) → PathWalk
  | [] => w
  | [s] => w.step isFile true s
  | s :: ss => along isFile (w.step isFile false s) ss

/-- The segments gone along. -/
def segments (w : PathWalk) : List (List Char) := w.above.reverse

end PathWalk

/-- The way along the segments of a text. -/
def walk (isFile : Bool) (s : List Char) : PathWalk := PathWalk.along isFile {} (partsAt '/' s)

/-- Segments with a slash in front of each. -/
def joinSegments (ss : List (List Char)) : List Char := ss.flatMap ('/' :: ·)

/-- Drops the empty segments in front of the last one. -/
def dropEmpty : List (List Char) → List (List Char)
  | [] :: s :: ss => dropEmpty (s :: ss)
  | ss => ss

end AssemblerIndex.Uri
