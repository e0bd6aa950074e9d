import AssemblerIndex.Files.Volume

/-!
# Wildcards

A pattern for paths is matched name by name.  A name without wildcards is looked for as it is; one
with wildcards matches the names of a directory regardless of the case of ASCII letters, in the order
of the names.  Two stars in place of a name stand for any number of directories.
-/

namespace AssemblerIndex

/-- The characters from `low` through `high`. -/
structure CharInterval where
  low : Char
  high : Char
  deriving DecidableEq, Repr, Inhabited

/-- A piece of a pattern. -/
inductive WildcardPiece where
  | char (c : Char)
  /-- any character -/
  | one
  /-- any number of characters -/
  | many
  /-- a character in one of the intervals, or in none of them -/
  | class_ (intervals : List CharInterval) (isExcluded : Bool)
  deriving DecidableEq, Repr, Inhabited

namespace Wildcard

/-- Two characters are equal up to the case of ASCII letters. -/
def sameChar (a b : Char) : Bool := a.toLower == b.toLower

/-- The character lies in the interval; the case does not matter if both ends are letters of ASCII. -/
def CharInterval.matches (i : CharInterval) (c : Char) : Bool :=
  (i.low ≤ c && c ≤ i.high)
    || (i.low == i.high && sameChar c i.low)
    || (i.low.isAlpha && i.high.isAlpha && i.low.toLower ≤ c.toLower && c.toLower ≤ i.high.toLower)

/-- The intervals that the inside of brackets lists. -/
def intervals : List Char → List CharInterval
  | a :: '-' :: b :: rest => ⟨a, b⟩ :: intervals rest
  | a :: rest => ⟨a, a⟩ :: intervals rest
  | [] => []

/-- Splits a text at the first closing bracket behind its first character. -/
def splitBracket : List Char → Option (List Char × List Char)
  | c :: rest =>
    match rest.dropWhile (· ≠ ']') with
    | _ :: behind => some (c :: rest.takeWhile (· ≠ ']'), behind)
    | [] => none
  | [] => none

theorem length_splitBracket {s inside behind : List Char}
    (h : splitBracket s = some (inside, behind)) : behind.length < s.length := by
  unfold splitBracket at h
  split at h
  · rename_i c rest
    split at h
    · rename_i d b hb
      cases h
      have := (List.dropWhile_sublist (fun c : Char => c ≠ ']') (l := rest)).length_le
      simp only [hb, List.length_cons] at *
      omega
    · simp at h
  · simp at h

/-- The pieces of a pattern for a name; `none` if brackets are not closed or stars follow each
other. -/
def pieces? (s : List Char) : Option (List WildcardPiece) :=
  match s with
  | [] => some []
  | '?' :: rest => (pieces? rest).map (.one :: ·)
  | '*' :: '*' :: _ => none
  | '*' :: rest => (pieces? rest).map (.many :: ·)
  | '[' :: '!' :: rest =>
    match h : splitBracket rest with
    | some (inside, behind) =>
      have := length_splitBracket h
      (pieces? behind).map (.class_ (intervals inside) true :: ·)
    | none => none
  | '[' :: rest =>
    match h : splitBracket rest with
    | some (inside, behind) =>
      have := length_splitBracket h
      (pieces? behind).map (.class_ (intervals inside) false :: ·)
    | none => none
  | c :: rest => (pieces? rest).map (.char c :: ·)
termination_by s.length

/-- A single character fits a piece. -/
def fits (c : Char) : WildcardPiece → Bool
  | .char d => sameChar c d
  | .one | .many => true
  | .class_ is isExcluded => is.any (CharInterval.matches · c) != isExcluded

/-- The name fits the pattern. -/
def fitsAll (ps : List WildcardPiece) (s : List Char) : Bool :=
  match ps, s with
  | [], s => s.isEmpty
  | .many :: ps, [] => fitsAll ps []
  | .many :: ps, c :: rest => fitsAll ps (c :: rest) || fitsAll (.many :: ps) rest
  | p :: ps, c :: rest => fits c p && fitsAll ps rest
  | _ :: _, [] => false
termination_by ps.length + s.length

/-- A pattern for names of a path. -/
inductive NamePattern where
  | exact (name : String)
  | wild (pieces : List WildcardPiece)
  /-- any number of directories -/
  | anyDepth
  deriving DecidableEq, Repr, Inhabited

/-- The pattern that a text stands for. -/
def namePattern? (s : List Char) : Option NamePattern :=
  if s = ['*', '*'] then some .anyDepth
  else if s.any (· ∈ ['?', '*', '[']) then (pieces? s).map .wild
  else some (.exact (String.ofList s))

/-- Patterns where directories at any depth are asked for only once in a row. -/
def withoutRepeats : List NamePattern → List NamePattern
  | [] => []
  | p :: ps =>
    if p = .anyDepth ∧ ps.head? = some .anyDepth then withoutRepeats ps else p :: withoutRepeats ps

/-- The name of a file or directory fits the pattern. -/
def NamePattern.admits (p : NamePattern) (name : String) : Bool :=
  match p with
  | .exact n => fitsAll (n.toList.map .char) name.toList
  | .wild pieces => fitsAll pieces name.toList
  | .anyDepth => true

/-- The entries that every directory has for itself and the one above and that fit the pieces; these
have to begin with the period. -/
def specialNames (pieces : List WildcardPiece) : List String :=
  if pieces.head? = some (.char '.') then ["..", "."].filter fun n => fitsAll pieces n.toList else []

/-- Where a search stands.  The working directory that a relative pattern starts from goes by the name
`.`, behind which an empty name leads nowhere. -/
structure SearchPlace where
  path : List String
  isHere : Bool
  deriving DecidableEq, Repr, Inhabited

/-- Where a name leads to. -/
def SearchPlace.enter? (v : Volume) (place : SearchPlace) (name : String) : Option SearchPlace :=
  if place.isHere ∧ name = "" then none
  else (v.enter? place.path name).map fun path => ⟨path, place.isHere && name == "."⟩

/-- The ways that fit patterns, from a directory on: exact names are looked for as they are, other
patterns are tried on the names of the directory in their order, and behind directories at any depth all
patterns are tried on everything below. -/
def search (v : Volume) (place : SearchPlace) : List NamePattern → List (List String)
  | [] => [place.path]
  | .exact name :: ps => ((place.enter? v name).map (search v · ps)).getD []
  | .wild pieces :: ps =>
    let names := (v.namesIn place.path).filter fun n => fitsAll pieces n.toList
    let places := (specialNames pieces).filterMap (place.enter? v)
      ++ names.map fun n => SearchPlace.mk (place.path ++ [n]) false
    places.flatMap fun p => search v p ps
  | .anyDepth :: [] => (v.below place.path).filter v.isDirectory
  | .anyDepth :: p :: ps =>
    ((v.below place.path).filter fun path => path.getLast?.any p.admits).flatMap fun path =>
      search v ⟨path, false⟩ ps

/-- The first regular file that fits a pattern. -/
def findFile? (v : Volume) (pattern : String) : Option (List String × String) := do
  let (start, names) := v.startOf pattern
  let ps ← names.mapM fun n => namePattern? n.toList
  let place : SearchPlace := ⟨start, pattern.toList.head? ≠ some '/'⟩
  (search v place (withoutRepeats ps)).findSome? fun path => (v.textAt? path).map (path, ·)

theorem mem_files_of_findFile? {v : Volume} {pattern : String} {file : List String × String}
    (h : findFile? v pattern = some file) : file ∈ v.files := by
  simp only [findFile?, Option.bind_eq_bind, Option.bind_eq_some_iff] at h
  obtain ⟨ps, _, h⟩ := h
  obtain ⟨path, _, h⟩ := List.exists_of_findSome?_eq_some h
  obtain ⟨text, ht, rfl⟩ := Option.map_eq_some_iff.1 h
  exact Volume.mem_files_of_textAt? ht

end Wildcard

end AssemblerIndex
