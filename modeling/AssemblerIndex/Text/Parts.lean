/-!
# Parts of a text

Cutting a text at the characters of a class.
-/

namespace AssemblerIndex.Text

/-- The parts of a text between separators; a text without one is its only part. -/
def partsAt (separator : Char) : List Char → List (List Char)
  | [] => [[]]
  | c :: rest =>
    if c = separator then [] :: partsAt separator rest
    else match partsAt separator rest with
      | p :: ps => (c :: p) :: ps
      | [] => [[c]]

/-- Parts with a separator between them. -/
def joinedWith (separator : List Char) : List (List Char) → List Char
  | [] => []
  | [p] => p
  | p :: ps => p ++ separator ++ joinedWith separator ps

/-- Cuts a text at the first character of a class, which is dropped. -/
def splitAt? (p : Char → Bool) (s : List Char) : List Char × Option (List Char) :=
  (s.takeWhile (!p ·), match s.dropWhile (!p ·) with
    | _ :: rest => some rest
    | [] => none)

end AssemblerIndex.Text
