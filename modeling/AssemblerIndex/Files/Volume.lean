import AssemblerIndex.Uri

/-!
# Volumes

The files that a query can see, as data: regular files by the names on the way to them, and the
directory that relative paths start from.  What lies on the way to something is a directory; further
directories are listed.
-/

namespace AssemblerIndex

/-- Regular files, and the directory that relative paths start from. -/
structure Volume where
  workingDirectory : List String
  files : List (List String × String)
  /-- directories that need not lie on the way to a file -/
  directories : List (List String) := []
  deriving Repr, Inhabited

namespace Volume

/-- The text of a regular file. -/
def textAt? (v : Volume) (path : List String) : Option String := v.files.lookup path

theorem mem_files_of_textAt? {v : Volume} {path : List String} {text : String}
    (h : v.textAt? path = some text) : (path, text) ∈ v.files := by
  obtain ⟨before, rest, hf, _⟩ := List.lookup_eq_some_iff.1 h
  simp [hf]

/-- The names lead to a directory. -/
def isDirectory (v : Volume) (path : List String) : Bool :=
  path.isPrefixOf v.workingDirectory
    || v.directories.any (path.isPrefixOf ·)
    || v.files.any fun f => path.isPrefixOf f.1 && path.length < f.1.length

/-- The names lead to something. -/
def isPresent (v : Volume) (path : List String) : Bool :=
  (v.textAt? path).isSome || v.isDirectory path

/-- The names in a directory, in order. -/
def namesIn (v : Volume) (path : List String) : List String :=
  let ways := v.workingDirectory :: (v.directories ++ v.files.map Prod.fst)
  let names := ways.filterMap fun w =>
    if path.isPrefixOf w then (w.drop path.length).head? else none
  (names.mergeSort fun a b => decide (a ≤ b)).eraseReps

/-- The order of two ways: by the first names that differ, and what lies on the way in front. -/
def comesBefore : List String → List String → Bool
  | [], _ => true
  | _ :: _, [] => false
  | a :: as, b :: bs => if a = b then comesBefore as bs else a < b

/-- All that lies below a directory, each directory in front of what it holds. -/
def below (v : Volume) (path : List String) : List (List String) :=
  let ways := v.workingDirectory :: (v.directories ++ v.files.map Prod.fst)
  let found := ways.flatMap fun w =>
    if path.isPrefixOf w then
      (List.range (w.length - path.length)).map fun k => w.take (path.length + k + 1)
    else []
  (found.mergeSort comesBefore).eraseReps

/-- Where a further name on a path leads to; only a directory leads on. -/
def enter? (v : Volume) (path : List String) (name : String) : Option (List String) :=
  if !v.isDirectory path then none
  else if name = "" ∨ name = "." then some path
  else if name = ".." then some path.dropLast
  else if v.isPresent (path ++ [name]) then some (path ++ [name])
  else none

/-- The names of a path, and the directory that it starts from. -/
def startOf (v : Volume) (path : String) : List String × List String :=
  match path.toList with
  | '/' :: rest => ([], (Text.partsAt '/' rest).map String.ofList)
  | s => (v.workingDirectory, (Text.partsAt '/' s).map String.ofList)

/-- The names that lead to what a path denotes. -/
def resolve? (v : Volume) (path : String) : Option (List String) :=
  if path.isEmpty then none
  else
    let (start, names) := v.startOf path
    names.foldlM v.enter? start

/-- The regular file that a path denotes, and its text. -/
def file? (v : Volume) (path : String) : Option (List String × String) :=
  (v.resolve? path).bind fun names => (v.textAt? names).map (names, ·)

end Volume

end AssemblerIndex
