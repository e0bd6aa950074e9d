import AssemblerIndex.Text.Blank
import AssemblerIndex.Uri.Authority

/-!
# Addresses

The files of an index are named by addresses.  `Uri.parse?` reads an address and brings it into its
usual form: the scheme and the host in small letters, no `.` or `..` in the path, and characters that
may not stand in an address escaped by their bytes in UTF-8.
-/

namespace AssemblerIndex

/-- The parts of an address. -/
structure Uri where
  scheme : List Char
  /-- host and service number with what stands in front of them, `none` without `//` -/
  authority : Option (List Char)
  path : List Char
  query : Option (List Char)
  fragment : Option (List Char)
  deriving DecidableEq, Repr, Inhabited

namespace Uri

open AssemblerIndex.Text

/-! ### Authority and path -/

/-- The authority and path of a file behind its host.  The host is dropped if the path begins with a
drive letter. -/
def fileOn (host path : List Char) : List Char × List Char :=
  let w := walk true path
  (if w.isOnDrive then [] else host, joinSegments (dropEmpty w.segments))

/-- Takes a slash off the front of a text. -/
def withoutSlash? (s : List Char) : Option (List Char) :=
  match s.dropWhile isIgnored with
  | '/' :: rest => some rest
  | _ => none

/-- The authority and path of a file; an address without a host names a file of this system.  The text
still holds the characters that are dropped. -/
def fileParts? (s : List Char) : Option (List Char × List Char) :=
  let s := s.map fun c => if c = '\\' then '/' else c
  match withoutSlash? s with
  | none => some (fileOn [] s)
  | some s =>
    match withoutSlash? s with
    | none => some (fileOn [] s)
    | some s =>
      let host := cleaned (s.takeWhile (· ≠ '/'))
      let behind := s.dropWhile (· ≠ '/')
      if isDrive host then some (fileOn [] s)
      else if host.isEmpty then some (fileOn [] behind)
      else (Host.known? host).map fun h =>
        if h.text = "localhost".toList then fileOn [] behind else fileOn h.text (behind.drop 1)

/-- The authority and path of an address with a host of known form. -/
def specialParts? (scheme : List Char) (isFollowed : Bool) (s : List Char) :
    Option (List Char × List Char) :=
  (authority? scheme isFollowed (s.dropWhile (isSlash true))).map fun (a, behind) =>
    let path := behind.map fun c => if c = '\\' then '/' else c
    (a, joinSegments (walk false (path.drop 1)).segments)

/-- The authority and path of any other address. -/
def otherParts? (scheme : List Char) (isFollowed : Bool) (s : List Char) :
    Option (Option (List Char) × List Char) :=
  match s with
  | '/' :: '/' :: rest =>
    (authority? scheme isFollowed rest).map fun (a, behind) =>
      (some a,
        if behind.isEmpty then []
        else joinSegments (walk false (if behind.head? = some '/' then behind.drop 1 else behind)).segments)
  | '/' :: rest =>
    let path := joinSegments (walk false rest).segments
    some (none, if path.take 2 = ['/', '/'] then '/' :: '.' :: path else path)
  | s => some (none, escape [] s)

/-! ### Reading an address -/

/-- The scheme at the front of an address and what follows its colon. -/
def scheme? (s : List Char) : Option (List Char × List Char) :=
  match splitAt? (· = ':') s with
  | (scheme, some rest) =>
    let scheme := cleaned scheme
    let isPart (c : Char) : Bool := c.isAlphanum || c = '+' || c = '-' || c = '.'
    if scheme.head?.any Char.isAlpha ∧ scheme.all isPart then some (scheme.map Char.toLower, rest)
    else none
  | (_, none) => none

/-- The address that a text stands for; `none` without a scheme or with a bad host. -/
def parse? (text : String) : Option Uri := do
  let trimmed := trimEndWhile (· ≤ ' ') (text.toList.dropWhile (· ≤ ' '))
  let (scheme, rest) ← scheme? trimmed
  let (rest, fragment) := splitAt? (· = '#') rest
  let (rest, query) := splitAt? (· = '?') rest
  let isFollowed := query.isSome || fragment.isSome
  let (authority, path) ←
    if scheme = "file".toList then (fileParts? rest).map fun r => (some r.1, r.2)
    else if isSpecialScheme scheme then
      (specialParts? scheme isFollowed (cleaned rest)).map fun r => (some r.1, r.2)
    else otherParts? scheme isFollowed (cleaned rest)
  return {
    scheme, authority, path
    query := query.map fun q => escape (queryReserved (isSpecialScheme scheme)) (cleaned q)
    fragment := fragment.map fun f => escape fragmentReserved (cleaned f) }

/-! ### Writing an address -/

/-- A part of an address with the mark in front of it. -/
def marked (mark : String) : Option (List Char) → List Char
  | some s => mark.toList ++ s
  | none => []

/-- An address as it is written. -/
def text (u : Uri) : String :=
  String.ofList (u.scheme ++ ':' :: marked "//" u.authority ++ u.path ++ marked "?" u.query
    ++ marked "#" u.fragment)

/-- The address of a file, given the names on the way to it. -/
def ofFile (path : List String) : Uri :=
  { scheme := "file".toList
    authority := some []
    path := if path.isEmpty then ['/']
      else joinSegments (path.map fun s => escape nameReserved s.toList)
    query := none
    fragment := none }

end Uri

end AssemblerIndex
