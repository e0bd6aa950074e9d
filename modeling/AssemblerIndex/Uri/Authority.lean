import AssemblerIndex.Uri.Host
import AssemblerIndex.Uri.Path

/-!
# Authorities

Behind two slashes an address names a host, with a user in front of it and the number of a service
behind it.
-/

namespace AssemblerIndex.Uri

open AssemblerIndex.Text

/-! ### Schemes -/

/-- Schemes whose addresses have a host, with their usual service numbers. -/
def specialSchemes : List (List Char × Option Nat) := [
  ("http".toList, some 80), ("https".toList, some 443), ("ws".toList, some 80),
  ("wss".toList, some 443), ("ftp".toList, some 21), ("file".toList, none)]

/-- The scheme is one of those with a known form. -/
def isSpecialScheme (scheme : List Char) : Bool := (specialSchemes.lookup scheme).isSome

/-- The number of the service that a scheme is usually about. -/
def usualService (scheme : List Char) : Option Nat := (specialSchemes.lookup scheme).join

/-! ### Users -/

/-- The name and password of a user as they are written in front of a host. -/
def writtenUser (s : List Char) : List Char :=
  let (name, password) := splitAt? (· = ':') s
  let password := password.getD []
  if name.isEmpty && password.isEmpty then []
  else escape userReserved name
    ++ (if password.isEmpty then [] else ':' :: escape userReserved password) ++ ['@']

/-- Splits a text at its last `@`. -/
def splitUser (s : List Char) : Option (List Char) × List Char :=
  match splitAt? (· = '@') s.reverse with
  | (h, some u) => (some u.reverse, h.reverse)
  | (_, none) => (none, s)

/-! ### Hosts and services -/

/-- Splits a text at the first colon that is not in brackets. -/
def splitService (isInBrackets : Bool) : List Char → List Char × Option (List Char)
  | [] => ([], none)
  | c :: rest =>
    if c = ':' ∧ !isInBrackets then ([], some rest)
    else
      let (host, service) := splitService ((isInBrackets || c = '[') && c ≠ ']') rest
      (c :: host, service)

/-- The number of a service on a host, if it is written as one of at most sixteen bits; a text without
digits stands for no number. -/
def serviceNumber? (digits : List Char) : Option (Option Nat) :=
  if digits.isEmpty then some none
  else ((ofDigits? 10 digits).filter (· < 0x10000)).map some

/-- A service number as it is written behind a host; the usual one is not. -/
def writtenService (usual number : Option Nat) : List Char :=
  match number with
  | none => []
  | some n => if some n = usual then [] else ':' :: (toString n).toList

/-- The slash that ends an authority; in a special scheme the backslash is one, too. -/
def isSlash (isSpecial : Bool) (c : Char) : Bool := c = '/' || (isSpecial && c = '\\')

/-- The authority at the front of a text, and what follows it.  A user without name and password is no
user; where it is followed by no host, the address has to end there. -/
def authority? (scheme : List Char) (isFollowed : Bool) (s : List Char) :
    Option (List Char × List Char) := do
  let isSpecial := isSpecialScheme scheme
  let behind := s.dropWhile (!isSlash isSpecial ·)
  let (user, rest) := splitUser (s.takeWhile (!isSlash isSpecial ·))
  let (host, service) := splitService false rest
  let written := writtenUser (user.getD [])
  if user = some [] ∧ rest.isEmpty ∧ (isFollowed ∨ !behind.isEmpty) then none
  else if host.isEmpty ∧ (isSpecial ∨ service.isSome ∨ !written.isEmpty) then none
  else
    let host ← if isSpecial then Host.known? host else Host.other? host
    let number ← serviceNumber? ((service.getD []).takeWhile (· ≠ '\\'))
    return (written ++ host.text ++ writtenService (usualService scheme) number,
      (service.getD []).dropWhile (· ≠ '\\') ++ behind)

end AssemblerIndex.Uri
