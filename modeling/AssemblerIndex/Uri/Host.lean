import AssemblerIndex.Uri.DomainName
import AssemblerIndex.Uri.Escape
import AssemblerIndex.Uri.Ipv4
import AssemblerIndex.Uri.Ipv6

/-!
# Hosts

The host of an address is an address of eight pieces in brackets, an address of four bytes or a name.
Schemes with no known form may name their hosts as they like, in brackets excepted.
-/

namespace AssemblerIndex.Uri

open AssemblerIndex.Text

/-- A host. -/
inductive Host where
  | name (name : List Char)
  | ipv4 (bytes : List Nat)
  | ipv6 (pieces : List Nat)
  deriving DecidableEq, Repr, Inhabited

namespace Host

/-- A host as it is written. -/
def text : Host → List Char
  | .name s => s
  | .ipv4 bytes => Ipv4.text bytes
  | .ipv6 pieces => ['['] ++ Ipv6.text pieces ++ [']']

/-- The host in brackets, of which the first is there. -/
def bracketed? (s : List Char) : Option Host :=
  if s.getLast? = some ']' then (Ipv6.parse? (s.drop 1).dropLast).map .ipv6 else none

/-- A host of a scheme with a known form. -/
def known? (s : List Char) : Option Host :=
  if s.head? = some '[' then bracketed? s
  else do
    let name ← asciiName? (← unescape? s)
    if name.isEmpty then none
    else if Ipv4.endsInNumber name then (Ipv4.parse? name).map .ipv4
    else some (.name name)

/-- The characters that no host of any scheme holds. -/
def isForbidden (c : Char) : Bool :=
  c ∈ ['\x00', ' ', '#', '/', ':', '<', '>', '?', '@', '[', '\\', ']', '^', '|']

/-- A host of any other scheme; it may be empty. -/
def other? (s : List Char) : Option Host :=
  if s.head? = some '[' then bracketed? s
  else if s.any isForbidden then none
  else some (.name (escape [] s))

end Host

end AssemblerIndex.Uri
