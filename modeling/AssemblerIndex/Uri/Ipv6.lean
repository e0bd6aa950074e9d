import AssemblerIndex.Text.Digits
import AssemblerIndex.Text.Parts

/-!
# Addresses of eight pieces

An address of eight pieces of sixteen bits is written in hexadecimal digits with colons between the
pieces.  Two colons stand for as many zeros as are missing, and the last two pieces may be written as an
address of four bytes.
-/

namespace AssemblerIndex.Uri.Ipv6

open AssemblerIndex.Text

/-! ### Reading -/

/-- A byte in decimal digits without leading zeros. -/
def byte? (s : List Char) : Option Nat :=
  if s ≠ [] ∧ (s.head? ≠ some '0' ∨ s.length = 1) then
    (ofDigits? 10 s).filter (· < 256)
  else none

/-- The two pieces that an address of four bytes fills. -/
def embedded? (s : List Char) : Option (List Nat) :=
  match (partsAt '.' s).mapM byte? with
  | some [a, b, c, d] => some [a * 256 + b, c * 256 + d]
  | _ => none

/-- The number that hexadecimal digits stand for. -/
def pieceValue (digits : List Char) : Nat := (ofDigits? 16 digits).getD 0

/-- Reads pieces, for which there is the given room; `none` among them stands for a gap, which takes the
room of a piece and comes at most once. -/
def readPieces? (room : Nat) (hasGap : Bool) (s : List Char) : Option (List (Option Nat)) :=
  match room, s with
  | _, [] => some []
  | 0, _ :: _ => none
  | room + 1, ':' :: rest =>
    if hasGap then none else (readPieces? room true rest).map (none :: ·)
  | room + 1, s =>
    let digits := (s.take 4).takeWhile fun c => (digitValue? c).isSome
    match s.drop digits.length with
    | [] => some [some (pieceValue digits)]
    | '.' :: _ =>
      if digits.isEmpty ∨ room = 0 then none else (embedded? s).map (·.map some)
    | ':' :: rest =>
      if rest.isEmpty then none
      else (readPieces? room hasGap rest).map (some (pieceValue digits) :: ·)
    | _ => none

/-- Eight pieces with zeros for a gap. -/
def filled? (pieces : List (Option Nat)) : Option (List Nat) :=
  if none ∈ pieces then
    some (pieces.flatMap fun p => match p with
      | some n => [n]
      | none => List.replicate (9 - pieces.length) 0)
  else if pieces.length = 8 then some (pieces.filterMap id)
  else none

/-- The pieces of the address that a text stands for. -/
def parse? (s : List Char) : Option (List Nat) :=
  match s with
  | ':' :: ':' :: rest => ((readPieces? 7 true rest).map (none :: ·)).bind filled?
  | ':' :: _ => none
  | [_] | [] => none
  | s => (readPieces? 8 false s).bind filled?

/-! ### Writing -/

/-- The first of the longest runs of zeros: where it begins and its length. -/
def longestZeros (pieces : List Nat) : Nat × Nat :=
  (List.range pieces.length).foldl (fun best place =>
    let length := ((pieces.drop place).takeWhile (· = 0)).length
    if best.2 < length then (place, length) else best) (0, 0)

/-- Pieces in hexadecimal digits with colons between them. -/
def pieceTexts (pieces : List Nat) : List Char := joinedWith [':'] (pieces.map (Nat.toDigits 16))

/-- An address as it is written; two colons stand for the longest run of at least two zeros. -/
def text (pieces : List Nat) : List Char :=
  let (place, length) := longestZeros pieces
  if length < 2 then pieceTexts pieces
  else pieceTexts (pieces.take place) ++ [':', ':'] ++ pieceTexts (pieces.drop (place + length))

end AssemblerIndex.Uri.Ipv6
