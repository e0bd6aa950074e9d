import AssemblerIndex.Text.Digits
import AssemblerIndex.Text.Parts

/-!
# Addresses of four bytes

A host whose name ends in a number is an address of four bytes.  It may be written with fewer numbers:
the last one fills the bytes that are left.
-/

namespace AssemblerIndex.Uri.Ipv4

open AssemblerIndex.Text

/-- A number in decimal digits, in octal ones behind a zero, or in hexadecimal ones behind `0x`. -/
def number? (s : List Char) : Option Nat :=
  match s with
  | [] => none
  | '0' :: 'x' :: ds | '0' :: 'X' :: ds => ofDigits? 16 ds
  | '0' :: d :: ds => ofDigits? 8 (d :: ds)
  | ds => ofDigits? 10 ds

/-- The parts of a name between periods, without an empty one at the end. -/
def partsOf (name : List Char) : List (List Char) :=
  let parts := partsAt '.' name
  if parts.getLast? = some [] then parts.dropLast else parts

/-- The last part of a name is a number or consists of decimal digits. -/
def endsInNumber (name : List Char) : Bool :=
  (partsOf name).getLast?.any fun p => (!p.isEmpty && p.all Char.isDigit) || (number? p).isSome

/-- The four bytes of the numbers in front of the last one and of the last one, which fills what is
left. -/
def bytes? (front : List Nat) (last : Nat) : Option (List Nat) :=
  let room := 4 - front.length
  if front.length < 4 ∧ front.all (· < 256) ∧ last < Nat.pow 256 room then
    some (front ++ (List.range room).reverse.map fun k => last / Nat.pow 256 k % 256)
  else none

/-- The address that a name stands for. -/
def parse? (name : List Char) : Option (List Nat) := do
  let numbers ← (partsOf name).mapM number?
  bytes? numbers.dropLast (← numbers.getLast?)

/-- An address as it is written. -/
def text (address : List Nat) : List Char :=
  joinedWith ['.'] (address.map fun n => (toString n).toList)

end AssemblerIndex.Uri.Ipv4
