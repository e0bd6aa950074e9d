/-!
# Moments

The date and time that an assembly starts at, and the forms in which its system variables show them.
-/

namespace AssemblerIndex

/-- A date and a time of day. -/
structure Moment where
  year : Int
  month : Nat
  day : Nat
  hour : Nat
  minute : Nat
  second : Nat
  deriving DecidableEq, Repr, Inhabited

/-- The decimal digits of a number, with zeros in front up to the given width. -/
def paddedDigits (width n : Nat) : List Char :=
  let digits := Nat.toDigits 10 n
  List.replicate (width - digits.length) '0' ++ digits

namespace Moment

/-- The year in four digits; a year that needs a sign has one. -/
def yearDigits (m : Moment) : List Char :=
  let digits := paddedDigits 4 m.year.natAbs
  if m.year < 0 then '-' :: digits
  else if 9999 < m.year then '+' :: digits
  else digits

/-- The date as year, month and day without separators. -/
def dateDigits (m : Moment) : List Char :=
  m.yearDigits ++ paddedDigits 2 m.month ++ paddedDigits 2 m.day

/-- The date as month, day and the last two digits of the year. -/
def dateSlashed (m : Moment) : List Char :=
  paddedDigits 2 m.month ++ '/' :: paddedDigits 2 m.day ++ '/' :: paddedDigits 2 (m.year % 100).toNat

/-- The time as hours and minutes. -/
def timeOfDay (m : Moment) : List Char := paddedDigits 2 m.hour ++ ':' :: paddedDigits 2 m.minute

end Moment

end AssemblerIndex
