import Provisioning.Power

/-!
# Numbers written in ASCII digits

Numbers are read in decimal digits, and written in any base with as many digits as a column needs.
-/

namespace Provisioning.Text

/-- The value of a row of ASCII digits. -/
def numberOf (digits : List Char) : Nat :=
  digits.foldl (fun n c => 10 * n + (c.toNat - '0'.toNat)) 0

/-- The number that the digits write, if there are any and nothing else, and it is at most the
limit. -/
def boundedNumber? (limit : Nat) (digits : List Char) : Option Nat :=
  if digits ≠ [] ∧ digits.all Char.isDigit ∧ numberOf digits ≤ limit then
    some (numberOf digits)
  else
    none

/-- Like `boundedNumber?`, and a plus sign may stand in front. -/
def boundedNumberWithSign? (limit : Nat) : List Char → Option Nat
  | '+' :: digits => boundedNumber? limit digits
  | digits => boundedNumber? limit digits

/-- The digits of a number in a base, with zeros in front, so that there are at least so many. -/
def paddedDigits (base width n : Nat) : List Char :=
  let digits := Nat.toDigits base n
  List.replicate (width - digits.length) '0' ++ digits

/-- The largest number of 64 bits. -/
def maxUInt64 : Nat := twoTo 64 - 1

/-- The largest number of 32 bits. -/
def maxUInt32 : Nat := twoTo 32 - 1

end Provisioning.Text
