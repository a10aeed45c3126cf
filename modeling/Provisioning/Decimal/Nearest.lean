import Provisioning.Decimal.Binary64
import Provisioning.Decimal.Places

/-!
# The nearest floating point number

A fraction is rounded to the nearest floating point number, and a half to the one with an even
significand.
-/

namespace Provisioning.Binary64

/-- The bits of infinity. -/
def infinityBits : Nat := 0x7FF * twoTo 52

/-- The exponent, relative to the smallest one, that leaves 53 bits before the point of a positive
fraction, or fewer when there is no smaller exponent. -/
def scaleOf (numerator denominator : Nat) : Nat :=
  let estimate := numerator.log2 + 1074 - (denominator.log2 + 52)
  if numerator * twoTo 1074 < denominator * twoTo (estimate + 52) then estimate - 1 else estimate

/-- The floating point number nearest to a fraction. Fractions that are too large are infinite, and
so is everything over zero. -/
def nearest (numerator denominator : Nat) : Binary64 :=
  if numerator = 0 then
    ⟨0⟩
  else
    let scale := scaleOf numerator denominator
    let significand := Decimal.roundQuotient (numerator * twoTo 1074) (denominator * twoTo scale)
    ⟨UInt64.ofNat (min infinityBits (scale * twoTo 52 + significand))⟩

/-- The number with the other sign. -/
def negate (x : Binary64) : Binary64 := ⟨x.bits ^^^ 0x8000000000000000⟩

/-- The not-a-number without a sign. -/
def notANumber : Binary64 := ⟨0x7FF8000000000000⟩

/-- Infinity. -/
def infinity : Binary64 := ⟨0x7FF0000000000000⟩

end Provisioning.Binary64
