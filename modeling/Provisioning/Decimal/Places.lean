/-!
# Decimal numbers with a fixed number of places
-/

namespace Provisioning.Decimal

/-- The quotient rounded to the nearest whole number, a half to the even one. -/
def roundQuotient (numerator denominator : Nat) : Nat :=
  let below := numerator / denominator
  let rest := 2 * (numerator % denominator)
  if rest < denominator ∨ (rest = denominator ∧ below % 2 = 0) then below else below + 1

/-- A number of tenths with one place after the point. -/
def tenths (n : Nat) : String := s!"{n / 10}.{n % 10}"

end Provisioning.Decimal
