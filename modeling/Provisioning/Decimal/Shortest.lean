import Provisioning.Decimal.Binary64

/-!
# Shortest decimal numbers

A floating point number is written with the fewest decimal digits that read back as the same
number; of several such decimals the nearest one is taken. The layout is positional, however large
or small the number is.
-/

namespace Provisioning.Binary64

/-- The denominator of magnitudes: they are counted in units of `2 ^ (-1074)`, and in quarters of
a unit where the bounds between neighbours are concerned. -/
def quarterUnits : Nat := twoTo 1076

/-- The decimals that read back as the number lie between these bounds, in quarters of a unit; the
flag says whether the bounds themselves do. -/
def bounds (x : Binary64) : Nat × Nat × Bool :=
  let value := 4 * x.units
  let gap := 2 * twoTo x.scale
  let gapBelow := if x.fractionField = 0 ∧ 1 < x.exponentField then gap / 2 else gap
  (value - gapBelow, value + gap, x.significand % 2 == 0)

/-- Compares `digits * 10 ^ power` with a number of quarters of a unit. -/
def compareDecimal (digits : Nat) (power : Int) (quarters : Nat) : Ordering :=
  if 0 ≤ power then
    compare (digits * tenTo power.toNat * quarterUnits) quarters
  else
    compare (digits * quarterUnits) (quarters * tenTo (-power).toNat)

/-- Whether the decimal `digits * 10 ^ power` reads back as the magnitude of the number. -/
def readsBack (x : Binary64) (digits : Nat) (power : Int) : Bool :=
  let (low, high, closed) := x.bounds
  match compareDecimal digits power low, compareDecimal digits power high with
  | .gt, .lt => true
  | .eq, _ => closed
  | _, .eq => closed
  | _, _ => false

/-- The largest whole number of `10 ^ power` that is not above the magnitude. -/
def floorAt (x : Binary64) (power : Int) : Nat :=
  if 0 ≤ power then
    4 * x.units / (quarterUnits * tenTo power.toNat)
  else
    4 * x.units * tenTo (-power).toNat / quarterUnits

/-- Whether the magnitude is nearer to `(digits + 1) * 10 ^ power` than to `digits * 10 ^ power`,
or right between them. -/
def nearerAbove (x : Binary64) (digits : Nat) (power : Int) : Bool :=
  compareDecimal (2 * digits + 1) power (8 * x.units) != .gt

/-- The decimal of a power that reads back, if there is one; of two the nearer one. -/
def decimalAt? (x : Binary64) (power : Int) : Option (Nat × Int) :=
  let below := x.floorAt power
  match x.readsBack below power, x.readsBack (below + 1) power with
  | true, true => if x.nearerAbove below power then some (below + 1, power) else some (below, power)
  | true, false => some (below, power)
  | false, true => some (below + 1, power)
  | false, false => none

/-- The exponent of the first power of ten above the magnitude, counted from `-323`. -/
def leadingStep (x : Binary64) : Nat :=
  ((List.range 633).find? fun n => x.floorAt (Int.ofNat n - 323) == 0).getD 633

/-- The shortest decimal of a finite number other than zero, as a whole number and the power of
ten it is multiplied by. -/
def shortest (x : Binary64) : Nat × Int :=
  let step := x.leadingStep
  ((List.range 18).findSome? fun n => x.decimalAt? (Int.ofNat step - 323 - Int.ofNat n)).getD (0, 0)

/-- A decimal in positional layout, with at least one digit on both sides of the point. -/
def positional (digits : Nat) (power : Int) : String :=
  if 0 ≤ power then
    toString (digits * tenTo power.toNat) ++ ".0"
  else
    let places := (-power).toNat
    let fraction := Nat.toDigits 10 (digits % tenTo places)
    toString (digits / tenTo places) ++ "."
      ++ String.ofList (List.replicate (places - fraction.length) '0' ++ fraction)

/-- The number as it is written: the shortest decimal in positional layout. -/
def text (x : Binary64) : String :=
  if x.isFinite then
    let sign := if x.isNegative then "-" else ""
    if x.units = 0 then
      sign ++ "0.0"
    else
      sign ++ positional x.shortest.1 x.shortest.2
  else if x.fractionField ≠ 0 then
    "NaN"
  else if x.isNegative then
    "-inf"
  else
    "inf"

end Provisioning.Binary64
