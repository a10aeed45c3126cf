import Provisioning.Data.Basic
import Provisioning.Text.Number

/-!
# Numbers of JSON texts

A number without fraction and exponent that fits 64 bits is a whole number; any other one is the
floating point number that results from its leading digits, as many as fit 64 bits, multiplied or
divided by one power of ten.
-/

namespace Provisioning.JsonNumber

/-- A number as it is written. -/
structure Written where
  /-- Whether a minus sign stands in front. -/
  negative : Bool
  /-- The digits before the point. -/
  whole : List Char
  /-- The digits after the point, if there is a point. -/
  fraction : Option (List Char)
  /-- The sign (negative or not) and the digits of the exponent, if there is one. -/
  exponent : Option (Bool × List Char)

/-- A row of digits at the start of a text, at least one, and what follows. -/
def digits? (cs : List Char) : Option (List Char × List Char) :=
  match cs.takeWhile Char.isDigit with
  | [] => none
  | digits => some (digits, cs.dropWhile Char.isDigit)

/-- The exponent at the start of a text, if there is one, and what follows. -/
def exponent? : List Char → Option (Option (Bool × List Char) × List Char)
  | c :: cs =>
    if c = 'e' ∨ c = 'E' then
      match cs with
      | '-' :: cs => (digits? cs).map fun (digits, rest) => (some (true, digits), rest)
      | '+' :: cs => (digits? cs).map fun (digits, rest) => (some (false, digits), rest)
      | cs => (digits? cs).map fun (digits, rest) => (some (false, digits), rest)
    else
      some (none, c :: cs)
  | [] => some (none, [])

/-- The fraction at the start of a text, if there is one, and what follows. -/
def fraction? : List Char → Option (Option (List Char) × List Char)
  | '.' :: cs => (digits? cs).map fun (digits, rest) => (some digits, rest)
  | cs => some (none, cs)

/-- The parts of a number: a whole number has no superfluous zero in front, and a point and an
exponent sign are followed by digits. -/
def Written.ofChars? (cs : List Char) : Option Written := do
  let (negative, cs) := match cs with
    | '-' :: cs => (true, cs)
    | cs => (false, cs)
  let (whole, cs) ← digits? cs
  if whole.head? = some '0' ∧ whole.length ≠ 1 then
    none
  let (fraction, cs) ← fraction? cs
  let (exponent, cs) ← exponent? cs
  if cs.isEmpty then some { negative, whole, fraction, exponent } else none

/-- The leading digits as far as their number fits 64 bits, and the digits left over. -/
def leading (value : Nat) : List Char → Nat × List Char
  | [] => (value, [])
  | c :: cs =>
    let next := 10 * value + (c.toNat - '0'.toNat)
    if next ≤ Text.maxUInt64 then leading next cs else (value, c :: cs)

/-- The power of ten as a floating point number. -/
def power (n : Nat) : Float := Float.ofScientific 1 false n

/-- Divides by a power of ten, in steps of at most `10 ^ 308`. -/
def divide : Nat → Float → Nat → Float
  | 0, x, n => x / power n
  | steps + 1, x, n =>
    if n ≤ 308 then x / power n
    else if x == 0 then x
    else divide steps (x / power 308) (n - 308)

/-- A whole number times a power of ten, unless it is beyond all floating point numbers. -/
def scaled? (significand : Nat) (exponent : Int) : Option Float :=
  let x := Float.ofNat significand
  if exponent < 0 then
    some (divide ((-exponent).toNat / 308 + 1) x (-exponent).toNat)
  else if exponent ≤ 308 then
    let y := x * power exponent.toNat
    if y.isInf then none else some y
  else if significand = 0 then
    some x
  else
    none

/-- The largest exponent that is read for its value. -/
def maxExponent : Nat := twoTo 31 - 1

/-- The magnitude of a number as a floating point number. -/
def Written.magnitude? (w : Written) : Option Float :=
  let (significand, beyond) := leading 0 w.whole
  let (significand, places) := match w.fraction with
    | none => (significand, 0)
    | some fraction =>
      let (more, ignored) := leading significand fraction
      (more, fraction.length - ignored.length)
  let exponent : Int := Int.ofNat beyond.length - Int.ofNat places
  match w.exponent with
  | none => scaled? significand exponent
  | some (below, digits) =>
    let n := Text.numberOf digits
    if n ≤ maxExponent then
      scaled? significand (if below then exponent - n else exponent + n)
    else if below ∨ significand = 0 then
      some 0
    else
      none

/-- The value of a number. -/
def Written.value (w : Written) : Data :=
  let n := Text.numberOf w.whole
  if w.fraction = none ∧ w.exponent = none ∧ !w.negative ∧ n ≤ Text.maxUInt64 then
    .int n
  else if w.fraction = none ∧ w.exponent = none ∧ w.negative ∧ 0 < n ∧ n ≤ twoTo 63 then
    .int (-n)
  else
    match w.magnitude? with
    | some x => .float (.ofFloat (if w.negative then -x else x))
    | none => .unreadable

end Provisioning.JsonNumber
