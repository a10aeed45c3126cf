import Provisioning.Power

/-!
# Binary floating point numbers

A number is kept as its 64 bits: equality is equality of bits, so `-0.0` and `0.0` differ and a
not-a-number equals itself. Arithmetic goes through `Float`.
-/

namespace Provisioning

/-- The 64 bits of a floating point number. -/
structure Binary64 where
  /-- Sign, exponent and fraction, from the highest bit down. -/
  bits : UInt64
deriving DecidableEq, Repr

namespace Binary64

/-- The bits of a number. -/
def ofFloat (x : Float) : Binary64 := ⟨x.toBits⟩

/-- The number of the bits. -/
def toFloat (x : Binary64) : Float := Float.ofBits x.bits

/-- Whether the sign bit is set. -/
def isNegative (x : Binary64) : Bool := x.bits >>> 63 == 1

/-- The exponent field. -/
def exponentField (x : Binary64) : Nat := ((x.bits >>> 52) &&& 0x7FF).toNat

/-- The fraction field. -/
def fractionField (x : Binary64) : Nat := (x.bits &&& 0xFFFFFFFFFFFFF).toNat

/-- Whether the bits stand for a number, and not for an infinity or a not-a-number. -/
def isFinite (x : Binary64) : Bool := x.exponentField != 0x7FF

/-- The significand of a finite number: its magnitude is `significand * 2 ^ (scale - 1074)`. -/
def significand (x : Binary64) : Nat :=
  if x.exponentField = 0 then x.fractionField else twoTo 52 + x.fractionField

/-- The exponent of a finite number relative to the smallest one. -/
def scale (x : Binary64) : Nat := x.exponentField - 1

/-- The magnitude of a finite number in units of `2 ^ (-1074)`. -/
def units (x : Binary64) : Nat := x.significand * twoTo x.scale

end Binary64

end Provisioning
