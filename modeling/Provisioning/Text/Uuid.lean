import Provisioning.Text.Number
import Provisioning.Text.Split

/-!
# Random identifiers

An identifier of 128 bits is written in five groups of hexadecimal digits. Six of its bits say that
it is random; the other 122 are free.
-/

namespace Provisioning.Uuid

/-- The number of identifiers. -/
def count : Nat := twoTo 122

/-- Some bits of a number, from a position on, in hexadecimal digits. -/
def group (n position digits : Nat) : String :=
  String.ofList (Text.paddedDigits 16 digits (n / twoTo position % twoTo (4 * digits)))

/-- The identifier with the given free bits. -/
def text (n : Nat) : String :=
  let variant := String.ofList (Nat.toDigits 16 (8 + n / twoTo 60 % 4))
  Text.join "-" [group n 90 8, group n 74 4, "4" ++ group n 62 3, variant ++ group n 48 3,
    group n 0 12]

end Provisioning.Uuid
