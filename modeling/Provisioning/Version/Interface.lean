import Provisioning.Text.Blank
import Provisioning.Text.Number
import Provisioning.Text.Split

/-!
# Interface versions

Modules provide and require interfaces in versions such as `1.2` or `3.0.1`. A requirement may list
several versions between blanks, any of which will do.
-/

namespace Provisioning

/-- The version of an interface. -/
structure InterfaceVersion where
  /-- Versions of different major numbers are incompatible. -/
  major : Nat
  /-- Grows with additions. -/
  minor : Nat
  /-- Grows with corrections. -/
  patch : Nat
deriving DecidableEq, Repr

namespace InterfaceVersion

/-- The order of the numbers, from the left. -/
protected def compare (a b : InterfaceVersion) : Ordering :=
  (Ord.compare a.major b.major).then <| (Ord.compare a.minor b.minor).then <|
    Ord.compare a.patch b.patch

instance : Ord InterfaceVersion := ⟨InterfaceVersion.compare⟩

/-- Reads two or three numbers between dots, without regard to the blanks around them. -/
def read? (s : String) : Option InterfaceVersion := do
  let numbers ← (Text.splitChars '.' (Text.trimChars s.toList)).mapM
    (Text.boundedNumberWithSign? Text.maxUInt64)
  match numbers with
  | [major, minor] => some { major, minor, patch := 0 }
  | [major, minor, patch] => some { major, minor, patch }
  | _ => none

/-- A version as it is written: a patch number of zero is left out. -/
def text (v : InterfaceVersion) : String :=
  if v.patch = 0 then s!"{v.major}.{v.minor}" else s!"{v.major}.{v.minor}.{v.patch}"

/-- Whether a provided version satisfies a required one: the major numbers agree, and minor and
patch number are not behind. -/
def satisfies (provided required : InterfaceVersion) : Bool :=
  provided.major == required.major &&
    (required.minor < provided.minor ||
      (provided.minor == required.minor && required.patch ≤ provided.patch))

/-- Whether a provided version satisfies one of the required ones. Texts that are no versions
satisfy nothing and are satisfied by nothing. -/
def compatible (required provided : String) : Bool :=
  match read? provided with
  | none => false
  | some v => ((Text.words required).filterMap read?).any v.satisfies

end InterfaceVersion

end Provisioning
