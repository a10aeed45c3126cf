import Provisioning.Text.Number

/-!
# Semantic versions

A version has a major, a minor and a patch number, and optionally pre-release and build
identifiers. A pre-release comes before its release; identifiers are compared from the left, a
number before a word, and a list that ends first comes first.
-/

namespace Provisioning

/-- One of the dot-separated identifiers of a pre-release or a build. -/
inductive Identifier where
  /-- Digits only: the number they denote, and the zeros written in front of it. -/
  | numeric (zeros value : Nat)
  /-- At least one letter or hyphen. -/
  | alphanumeric (text : String)
deriving DecidableEq, Repr

namespace Identifier

/-- The identifier written with the given characters. -/
def ofChars (cs : List Char) : Identifier :=
  if cs.all Char.isDigit then
    let value := Text.numberOf cs
    .numeric (cs.length - (Nat.toDigits 10 value).length) value
  else
    .alphanumeric (String.ofList cs)

/-- The identifier as it was written. -/
def text : Identifier → String
  | numeric zeros value => String.ofList (List.replicate zeros '0') ++ toString value
  | alphanumeric text => text

/-- Numbers come before words and in the order of their values; of two spellings of a number the
shorter one comes first. Words are in the order of their characters. -/
protected def compare : Identifier → Identifier → Ordering
  | numeric zeros₁ value₁, numeric zeros₂ value₂ =>
    (Ord.compare value₁ value₂).then (Ord.compare zeros₁ zeros₂)
  | numeric _ _, alphanumeric _ => .lt
  | alphanumeric _, numeric _ _ => .gt
  | alphanumeric text₁, alphanumeric text₂ => Ord.compare text₁ text₂

instance : Ord Identifier := ⟨Identifier.compare⟩

/-- The identifiers of a pre-release or a build as they were written. -/
def joined (identifiers : List Identifier) : String := ".".intercalate (identifiers.map text)

/-- From the left; of two lists that agree as far as they go the shorter one comes first. -/
def compareLists : List Identifier → List Identifier → Ordering
  | [], [] => .eq
  | [], _ :: _ => .lt
  | _ :: _, [] => .gt
  | a :: as, b :: bs => (a.compare b).then (compareLists as bs)

/-- Like lists of identifiers, but no identifiers at all come last: a release follows all of its
pre-releases. -/
def comparePre : List Identifier → List Identifier → Ordering
  | [], [] => .eq
  | [], _ :: _ => .gt
  | _ :: _, [] => .lt
  | a :: as, b :: bs => compareLists (a :: as) (b :: bs)

end Identifier

/-- A semantic version. -/
structure Version where
  /-- The first number. -/
  major : Nat
  /-- The second number. -/
  minor : Nat
  /-- The third number. -/
  patch : Nat
  /-- The pre-release identifiers; a release has none. -/
  pre : List Identifier := []
  /-- The build identifiers. -/
  build : List Identifier := []
deriving DecidableEq, Repr

namespace Version

/-- Numbers first, then the pre-release, then the build. -/
protected def compare (a b : Version) : Ordering :=
  (Ord.compare a.major b.major).then <| (Ord.compare a.minor b.minor).then <|
    (Ord.compare a.patch b.patch).then <| (Identifier.comparePre a.pre b.pre).then <|
      Identifier.compareLists a.build b.build

instance : Ord Version := ⟨Version.compare⟩

/-- Whether a version comes strictly before another one. -/
def before (a b : Version) : Bool := a.compare b == .lt

/-- The version without pre-release and build. -/
def release (v : Version) : Version := { major := v.major, minor := v.minor, patch := v.patch }

/-- The version as it is written. -/
def text (v : Version) : String :=
  s!"{v.major}.{v.minor}.{v.patch}"
    ++ (if v.pre.isEmpty then "" else "-" ++ Identifier.joined v.pre)
    ++ (if v.build.isEmpty then "" else "+" ++ Identifier.joined v.build)

end Version

end Provisioning
