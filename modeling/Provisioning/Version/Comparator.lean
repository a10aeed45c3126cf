import Provisioning.Version.Grammar

/-!
# Comparators

A comparator is an operator with a version of which the minor and patch numbers may be left out.
Left-out numbers leave the comparison open: `~1.2` accepts every patch of `1.2`.
-/

namespace Provisioning

/-- The operator of a comparator. -/
inductive Operator where
  /-- The parts given are those of the version. -/
  | exact
  /-- The version comes after the comparator. -/
  | greater
  /-- The version is the comparator or comes after it. -/
  | greaterEq
  /-- The version comes before the comparator. -/
  | less
  /-- The version is the comparator or comes before it. -/
  | lessEq
  /-- Only the patch may have grown. -/
  | tilde
  /-- Only what comes after the first number that is not zero may have grown. -/
  | caret
deriving DecidableEq, Repr

/-- An operator with the version that it compares to. -/
structure Comparator where
  /-- How to compare. -/
  op : Operator
  /-- The major number. -/
  major : Nat
  /-- The minor number, if it is given. -/
  minor : Option Nat := none
  /-- The patch number, if it is given. -/
  patch : Option Nat := none
  /-- The pre-release identifiers. -/
  pre : List Identifier := []
deriving DecidableEq, Repr

namespace Comparator

/-- Whether the parts given are those of the version, and the pre-releases agree. -/
def matchesExact (c : Comparator) (v : Version) : Bool :=
  v.major == c.major && c.minor.all (v.minor == ·) && c.patch.all (v.patch == ·) && v.pre == c.pre

/-- The order of a version relative to the comparator; nothing when the parts given agree and a
part is left out. -/
def order? (c : Comparator) (v : Version) : Option Ordering :=
  if v.major ≠ c.major then
    some (compare v.major c.major)
  else
    match c.minor with
    | none => none
    | some minor =>
      if v.minor ≠ minor then
        some (compare v.minor minor)
      else
        match c.patch with
        | none => none
        | some patch =>
          if v.patch ≠ patch then
            some (compare v.patch patch)
          else
            some (Identifier.comparePre v.pre c.pre)

/-- Whether the pre-release of the version does not come before that of the comparator. -/
def preReached (c : Comparator) (v : Version) : Bool := Identifier.comparePre v.pre c.pre != .lt

/-- Same major and minor number, and the patch not before that of the comparator. -/
def matchesTilde (c : Comparator) (v : Version) : Bool :=
  v.major == c.major && c.minor.all (v.minor == ·) &&
    match c.patch with
    | none => c.preReached v
    | some patch => if v.patch = patch then c.preReached v else patch < v.patch

/-- No change up to the first number that is not zero, and what follows it not before that of the
comparator. -/
def matchesCaret (c : Comparator) (v : Version) : Bool :=
  v.major == c.major &&
    match c.minor, c.patch with
    | none, _ => true
    | some minor, none => if 0 < c.major then minor ≤ v.minor else v.minor == minor
    | some minor, some patch =>
      if v.minor = minor ∧ v.patch = patch then
        c.preReached v
      else if 0 < c.major then
        if v.minor = minor then patch < v.patch else minor < v.minor
      else if 0 < minor then
        v.minor == minor && patch < v.patch
      else
        false

/-- Whether the version satisfies the comparator, pre-releases taken like any other version. -/
def accepts (c : Comparator) (v : Version) : Bool :=
  match c.op with
  | .exact => c.matchesExact v
  | .greater => c.order? v == some .gt
  | .greaterEq => c.matchesExact v || c.order? v == some .gt
  | .less => c.order? v == some .lt
  | .lessEq => c.matchesExact v || c.order? v == some .lt
  | .tilde => c.matchesTilde v
  | .caret => c.matchesCaret v

/-- Whether the comparator is a pre-release of the same three numbers. -/
def admitsPre (c : Comparator) (v : Version) : Bool :=
  c.major == v.major && c.minor == some v.minor && c.patch == some v.patch && !c.pre.isEmpty

end Comparator

/-- A requirement: comparators that all have to be satisfied. -/
abbrev Requirement := List Comparator

/-- Whether the version satisfies the requirement. A pre-release does so only when one of the
comparators names a pre-release of the same three numbers. -/
def Requirement.accepts (requirement : Requirement) (v : Version) : Bool :=
  requirement.all (·.accepts v) && (v.pre.isEmpty || requirement.any (·.admitsPre v))

namespace VersionGrammar

/-- The text without the spaces at its start. -/
def skipSpaces (cs : List Char) : List Char := cs.dropWhile (· = ' ')

/-- Reads an operator, if one stands there. -/
def operator : List Char → Option Operator × List Char
  | '=' :: cs => (some .exact, cs)
  | '>' :: '=' :: cs => (some .greaterEq, cs)
  | '>' :: cs => (some .greater, cs)
  | '<' :: '=' :: cs => (some .lessEq, cs)
  | '<' :: cs => (some .less, cs)
  | '~' :: cs => (some .tilde, cs)
  | '^' :: cs => (some .caret, cs)
  | cs => (none, cs)

/-- The wildcard at the start of a text, and what follows it. -/
def wildcard? : List Char → Option (Char × List Char)
  | '*' :: cs => some ('*', cs)
  | 'x' :: cs => some ('x', cs)
  | 'X' :: cs => some ('X', cs)
  | _ => none

/-- A number of a comparator after the major one. -/
inductive Place where
  /-- It is left out. -/
  | absent
  /-- A wildcard stands in its place. -/
  | wildcard
  /-- The number is given. -/
  | given (n : Nat)
deriving DecidableEq, Repr

/-- The number at the place, if one is given. -/
def Place.number? : Place → Option Nat
  | given n => some n
  | _ => none

/-- Reads a dot with a number or a wildcard behind it, if a dot stands there. After a wildcard no
number may follow. -/
def place (part : VersionPart) (afterWildcard : Bool) (cs : List Char) :
    Except VersionFault (Place × List Char) :=
  match cs with
  | '.' :: cs =>
    match wildcard? cs with
    | some (_, rest) => .ok (.wildcard, rest)
    | none =>
      if afterWildcard then
        .error .afterWildcard
      else
        (number part cs).map fun (n, rest) => (.given n, rest)
  | cs => .ok (.absent, cs)

/-- Reads the identifiers behind a sign, if the sign stands there after a complete number. -/
def identifiersAfterPatch (part : VersionPart) (sign : Char) (patch : Place) (cs : List Char) :
    Except VersionFault (Option (List Identifier) × List Char) :=
  if patch.number?.isSome then optionalIdentifiers part sign cs else .ok (none, cs)

/-- Reads a comparator; gives it with the last part read and what follows. A wildcard makes a
comparator without an operator exact, which otherwise is a caret. -/
def comparator (cs : List Char) :
    Except VersionFault (Comparator × VersionPart × List Char) := do
  let (op, cs) := operator cs
  let (major, cs) ← number .major (skipSpaces cs)
  let (minor, cs) ← place .minor false cs
  let (patch, cs) ← place .patch (minor = .wildcard) cs
  let (pre, cs) ← identifiersAfterPatch .pre '-' patch cs
  let (build, cs) ← identifiersAfterPatch .build '+' patch cs
  let last : VersionPart :=
    if build.isSome then .build
    else if pre.isSome then .pre
    else if patch ≠ .absent then .patch
    else if minor ≠ .absent then .minor
    else .major
  let implicit : Operator := if minor = .wildcard ∨ patch = .wildcard then .exact else .caret
  let read : Comparator :=
    { op := op.getD implicit, major, minor := minor.number?, patch := patch.number?
      pre := pre.getD [] }
  return (read, last, skipSpaces cs)

/-- The fault of a comparator: a wildcard on its own is told apart from other faults. -/
def comparatorFault (cs : List Char) (fault : VersionFault) : VersionFault :=
  match wildcard? cs with
  | some (c, rest) =>
    match skipSpaces rest with
    | [] | ',' :: _ => .wildcardNotAlone c
    | _ => fault
  | none => fault

/-- Reads comparators with commas between them, at most as many as allowed. -/
def comparators : Nat → List Char → Except VersionFault Requirement
  | 0, _ => .error .tooManyComparators
  | more + 1, cs =>
    match comparator cs with
    | .error fault => .error (comparatorFault cs fault)
    | .ok (read, _, []) => .ok [read]
    | .ok (read, _, ',' :: rest) => (comparators more (skipSpaces rest)).map (read :: ·)
    | .ok (_, last, c :: _) => .error (.expectedComma last c)

/-- The largest number of comparators in a requirement. -/
def maxComparators : Nat := 32

/-- Reads a requirement: a lone wildcard, which is no restriction, or comparators. -/
def requirement (cs : List Char) : Except VersionFault Requirement :=
  let cs := skipSpaces cs
  match wildcard? cs with
  | some (c, rest) =>
    match skipSpaces rest with
    | [] => .ok []
    | ',' :: _ => .error (.wildcardNotAlone c)
    | _ => .error .afterWildcard
  | none => comparators maxComparators cs

end VersionGrammar

end Provisioning
