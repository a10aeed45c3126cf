import Provisioning.Text.Blank
import Provisioning.Text.Quoted
import Provisioning.Text.Split
import Provisioning.Version.Basic

/-!
# Reading versions

A version is written `N.N.N`, then optionally `-` and pre-release identifiers, then optionally `+`
and build identifiers. A number is at most `2 ^ 64 - 1` and has no superfluous zero in front; an
identifier consists of ASCII letters, digits and hyphens. Comparators of version ranges
(`Provisioning.Version.Comparator`) share the rules for numbers and identifiers.
-/

namespace Provisioning

/-- The part of a version at which reading stopped. -/
inductive VersionPart where
  /-- The first number. -/
  | major
  /-- The second number. -/
  | minor
  /-- The third number. -/
  | patch
  /-- The identifiers after the hyphen. -/
  | pre
  /-- The identifiers after the plus sign. -/
  | build
deriving DecidableEq, Repr

/-- What messages call the part. -/
def VersionPart.description : VersionPart → String
  | major => "major version number"
  | minor => "minor version number"
  | patch => "patch version number"
  | pre => "pre-release identifier"
  | build => "build metadata"

/-- Why a text is no version or no version requirement. -/
inductive VersionFault where
  /-- The text is empty. -/
  | empty
  /-- The text ends where the part should go on. -/
  | unexpectedEnd (part : VersionPart)
  /-- The part does not start with this character. -/
  | unexpectedChar (c : Char) (part : VersionPart)
  /-- The part is not followed by this character. -/
  | unexpectedCharAfter (c : Char) (part : VersionPart)
  /-- Between comparators stands a comma, and not this character. -/
  | expectedComma (part : VersionPart) (c : Char)
  /-- A number starts with a superfluous zero. -/
  | leadingZero (part : VersionPart)
  /-- A number is too large. -/
  | overflow (part : VersionPart)
  /-- An identifier is empty. -/
  | emptySegment (part : VersionPart)
  /-- A requirement holds a lone wildcard beside other comparators. -/
  | wildcardNotAlone (c : Char)
  /-- Something follows a wildcard that a wildcard ends. -/
  | afterWildcard
  /-- A requirement has more than 32 comparators. -/
  | tooManyComparators
deriving DecidableEq, Repr

/-- The message of a fault. -/
def VersionFault.message : VersionFault → String
  | empty => "empty string, expected a semver version"
  | unexpectedEnd part => s!"unexpected end of input while parsing {part.description}"
  | unexpectedChar c part =>
    s!"unexpected character {Text.quotedChar c} while parsing {part.description}"
  | unexpectedCharAfter c part =>
    s!"unexpected character {Text.quotedChar c} after {part.description}"
  | expectedComma part c =>
    s!"expected comma after {part.description}, found {Text.quotedChar c}"
  | leadingZero part => s!"invalid leading zero in {part.description}"
  | overflow part => s!"value of {part.description} exceeds u64::MAX"
  | emptySegment part => s!"empty identifier segment in {part.description}"
  | wildcardNotAlone c =>
    s!"wildcard req ({c}) must be the only comparator in the version req"
  | afterWildcard => "unexpected character after wildcard in version req"
  | tooManyComparators => "excessive number of version comparators"

namespace VersionGrammar

/-- Reads a number and gives it with what follows. -/
def number (part : VersionPart) (cs : List Char) : Except VersionFault (Nat × List Char) :=
  match cs.takeWhile Char.isDigit with
  | [] =>
    match cs with
    | [] => .error (.unexpectedEnd part)
    | c :: _ => .error (.unexpectedChar c part)
  | '0' :: _ :: _ => .error (.leadingZero part)
  | digits =>
    if Text.numberOf digits ≤ Text.maxUInt64 then
      .ok (Text.numberOf digits, cs.dropWhile Char.isDigit)
    else
      .error (.overflow part)

/-- Reads the dot after a number. -/
def dot (part : VersionPart) : List Char → Except VersionFault (List Char)
  | '.' :: cs => .ok cs
  | c :: _ => .error (.unexpectedCharAfter c part)
  | [] => .error (.unexpectedEnd part)

/-- Whether the character may stand in an identifier. -/
def isIdentifierChar (c : Char) : Bool := c.isAlphanum || c == '-'

/-- One identifier from its characters. A number of a pre-release has no superfluous zero. -/
def identifier (part : VersionPart) (cs : List Char) : Except VersionFault Identifier :=
  if cs.isEmpty then
    .error (.emptySegment part)
  else if part = .pre && cs.all Char.isDigit && 1 < cs.length && cs.head? = some '0' then
    .error (.leadingZero part)
  else
    .ok (Identifier.ofChars cs)

/-- Reads dot-separated identifiers and gives them with what follows. -/
def identifiers (part : VersionPart) (cs : List Char) :
    Except VersionFault (List Identifier × List Char) := do
  let written := cs.takeWhile fun c => isIdentifierChar c || c == '.'
  let read ← (Text.splitChars '.' written).mapM (identifier part)
  return (read, cs.drop written.length)

/-- Reads the identifiers behind a sign, if the sign stands there. -/
def optionalIdentifiers (part : VersionPart) (sign : Char) (cs : List Char) :
    Except VersionFault (Option (List Identifier) × List Char) :=
  match cs with
  | [] => .ok (none, [])
  | c :: rest =>
    if c = sign then
      (identifiers part rest).map fun (read, rest) => (some read, rest)
    else
      .ok (none, cs)

/-- Reads a whole version. -/
def version (cs : List Char) : Except VersionFault Version := do
  if cs.isEmpty then
    throw .empty
  let (major, cs) ← number .major cs
  let cs ← dot .major cs
  let (minor, cs) ← number .minor cs
  let cs ← dot .minor cs
  let (patch, cs) ← number .patch cs
  let (pre, cs) ← optionalIdentifiers .pre '-' cs
  let (build, cs) ← optionalIdentifiers .build '+' cs
  match cs with
  | [] => return { major, minor, patch, pre := pre.getD [], build := build.getD [] }
  | c :: _ =>
    let last : VersionPart :=
      if build.isSome then .build else if pre.isSome then .pre else .patch
    throw (.unexpectedCharAfter c last)

end VersionGrammar

/-- Reads a version, without regard to the blanks around it. -/
def Version.read (s : String) : Except VersionFault Version :=
  VersionGrammar.version (Text.trimChars s.toList)

end Provisioning
