import Provisioning.Text.Blank
import Provisioning.Text.DecimalDigit

/-!
# Identifiers

Applications and modules are identified by a name and a version with a hyphen between them. An
identifier is cut at its first hyphen, other than its first character, that three numbers follow:
decimal digits of any script with a dot between each two groups. Blanks around an identifier are of
no account, and a line feed inside it makes it unreadable.
-/

namespace Provisioning

/-- A name with a version. -/
structure VersionedName where
  /-- What stays the same from one version to the next. -/
  name : String
  /-- The text of the version. -/
  version : String
deriving DecidableEq, Repr

namespace VersionedName

/-- The identifier of a name and a version. -/
def id (v : VersionedName) : String := v.name ++ "-" ++ v.version

/-- What follows a row of at least one decimal digit. -/
def afterDigits? : List Char → Option (List Char)
  | [] => none
  | c :: cs => if Text.isDecimalDigit c then some (cs.dropWhile Text.isDecimalDigit) else none

/-- Whether a text starts with three numbers between dots. -/
def startsVersion (cs : List Char) : Bool :=
  match afterDigits? cs with
  | some ('.' :: cs) =>
    match afterDigits? cs with
    | some ('.' :: c :: _) => Text.isDecimalDigit c
    | _ => false
  | _ => false

/-- What stands before and after the first hyphen that a version follows. -/
def cut? : List Char → Option (List Char × List Char)
  | [] => none
  | c :: cs =>
    if c = '-' ∧ startsVersion cs then
      some ([], cs)
    else
      (cut? cs).map fun (name, version) => (c :: name, version)

/-- Cuts the characters of an identifier, which have to form a single line and a name of at least
one character. -/
def splitChars? (cs : List Char) : Option (List Char × List Char) :=
  match cs with
  | [] => none
  | c :: cs =>
    if '\n' ∈ c :: cs then
      none
    else
      (cut? cs).map fun (name, version) => (c :: name, version)

/-- Reads an identifier. -/
def read? (id : String) : Option VersionedName :=
  (splitChars? (Text.trimChars id.toList)).map fun (name, version) =>
    { name := String.ofList name, version := String.ofList version }

end VersionedName

end Provisioning
