import Provisioning.Version.Comparator

/-!
# Version ranges

A range is a text such as `>=1.0.0 <2.0.0 || ^3.1`: alternatives between double bars, each a row of
comparators between blanks that all have to be satisfied. An alternative that is empty, or the word
`latest`, accepts every release. An operator may stand apart from its version.
-/

namespace Provisioning

/-- A range of versions, as written and as read. -/
structure VersionRange where
  /-- The text of the range, without the blanks around it. -/
  text : String
  /-- The requirements of which one has to be satisfied. -/
  alternatives : List Requirement
deriving DecidableEq, Repr

namespace VersionRange

/-- Whether the character belongs to operators. -/
def isOperatorChar (c : Char) : Bool := c ∈ ['<', '>', '=', '^', '~']

/-- The word without the commas at its end. -/
def dropTrailingCommas (word : List Char) : List Char :=
  (word.reverse.dropWhile (· = ',')).reverse

/-- The comparators that a row of words writes. A word of operator characters belongs to the next
word of another kind; the last such word before it counts. -/
def comparatorsOf (pending : List Char) : List (List Char) → List (List Char)
  | [] => []
  | word :: words =>
    if word.all isOperatorChar then
      comparatorsOf word words
    else
      (pending ++ dropTrailingCommas word) :: comparatorsOf [] words

/-- The comparators of an alternative with a comma and a space between them. -/
def normalize (alternative : List Char) : List Char :=
  [',', ' '].intercalate (comparatorsOf [] (Text.wordsOf alternative))

/-- Reads one alternative. -/
def readAlternative (alternative : List Char) : Except VersionFault Requirement :=
  let normalized := normalize alternative
  if normalized = [] ∨ normalized = "latest".toList then
    .ok []
  else
    VersionGrammar.requirement normalized

/-- Reads a range. -/
def read (s : String) : Except VersionFault VersionRange :=
  ((Text.splitBars s.toList).mapM readAlternative).map fun alternatives =>
    { text := Text.trim s, alternatives }

/-- Whether the version, or the release that it precedes, satisfies one of the alternatives. -/
def accepts (range : VersionRange) (v : Version) : Bool :=
  range.alternatives.any fun requirement =>
    requirement.accepts v || (!v.pre.isEmpty && requirement.accepts v.release)

end VersionRange

end Provisioning
