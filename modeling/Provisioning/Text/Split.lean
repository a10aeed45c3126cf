/-!
# Cutting a text at separators

A text with `n` separators has `n + 1` parts, some of them possibly empty; joining the parts with
the separator gives the text back.
-/

namespace Provisioning.Text

/-- Puts a character in front of the first part. -/
def consFirst (c : Char) : List (List Char) → List (List Char)
  | [] => [[c]]
  | part :: parts => (c :: part) :: parts

/-- The parts between the occurrences of a character. -/
def splitChars (sep : Char) : List Char → List (List Char)
  | [] => [[]]
  | c :: cs => if c = sep then [] :: splitChars sep cs else consFirst c (splitChars sep cs)

/-- The parts between the occurrences of a pair of bars, found from the left. -/
def splitBars : List Char → List (List Char)
  | [] => [[]]
  | '|' :: '|' :: cs => [] :: splitBars cs
  | c :: cs => consFirst c (splitBars cs)

/-- The parts between the occurrences of a character. -/
def split (sep : Char) (s : String) : List String := (splitChars sep s.toList).map String.ofList

/-- The texts one after another with the separator between neighbours. -/
def join (sep : String) (parts : List String) : String := sep.intercalate parts

/-- What stands before the last slash of a path, or nothing when the path has none. -/
def beforeLastSlash? (path : List Char) : Option (List Char) :=
  match path.reverse.dropWhile (· ≠ '/') with
  | [] => none
  | _ :: before => some before.reverse

end Provisioning.Text
