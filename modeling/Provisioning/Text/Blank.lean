import Provisioning.Text.Ranges

/-!
# Blank characters

A character is blank when it has the Unicode property White_Space. Identifiers, version texts and
tenant names are read without the blanks around them, and lists of comparators and of interface
versions are separated by blanks.
-/

namespace Provisioning.Text

/-- The code points with the property White_Space. -/
def blankRanges : Ranges :=
  [(0x09, 0x0D), (0x20, 0x20), (0x85, 0x85), (0xA0, 0xA0), (0x1680, 0x1680), (0x2000, 0x200A),
   (0x2028, 0x2029), (0x202F, 0x202F), (0x205F, 0x205F), (0x3000, 0x3000)]

example : blankRanges.ascending = true ∧ blankRanges.size = 25 := by decide

/-- Whether the character has the property White_Space. -/
def isBlank (c : Char) : Bool := blankRanges.has c

/-- The characters without the blanks at either end. -/
def trimChars (cs : List Char) : List Char :=
  ((cs.dropWhile isBlank).reverse.dropWhile isBlank).reverse

/-- The text without the blanks at either end. -/
def trim (s : String) : String := String.ofList (trimChars s.toList)

/-- The longest runs of characters that are not blank, in order. -/
def wordsOf : List Char → List (List Char)
  | [] => []
  | c :: cs =>
    if isBlank c then
      wordsOf cs
    else
      match cs, wordsOf cs with
      | d :: _, word :: words => if isBlank d then [c] :: word :: words else (c :: word) :: words
      | _, words => [c] :: words

/-- The longest runs of characters that are not blank, in order. -/
def words (s : String) : List String := (wordsOf s.toList).map String.ofList

end Provisioning.Text
