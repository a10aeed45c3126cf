import Provisioning.Text.Unprintable

/-!
# Quoted texts

Messages quote the characters and texts they complain about. A quoted form shows NUL, the tab, the
line feed, the carriage return and the backslash by an escape letter, its own quote behind a
backslash, and a character without a glyph of its own by its code point in hexadecimal.
-/

namespace Provisioning.Text

/-- The written form of one character between quotes of the given kind. -/
def escape (quote : Char) (c : Char) : List Char :=
  match c with
  | '\x00' => ['\\', '0']
  | '\t' => ['\\', 't']
  | '\n' => ['\\', 'n']
  | '\r' => ['\\', 'r']
  | '\\' => ['\\', '\\']
  | c =>
    if c = quote then
      ['\\', c]
    else if 0x20 ≤ c.toNat && c.toNat < 0x7F then
      [c]
    else if isUnprintable c then
      ['\\', 'u', '\x7b'] ++ Nat.toDigits 16 c.toNat ++ ['\x7d']
    else
      [c]

/-- A character between single quotes. -/
def quotedChar (c : Char) : String := String.ofList (['\''] ++ escape '\'' c ++ ['\''])

/-- A text between double quotes. -/
def quoted (s : String) : String :=
  String.ofList (['"'] ++ s.toList.flatMap (escape '"') ++ ['"'])

end Provisioning.Text
