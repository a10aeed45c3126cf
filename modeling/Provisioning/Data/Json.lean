import Provisioning.Data.Number
import Provisioning.Decimal.Shortest

/-!
# JSON texts

Reading goes in two passes: the text becomes a list of tokens, and the tokens are put together with
the containers part way through on a stack, so that values may nest to any depth.
-/

namespace Provisioning.Json

/-! ## Texts between quotes -/

/-- The value of a hexadecimal digit. -/
def hexDigit? (c : Char) : Option Nat :=
  if c.isDigit then some (c.toNat - '0'.toNat)
  else if 'a' ≤ c ∧ c ≤ 'f' then some (c.toNat - 'a'.toNat + 10)
  else if 'A' ≤ c ∧ c ≤ 'F' then some (c.toNat - 'A'.toNat + 10)
  else none

/-- The character that an escape letter stands for. -/
def escaped? : Char → Option Char
  | '"' => some '"'
  | '\\' => some '\\'
  | '/' => some '/'
  | 'b' => some '\x08'
  | 'f' => some '\x0c'
  | 'n' => some '\n'
  | 'r' => some '\r'
  | 't' => some '\t'
  | _ => none

/-- The code points that the characters between quotes stand for, halves of surrogate pairs
included. -/
def codePoints? : List Char → Option (List Nat)
  | [] => some []
  | '\\' :: 'u' :: a :: b :: c :: d :: rest => do
    let n := 4096 * (← hexDigit? a) + 256 * (← hexDigit? b) + 16 * (← hexDigit? c) + (← hexDigit? d)
    return n :: (← codePoints? rest)
  | '\\' :: c :: rest => do
    return (← escaped? c).toNat :: (← codePoints? rest)
  | c :: rest =>
    if c.toNat < 0x20 ∨ c = '\\' then none else (codePoints? rest).map (c.toNat :: ·)

/-- The characters of code points. The halves of a surrogate pair make one character; a half
without its other half makes the text unreadable. -/
def characters? : List Nat → Option (List Char)
  | [] => some []
  | [n] => if 0xD800 ≤ n ∧ n < 0xE000 then none else some [Char.ofNat n]
  | n :: m :: rest =>
    if 0xD800 ≤ n ∧ n < 0xDC00 then
      if 0xDC00 ≤ m ∧ m < 0xE000 then
        (characters? rest).map (Char.ofNat (0x10000 + (n - 0xD800) * 0x400 + (m - 0xDC00)) :: ·)
      else
        none
    else if 0xDC00 ≤ n ∧ n < 0xE000 then
      none
    else
      (characters? (m :: rest)).map (Char.ofNat n :: ·)

/-! ## Tokens -/

/-- A token of a text. -/
inductive Token where
  /-- The start of a table. -/
  | openTable
  /-- The end of a table. -/
  | closeTable
  /-- The start of a list. -/
  | openList
  /-- The end of a list. -/
  | closeList
  /-- What stands between a name and its value. -/
  | colon
  /-- What stands between items and between entries. -/
  | comma
  /-- A text; nothing when it is unreadable. -/
  | text (content : Option String)
  /-- A number or a word. -/
  | scalar (value : Data)

/-- The token of the characters between quotes. -/
def Token.ofQuoted? (cs : List Char) : Option Token :=
  (codePoints? cs).map fun points => .text ((characters? points).map String.ofList)

/-- The token of characters without quotes. -/
def Token.ofBare? (cs : List Char) : Option Token :=
  if cs = "null".toList then some (.scalar .null)
  else if cs = "true".toList then some (.scalar (.bool true))
  else if cs = "false".toList then some (.scalar (.bool false))
  else (JsonNumber.Written.ofChars? cs).map (.scalar ·.value)

/-- What is being read. -/
inductive Scan where
  /-- Nothing: a token may start. -/
  | between
  /-- A text, with its characters so far, last one first, and whether a backslash came last. -/
  | quoted (done : List Char) (escaping : Bool)
  /-- A number or a word, with its characters so far, last one first. -/
  | bare (done : List Char)

/-- Whether the character may belong to a number or a word. -/
def isBareChar (c : Char) : Bool := c.isAlphanum || c == '+' || c == '-' || c == '.'

/-- Starts to read at a character: the token that it is, if it is one, and what is read next. -/
def begin? (c : Char) : Option (List Token × Scan) :=
  match c with
  | ' ' | '\n' | '\r' | '\t' => some ([], .between)
  | '\x7b' => some ([.openTable], .between)
  | '\x7d' => some ([.closeTable], .between)
  | '[' => some ([.openList], .between)
  | ']' => some ([.closeList], .between)
  | ':' => some ([.colon], .between)
  | ',' => some ([.comma], .between)
  | '"' => some ([], .quoted [] false)
  | c => if isBareChar c then some ([], .bare [c]) else none

/-- The tokens of the rest of a text, behind those already found (last one first). -/
def scan (found : List Token) : Scan → List Char → Option (List Token)
  | .between, [] => some found.reverse
  | .between, c :: cs => do
    let (tokens, next) ← begin? c
    scan (tokens ++ found) next cs
  | .quoted _ _, [] => none
  | .quoted done true, c :: cs => scan found (.quoted (c :: done) false) cs
  | .quoted done false, c :: cs =>
    if c = '"' then do
      let token ← Token.ofQuoted? done.reverse
      scan (token :: found) .between cs
    else
      scan found (.quoted (c :: done) (c = '\\')) cs
  | .bare done, [] => do
    let token ← Token.ofBare? done.reverse
    return (token :: found).reverse
  | .bare done, c :: cs =>
    if isBareChar c then
      scan found (.bare (c :: done)) cs
    else do
      let token ← Token.ofBare? done.reverse
      let (tokens, next) ← begin? c
      scan (tokens ++ token :: found) next cs

/-! ## Values -/

/-- A container part way through, what was read last in front. -/
inductive Open where
  /-- A list with its items so far. -/
  | list (done : List Data)
  /-- A table with its entries so far, whether all names were readable, and the name whose value
  comes next. -/
  | table (done : List (String × Data)) (readable : Bool) (name : Option String)

/-- What may come next, inside containers of which the innermost is in front. -/
inductive Reading where
  /-- A value. -/
  | value (outer : List Open)
  /-- The first item of a list, or its end. -/
  | firstItem (outer : List Open)
  /-- The first name of a table, or its end. -/
  | firstName (outer : List Open)
  /-- A name. -/
  | name (outer : List Open)
  /-- The colon after a name. -/
  | colon (outer : List Open)
  /-- A comma, or the end of the innermost container. -/
  | next (outer : List Open)
  /-- Nothing: the value is complete. -/
  | done (value : Data)

/-- Puts a complete value into the innermost container. -/
def complete (d : Data) : List Open → Reading
  | [] => .done d
  | .list items :: outer => .next (.list (d :: items) :: outer)
  | .table entries readable name :: outer =>
    .next (.table ((name.getD "", d) :: entries) (readable && name.isSome) none :: outer)

/-- Starts to read a value at a token. -/
def beginValue? (outer : List Open) : Token → Option Reading
  | .openTable => some (.firstName (.table [] true none :: outer))
  | .openList => some (.firstItem (.list [] :: outer))
  | .text (some s) => some (complete (.text s) outer)
  | .text none => some (complete .unreadable outer)
  | .scalar d => some (complete d outer)
  | _ => none

/-- Reads a name. -/
def beginName? : List Open → Token → Option Reading
  | .table entries readable _ :: outer, .text name =>
    some (.colon (.table entries readable name :: outer))
  | _, _ => none

/-- Ends the innermost container. -/
def close? : List Open → Token → Option Reading
  | .list items :: outer, .closeList => some (complete (.list items.reverse) outer)
  | .table entries readable _ :: outer, .closeTable =>
    some (complete (if readable then .table entries.reverse else .unreadable) outer)
  | _, _ => none

/-- Reads one token. -/
def feed? : Reading → Token → Option Reading
  | .value outer, token => beginValue? outer token
  | .firstItem outer, token => (close? outer token).or (beginValue? outer token)
  | .firstName outer, token => (close? outer token).or (beginName? outer token)
  | .name outer, token => beginName? outer token
  | .colon outer, .colon => some (.value outer)
  | .next outer, .comma =>
    match outer with
    | .list _ :: _ => some (.value outer)
    | .table _ _ _ :: _ => some (.name outer)
    | [] => none
  | .next outer, token => close? outer token
  | _, _ => none

/-- The value that a text writes. -/
def read? (s : String) : Option Data := do
  let tokens ← scan [] .between s.toList
  match ← tokens.foldlM feed? (.value []) with
  | .done d => some d
  | _ => none

/-! ## Writing -/

/-- Whether a character is written by its code point: control characters, and the separators that
some readers take for the end of a line. -/
def isWrittenByCode (c : Char) : Bool :=
  c.toNat < 0x20 || c == '\u0085' || c == '\u2028' || c == '\u2029'

/-- The four hexadecimal digits of a code point. -/
def hex4 (n : Nat) : List Char := Text.paddedDigits 16 4 n

/-- The written form of one character between quotes. -/
def writeChar (c : Char) : List Char :=
  match c with
  | '"' => ['\\', '"']
  | '\\' => ['\\', '\\']
  | '\n' => ['\\', 'n']
  | '\r' => ['\\', 'r']
  | '\t' => ['\\', 't']
  | c => if isWrittenByCode c then ['\\', 'u'] ++ hex4 c.toNat else [c]

/-- A text between quotes. -/
def writeText (s : String) : String := String.ofList (['"'] ++ s.toList.flatMap writeChar ++ ['"'])

mutual

/-- A value on one line, without spaces. -/
def write : Data → String
  | .null | .unreadable => "null"
  | .bool value => if value then "true" else "false"
  | .int value => toString value
  | .float value => if value.isFinite then value.text else "null"
  | .text value => writeText value
  | .list items => "[" ++ ",".intercalate (writeItems items) ++ "]"
  | .table entries => "\x7b" ++ ",".intercalate (writeEntries entries) ++ "\x7d"

/-- The written items of a list. -/
def writeItems : List Data → List String
  | [] => []
  | d :: rest => write d :: writeItems rest

/-- The written entries of a table. -/
def writeEntries : List (String × Data) → List String
  | [] => []
  | (name, d) :: rest => (writeText name ++ ":" ++ write d) :: writeEntries rest

end

end Provisioning.Json
