import Provisioning.Text.Split

/-!
# Tokens of TOML texts

A text becomes a list of tokens, in which comments are left out. Lines end with a line feed, before
which a carriage return may stand.
-/

namespace Provisioning.Toml

/-- A token. -/
inductive Token where
  /-- The end of a line. -/
  | newline
  /-- The start of a list or a heading; whether another bracket stands right before it. -/
  | openBracket (adjacent : Bool)
  /-- The end of a list or a heading; whether another bracket stands right before it. -/
  | closeBracket (adjacent : Bool)
  /-- The start of a table. -/
  | openBrace
  /-- The end of a table. -/
  | closeBrace
  /-- What stands between items and between entries. -/
  | comma
  /-- What stands between a key and its value. -/
  | equals
  /-- A text; it may have several lines between three quotes. -/
  | text (long : Bool) (content : String)
  /-- Anything without quotes. -/
  | bare (content : List Char)

/-! ## Texts between quotes -/

/-- Whether the character may stand in texts and comments: a tab, or no control character. -/
def isAllowed (c : Char) : Bool := c == '\t' || (0x20 ≤ c.toNat && c.toNat ≠ 0x7F)

/-- The value of a hexadecimal digit. -/
def hexValue? (c : Char) : Option Nat :=
  if c.isDigit then some (c.toNat - '0'.toNat)
  else if 'a' ≤ c.toLower ∧ c.toLower ≤ 'f' then some (c.toLower.toNat - 'a'.toNat + 10)
  else none

/-- The character whose code point hexadecimal digits give. -/
def codePoint? (digits : List Char) : Option Char := do
  let n := (← digits.mapM hexValue?).foldl (fun n d => 16 * n + d) 0
  if h : n.isValidChar then some (Char.ofNatAux n h) else none

/-- The character that an escape letter stands for. -/
def escaped? : Char → Option Char
  | 'b' => some '\x08'
  | 't' => some '\t'
  | 'n' => some '\n'
  | 'f' => some '\x0c'
  | 'r' => some '\r'
  | 'e' => some '\x1b'
  | '"' => some '"'
  | '\\' => some '\\'
  | _ => none

/-- Whether the character stands between words or lines. -/
def isGap (c : Char) : Bool := c == ' ' || c == '\t' || c == '\n'

/-- What is left of a long text behind a backslash at the end of a line: the gap up to the next
character is left out. There has to be the end of the line in it. -/
def afterLineEnd? (cs : List Char) : Option (List Char) :=
  if (cs.takeWhile isGap).contains '\n' then some (cs.dropWhile isGap) else none

theorem length_afterLineEnd? {cs rest : List Char} (h : afterLineEnd? cs = some rest) :
    rest.length ≤ cs.length := by
  simp only [afterLineEnd?] at h
  split at h
  · obtain rfl := Option.some.inj h
    exact (List.dropWhile_suffix _).length_le
  · simp at h

/-- The characters that stand between double quotes, with escapes resolved. -/
def unescape? (long : Bool) (cs : List Char) : Option (List Char) :=
  match cs with
  | [] => some []
  | '\\' :: 'x' :: a :: b :: rest => do
    return (← codePoint? [a, b]) :: (← unescape? long rest)
  | '\\' :: 'u' :: a :: b :: c :: d :: rest => do
    return (← codePoint? [a, b, c, d]) :: (← unescape? long rest)
  | '\\' :: 'U' :: a :: b :: c :: d :: e :: f :: g :: h :: rest => do
    return (← codePoint? [a, b, c, d, e, f, g, h]) :: (← unescape? long rest)
  | '\\' :: c :: rest =>
    match escaped? c with
    | some e => (unescape? long rest).map (e :: ·)
    | none =>
      match h : afterLineEnd? (c :: rest) with
      | some rest' =>
        have : rest'.length ≤ rest.length + 1 := length_afterLineEnd? h
        if long then unescape? long rest' else none
      | none => none
  | ['\\'] => none
  | c :: rest =>
    if isAllowed c || (long && c == '\n') then (unescape? long rest).map (c :: ·) else none
termination_by cs.length

/-- The kind of a text between quotes. -/
structure Quote where
  /-- The quote: the single one has no escapes. -/
  mark : Char
  /-- Whether there are three of them at either end. -/
  long : Bool

/-- The text that the characters between quotes stand for. The end of a line right behind the
quotes of a long text is left out. -/
def Quote.content? (q : Quote) (cs : List Char) : Option String :=
  let cs := match q.long, cs with
    | true, '\n' :: cs => cs
    | _, cs => cs
  if q.mark = '"' then
    (unescape? q.long cs).map String.ofList
  else if cs.all fun c => isAllowed c || (q.long && c == '\n') then
    some (String.ofList cs)
  else
    none

/-- The token of the characters between quotes, last one first. -/
def Quote.token? (q : Quote) (done : List Char) : Option Token :=
  (q.content? done.reverse).map (.text q.long)

/-! ## Scanning -/

/-- What is being read. -/
inductive Scan where
  /-- Nothing: a token may start. A bracket that comes next stands right behind another one. -/
  | between (afterOpen afterClose : Bool)
  /-- A comment. -/
  | comment
  /-- Something without quotes, its characters so far, last one first. -/
  | bare (done : List Char)
  /-- A blank behind a date, which may have a time. -/
  | pause (done : List Char)
  /-- One or two quotes, which may be the start of a text or of a long text. -/
  | opening (mark : Char) (two : Bool)
  /-- A text, its characters so far, last one first, and whether a backslash came last. -/
  | quoted (q : Quote) (done : List Char) (escaping : Bool)
  /-- Quotes inside a long text, which may be its end. -/
  | closing (q : Quote) (done : List Char) (quotes : Nat)

/-- Between tokens, not behind a bracket. -/
def Scan.apart : Scan := .between false false

/-- Whether the character may belong to something without quotes. -/
def isBare (c : Char) : Bool :=
  c.isAlphanum || c == '_' || c == '-' || c == '+' || c == '.' || c == ':'

/-- Starts to read at a character: the token that it is, if it is one, and what is read next. -/
def begin? (afterOpen afterClose : Bool) (c : Char) : Option (List Token × Scan) :=
  match c with
  | ' ' | '\t' => some ([], .apart)
  | '\n' => some ([.newline], .apart)
  | '#' => some ([], .comment)
  | '[' => some ([.openBracket afterOpen], .between true false)
  | ']' => some ([.closeBracket afterClose], .between false true)
  | '\x7b' => some ([.openBrace], .apart)
  | '\x7d' => some ([.closeBrace], .apart)
  | ',' => some ([.comma], .apart)
  | '=' => some ([.equals], .apart)
  | '"' | '\'' => some ([], .opening c false)
  | c => if isBare c then some ([], .bare [c]) else none

/-- Whether the characters, last one first, are laid out like a date. -/
def looksLikeDate (done : List Char) : Bool :=
  match done.reverse with
  | [a, b, c, d, '-', e, f, '-', g, h] => [a, b, c, d, e, f, g, h].all Char.isDigit
  | _ => false

/-- Reads one character: the tokens that end with it, and what is read next. -/
def step? (s : Scan) (c : Char) : Option (List Token × Scan) :=
  let behind (token : Token) : Option (List Token × Scan) :=
    (begin? false false c).map fun (tokens, next) => (token :: tokens, next)
  match s with
  | .between afterOpen afterClose => begin? afterOpen afterClose c
  | .comment =>
    if c = '\n' then some ([.newline], .apart)
    else if isAllowed c then some ([], .comment)
    else none
  | .bare done =>
    if isBare c then some ([], .bare (c :: done))
    else if c = ' ' ∧ looksLikeDate done then some ([], .pause done)
    else behind (.bare done.reverse)
  | .pause done =>
    if c.isDigit then some ([], .bare (c :: ' ' :: done)) else behind (.bare done.reverse)
  | .opening mark two =>
    if c = mark then
      some ([], if two then .quoted ⟨mark, true⟩ [] false else .opening mark true)
    else if two then
      behind (.text false "")
    else
      some ([], .quoted ⟨mark, false⟩ [c] (mark = '"' && c == '\\'))
  | .quoted q done escaping =>
    if escaping then
      some ([], .quoted q (c :: done) false)
    else if c = q.mark then
      if q.long then some ([], .closing q done 1) else do return ([← q.token? done], .apart)
    else
      some ([], .quoted q (c :: done) (q.mark = '"' && c == '\\'))
  | .closing q done quotes =>
    if c = q.mark then
      if quotes = 4 then do
        return ([← q.token? (q.mark :: q.mark :: done)], .apart)
      else
        some ([], .closing q done (quotes + 1))
    else if 3 ≤ quotes then do
      behind (← q.token? (List.replicate (quotes - 3) q.mark ++ done))
    else
      some ([], .quoted q (c :: (List.replicate quotes q.mark ++ done)) (q.mark = '"' && c == '\\'))

/-- The tokens that end with the text. -/
def finish? : Scan → Option (List Token)
  | .between _ _ | .comment => some []
  | .bare done | .pause done => some [.bare done.reverse]
  | .opening _ true => some [.text false ""]
  | .opening _ false | .quoted _ _ _ => none
  | .closing q done quotes =>
    if 3 ≤ quotes then do
      return [← q.token? (List.replicate (quotes - 3) q.mark ++ done)]
    else
      none

/-- The tokens of a text behind those already found, last one first. -/
def scan (found : List Token) (s : Scan) : List Char → Option (List Token)
  | [] => (finish? s).map fun tokens => found.reverse ++ tokens
  | c :: cs => do
    let (tokens, next) ← step? s c
    scan (tokens.reverse ++ found) next cs

/-- The characters without the carriage returns before line feeds. -/
def joinLineEnds : List Char → List Char
  | '\r' :: '\n' :: cs => '\n' :: joinLineEnds cs
  | c :: cs => c :: joinLineEnds cs
  | [] => []

/-- The tokens of a text, which may start with a byte order mark. -/
def tokens? (text : String) : Option (List Token) :=
  let cs := joinLineEnds text.toList
  scan [] .apart (match cs with
    | '\ufeff' :: cs => cs
    | cs => cs)

end Provisioning.Toml
