import Provisioning.Data.Toml.Document
import Provisioning.Data.Toml.Scalar
import Provisioning.Data.Toml.Token

/-!
# Reading TOML texts

The tokens of a text are put together with the lists and tables part way through on a stack. Keys
and values that are too deep are refused.
-/

namespace Provisioning.Toml

/-- The largest number of names in a key, and of lists and tables inside each other. -/
def maxDepth : Nat := 80

/-! ## Keys -/

/-- A key part way through: its names, last one first, and whether one more has to follow. -/
structure KeyPart where
  /-- The names so far, last one first. -/
  names : List String := []
  /-- Whether a name has to come next. -/
  needsName : Bool := true

namespace KeyPart

/-- The key with one more name. -/
def name? (k : KeyPart) (name : String) : Option KeyPart :=
  if k.needsName then some { names := name :: k.names, needsName := false } else none

/-- The key with a dot. -/
def dot? (k : KeyPart) : Option KeyPart :=
  if k.needsName ∨ maxDepth ≤ k.names.length then none else some { k with needsName := true }

/-- Whether the character may stand in a name without quotes. -/
def isNameChar (c : Char) : Bool := c.isAlphanum || c == '_' || c == '-'

/-- The key with a name without quotes, or with nothing. -/
def bareName? (k : KeyPart) (cs : List Char) : Option KeyPart :=
  if cs.isEmpty then some k
  else if cs.all isNameChar then k.name? (String.ofList cs)
  else none

/-- The key with names without quotes and the dots around them. -/
def bare? (k : KeyPart) (cs : List Char) : Option KeyPart :=
  match Text.splitChars '.' cs with
  | [] => none
  | first :: rest => do
    rest.foldlM (fun k part => do (← k.dot?).bareName? part) (← k.bareName? first)

/-- The key with one more token. -/
def token? (k : KeyPart) : Token → Option KeyPart
  | .bare cs => k.bare? cs
  | .text false name => k.name? name
  | _ => none

/-- The names of the key, if it is complete. -/
def names? (k : KeyPart) : Option (List String) :=
  if k.needsName then none else some k.names.reverse

end KeyPart

/-! ## Values -/

/-- A value part way through, what was read last in front. -/
inductive Open where
  /-- An entry of the document with its key. -/
  | entry (key : List String)
  /-- A list with its items so far. -/
  | list (done : List Data)
  /-- A table with its entries so far, and the key whose value comes next. -/
  | table (done : Table) (key : List String)

/-- What may come next. -/
inductive Mode where
  /-- A heading or an entry. -/
  | start
  /-- The end of the line. -/
  | lineEnd
  /-- A key in a heading, which may be doubled. -/
  | heading (doubled : Bool) (key : KeyPart)
  /-- The second bracket at the end of a heading. -/
  | headingEnd (key : List String)
  /-- A key, or what stands behind it. -/
  | key (key : KeyPart)
  /-- A value on the same line. -/
  | value
  /-- An item of a list, or its end. -/
  | itemOrEnd
  /-- A key in a table, or its end. -/
  | keyOrEnd
  /-- A comma, or the end of a list or table. -/
  | next

/-- A text part way through. -/
structure Reader where
  /-- The complete entries. -/
  document : Document := {}
  /-- The values part way through, the innermost one first. -/
  outer : List Open := []
  /-- What may come next. -/
  mode : Mode := .start

namespace Reader

/-- Puts a complete value into what is around it. -/
def complete? (r : Reader) (d : Data) : Option Reader :=
  match r.outer with
  | .entry key :: outer => do
    return { document := ← r.document.add? key d, outer, mode := .lineEnd }
  | .list done :: outer => some { r with outer := .list (d :: done) :: outer, mode := .next }
  | .table done key :: outer => do
    return { r with outer := .table (← Table.addAt? key d done) [] :: outer, mode := .next }
  | [] => none

/-- Opens a list or table for what may come in it; below all of them is an entry. -/
def open? (r : Reader) (inner : Open) (mode : Mode) : Option Reader :=
  if r.outer.length ≤ maxDepth then some { r with outer := inner :: r.outer, mode } else none

/-- Starts to read a value at a token. -/
def beginValue? (r : Reader) : Token → Option Reader
  | .openBracket _ => r.open? (.list []) .itemOrEnd
  | .openBrace => r.open? (.table [] []) .keyOrEnd
  | .text _ content => r.complete? (.text content)
  | .bare content => do r.complete? (← scalar? content)
  | _ => none

/-- Ends the innermost list or table. -/
def close? (r : Reader) (token : Token) : Option Reader :=
  match r.outer, token with
  | .list done :: outer, .closeBracket _ => { r with outer }.complete? (.list done.reverse)
  | .table done _ :: outer, .closeBrace =>
    { r with outer }.complete? (.table (entriesToData done))
  | _, _ => none

/-- Reads what stands behind a key: the value comes next. -/
def endKey? (r : Reader) (key : KeyPart) : Option Reader := do
  let key ← key.names?
  match r.outer with
  | [] => return { r with outer := [.entry key], mode := .value }
  | .table done _ :: outer => return { r with outer := .table done key :: outer, mode := .value }
  | _ => none

/-- Reads a heading or an entry from its first token on. -/
def start? (r : Reader) : Token → Option Reader
  | .newline => some { r with mode := .start }
  | .openBracket true => none
  | .openBracket false => some { r with mode := .heading false {} }
  | token => do return { r with mode := .key (← KeyPart.token? {} token) }

/-- Reads a token of a heading. -/
def heading? (r : Reader) (doubled : Bool) (key : KeyPart) : Token → Option Reader
  | .openBracket true =>
    if !doubled ∧ key.names.isEmpty ∧ key.needsName then
      some { r with mode := .heading true {} }
    else
      none
  | .closeBracket _ => do
    let names ← key.names?
    if doubled then
      return { r with mode := .headingEnd names }
    else
      return { r with document := ← r.document.open? false names, mode := .lineEnd }
  | token => do return { r with mode := .heading doubled (← key.token? token) }

/-- Reads one token. -/
def feed? (r : Reader) (token : Token) : Option Reader :=
  match r.mode, token with
  | .start, _ => r.start? token
  | .lineEnd, .newline => some { r with mode := .start }
  | .lineEnd, _ => none
  | .heading doubled key, _ => r.heading? doubled key token
  | .headingEnd key, .closeBracket true => do
    return { r with document := ← r.document.open? true key, mode := .lineEnd }
  | .headingEnd _, _ => none
  | .key key, .equals => r.endKey? key
  | .key key, _ => do return { r with mode := .key (← key.token? token) }
  | .value, _ => r.beginValue? token
  | .itemOrEnd, .newline | .keyOrEnd, .newline | .next, .newline => some r
  | .itemOrEnd, _ => (r.close? token).or (r.beginValue? token)
  | .keyOrEnd, .closeBrace => r.close? token
  | .keyOrEnd, _ => do return { r with mode := .key (← KeyPart.token? {} token) }
  | .next, .comma =>
    match r.outer with
    | .list _ :: _ => some { r with mode := .itemOrEnd }
    | .table _ _ :: _ => some { r with mode := .keyOrEnd }
    | _ => none
  | .next, _ => r.close? token

end Reader

/-- The value that a text writes, which is a table. -/
def read? (text : String) : Option Data := do
  let r ← (← tokens? text).foldlM Reader.feed? {}
  match r.mode with
  | .start | .lineEnd => some r.document.toData
  | _ => none

end Provisioning.Toml
