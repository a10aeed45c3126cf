import Provisioning.Decimal.Binary64
import Provisioning.Ordered.Map

/-!
# Values of data formats

Flow parameters, stage results, application descriptors and configurations are all written as
values of one kind: texts, numbers, lists and tables. A table keeps its entries as they were
written, repeated names included; `Data.canonical` gives each table the ascending order of names
and lets the last entry of a name count.
-/

namespace Provisioning

/-- A value of a data format. -/
inductive Data where
  /-- No value. -/
  | null
  /-- A truth value. -/
  | bool (value : Bool)
  /-- A whole number. -/
  | int (value : Int)
  /-- A floating point number. -/
  | float (value : Binary64)
  /-- A text. -/
  | text (value : String)
  /-- Values one after another. -/
  | list (items : List Data)
  /-- Named values. -/
  | table (entries : List (String × Data))
  /-- Something that is written correctly and has no value: a number beyond all floating point
  numbers, or a text with half of a surrogate pair. -/
  | unreadable
deriving Inhabited, BEq, Repr

namespace Data

/-- The truth value, if it is one. -/
def bool? : Data → Option Bool
  | bool value => some value
  | _ => none

/-- The whole number, if it is one. -/
def int? : Data → Option Int
  | int value => some value
  | _ => none

/-- The text, if it is one. -/
def text? : Data → Option String
  | text value => some value
  | _ => none

/-- The items, if it is a list. -/
def list? : Data → Option (List Data)
  | list items => some items
  | _ => none

/-- The entries, if it is a table. -/
def table? : Data → Option (List (String × Data))
  | table entries => some entries
  | _ => none

/-- Whether it is the missing value. -/
def isNull : Data → Bool
  | null => true
  | _ => false

/-- The texts, if it is a list of texts. -/
def texts? (d : Data) : Option (List String) := do (← d.list?).mapM text?

/-- The value of a name in a table. -/
def field? (d : Data) (name : String) : Option Data := do (← d.table?).lookup name

/-- A list of texts. -/
def ofTexts (texts : List String) : Data := list (texts.map text)

/-- A natural number. -/
def ofNat (n : Nat) : Data := int n

/-- A text, or no value. -/
def ofText? : Option String → Data
  | some s => text s
  | none => null

mutual

/-- The value with ascending names in its tables, each once: the last entry of a name counts. -/
def canonical : Data → Data
  | list items => list (canonicalItems items)
  | table entries => table (OrderedMap.ofList (canonicalEntries entries)).entries
  | d => d

/-- The items, each in its canonical form. -/
def canonicalItems : List Data → List Data
  | [] => []
  | d :: rest => canonical d :: canonicalItems rest

/-- The entries, the value of each in its canonical form. -/
def canonicalEntries : List (String × Data) → List (String × Data)
  | [] => []
  | (name, d) :: rest => (name, canonical d) :: canonicalEntries rest

end

/-- The values of the fields of a record, in the order of the fields; each field is given by the
names it may have. A record is a table, in which a field stands at most once and other names are
of no account, or the list of the values, the last of which may be left out. -/
def record? (fields : List (List String)) : Data → Option (List (Option Data))
  | table entries =>
    fields.mapM fun names =>
      match entries.filter fun e => names.contains e.1 with
      | [] => some none
      | [(_, d)] => some (some d)
      | _ => none
  | list items =>
    if items.length ≤ fields.length then
      some (items.map some ++ List.replicate (fields.length - items.length) none)
    else
      none
  | _ => none

end Data

end Provisioning
