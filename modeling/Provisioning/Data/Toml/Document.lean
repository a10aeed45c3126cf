import Provisioning.Data.Basic

/-!
# Documents of TOML texts

A document grows entry by entry. Tables are opened by headings or by dotted keys, and no table is
opened twice: a heading may only take up a table that so far is nothing but a part of longer
headings, and dotted keys may only add to tables made by dotted keys.
-/

namespace Provisioning.Toml

/-- How a table came about. -/
inductive TableKind where
  /-- By a heading of its own, or as the whole document. -/
  | explicit
  /-- As a part of a longer heading. -/
  | implicit
  /-- By a dotted key. -/
  | dotted
deriving DecidableEq, Repr

/-- What a name stands for. -/
inductive Entry where
  /-- A value that is complete. -/
  | value (d : Data)
  /-- A table. -/
  | table (kind : TableKind) (entries : List (String × Entry))
  /-- A list of tables, the last one first. -/
  | tables (elements : List (List (String × Entry)))

/-- The entries of a table in the order in which they were made. -/
abbrev Table := List (String × Entry)

mutual

/-- The value of an entry. -/
def Entry.toData : Entry → Data
  | .value d => d
  | .table _ entries => .table (entriesToData entries)
  | .tables elements => .list (elementsToData elements).reverse

/-- The values of entries. -/
def entriesToData : List (String × Entry) → List (String × Data)
  | [] => []
  | (name, e) :: rest => (name, e.toData) :: entriesToData rest

/-- The values of tables. -/
def elementsToData : List (List (String × Entry)) → List Data
  | [] => []
  | t :: rest => .table (entriesToData t) :: elementsToData rest

end

namespace Table

/-- The table with another entry for a name that it has. -/
def set (t : Table) (name : String) (e : Entry) : Table :=
  t.map fun old => if old.1 = name then (name, e) else old

/-- Changes the table at a path, of which the kind is given to the change. On the way, tables of
one kind are made. Values that are complete are closed, and to dotted keys so are tables with
headings of their own. -/
def change? (made : TableKind) (f : TableKind → Table → Option Table) :
    List String → TableKind → Table → Option Table
  | [], kind, t => f kind t
  | name :: path, _, t =>
    match t.lookup name with
    | none => do
      let inner ← change? made f path made []
      return t ++ [(name, .table made inner)]
    | some (.table kind inner) =>
      if made = .dotted ∧ kind = .explicit then
        none
      else do
        let inner ← change? made f path kind inner
        return t.set name (.table kind inner)
    | some (.tables (last :: before)) => do
      let last ← change? made f path .explicit last
      return t.set name (.tables (last :: before))
    | some _ => none

/-- Opens the table of a name for a heading. -/
def openTable? (name : String) (t : Table) : Option Table :=
  match t.lookup name with
  | none => some (t ++ [(name, .table .explicit [])])
  | some (.table .implicit inner) => some (t.set name (.table .explicit inner))
  | some _ => none

/-- Opens one more table in the list of a name for a heading. -/
def openElement? (name : String) (t : Table) : Option Table :=
  match t.lookup name with
  | none => some (t ++ [(name, .tables [[]])])
  | some (.tables elements) => some (t.set name (.tables ([] :: elements)))
  | some _ => none

/-- Adds an entry of a new name. A dotted key adds to tables made by dotted keys only. -/
def add? (isDotted : Bool) (name : String) (d : Data) (kind : TableKind) (t : Table) :
    Option Table :=
  if (kind == .dotted) ≠ isDotted ∨ (t.lookup name).isSome then none
  else some (t ++ [(name, .value d)])

/-- Adds an entry with a dotted key to a table. -/
def addAt? (key : List String) (d : Data) (t : Table) : Option Table :=
  match key.reverse with
  | [] => none
  | name :: path =>
    change? .dotted (add? (!path.isEmpty) name d) path.reverse .explicit t

end Table

/-- A document, and the table that entries are added to. -/
structure Document where
  /-- All entries. -/
  root : Table := []
  /-- The heading of the table that entries are added to. -/
  heading : List String := []

namespace Document

/-- The document after a heading; of a table in a list when it is doubled. -/
def open? (doc : Document) (doubled : Bool) (heading : List String) : Option Document :=
  match heading.reverse with
  | [] => none
  | name :: path => do
    let change (t : Table) : Option Table :=
      if doubled then t.openElement? name else t.openTable? name
    let root ← Table.change? .implicit (fun _ => change) path.reverse .explicit doc.root
    return { root, heading }

/-- The document after an entry. -/
def add? (doc : Document) (key : List String) (d : Data) : Option Document := do
  let root ← Table.change? .implicit (fun _ => Table.addAt? key d) doc.heading .explicit doc.root
  return { doc with root }

/-- The value of the document. -/
def toData (doc : Document) : Data := .table (entriesToData doc.root)

end Document

end Provisioning.Toml
