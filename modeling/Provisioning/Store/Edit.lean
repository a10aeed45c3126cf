import Provisioning.Store.Basic

/-!
# Editing rows by hand

A column of a row may be overwritten with any text, as an administrator would do it. The store does
not check what is written; a status or a time that is none makes the row unreadable.
-/

namespace Provisioning

/-- A table of records. -/
inductive RecordTable where
  /-- The flows. -/
  | flows
  /-- The flows of applications. -/
  | applicationFlows
  /-- The stages. -/
  | stages
deriving DecidableEq, Repr

/-- A column that all records have. -/
inductive RecordColumn where
  /-- The status. -/
  | status
  /-- What is said about the row. -/
  | detail
  /-- When it started. -/
  | startedAt
  /-- When it ended. -/
  | finishedAt
deriving DecidableEq, Repr

/-- The row after a column has been overwritten. -/
def Record.edit {α : Type} (column : RecordColumn) (value : String) (r : Record α) : Record α :=
  match column with
  | .status => { r with status := .ofText value }
  | .detail => { r with detail := some value }
  | .startedAt => { r with startedAt := some (.ofText value) }
  | .finishedAt => { r with finishedAt := some (.ofText value) }

/-- The number of rows changed, and the table afterwards. -/
def Table.edit {α : Type} (id : String) (column : RecordColumn) (value : String) (t : Table α) :
    Nat × Table α :=
  (if (t.find? id).isSome then 1 else 0, t.modify id (Record.edit column value))

/-- Overwrites a column of a row; gives the number of rows changed. -/
def Store.edit (s : Store) (table : RecordTable) (id : String) (column : RecordColumn)
    (value : String) : Nat × Store :=
  match table with
  | .flows =>
    let (n, flows) := s.flows.edit id column value
    (n, { s with flows })
  | .applicationFlows =>
    let (n, applicationFlows) := s.applicationFlows.edit id column value
    (n, { s with applicationFlows })
  | .stages =>
    let (n, stages) := s.stages.edit id column value
    (n, { s with stages })

end Provisioning
