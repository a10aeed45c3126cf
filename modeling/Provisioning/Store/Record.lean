import Provisioning.Flow.Status
import Provisioning.Store.Time

/-!
# Record rows

Flows, the flows of applications, and stages each have a row that is queued when it is inserted and
moves forward from there. A row that has ended stays as it is, except that a finished one may become
cancelled. A row remembers when it started and when it ended, and the last thing said about it.
-/

namespace Provisioning

/-- The status column of a row. -/
inductive StatusCell where
  /-- A status. -/
  | status (s : ExecutionStatus)
  /-- A text that is no status; the row cannot be read. -/
  | unreadable (text : String)
deriving DecidableEq, Repr

/-- The cell with a text. -/
def StatusCell.ofText (text : String) : StatusCell :=
  match ExecutionStatus.read? text with
  | some s => .status s
  | none => .unreadable text

/-- The text of a cell. -/
def StatusCell.text : StatusCell → String
  | status s => s.text
  | unreadable text => text

/-- A time column of a row. -/
inductive TimeCell where
  /-- A time. -/
  | time (t : Timestamp)
  /-- A text that is no time; the row cannot be read. -/
  | unreadable (text : String) (fault : TimeFault)
deriving DecidableEq, Repr

/-- The cell with a text. -/
def TimeCell.ofText (text : String) : TimeCell :=
  match Timestamp.read text with
  | .ok t => .time t
  | .error fault => .unreadable text fault

/-- A row with an identifier and data of its own. -/
structure Record (α : Type) where
  /-- The identifier. -/
  id : String
  /-- What the row is about. -/
  data : α
  /-- Its status. -/
  status : StatusCell := .status .queued
  /-- The last thing said about it. -/
  detail : Option String := none
  /-- When it started. -/
  startedAt : Option TimeCell := none
  /-- When it ended. -/
  finishedAt : Option TimeCell := none
deriving DecidableEq, Repr

namespace Record

variable {α : Type}

/-- Whether a row in one status may move to another one: a row that has not ended may, and a
finished one may become cancelled. No row goes back to the queue. -/
def permits (current next : ExecutionStatus) : Bool :=
  next != .queued &&
    (!current.isTerminal ||
      (current == .finished && (next == .cancelled || next == .cancellationFailed)))

/-- The row after it has moved to a status, if it may. -/
def advance? (now : Timestamp) (next : ExecutionStatus) (detail : Option String) (r : Record α) :
    Option (Record α) :=
  match r.status with
  | .unreadable _ => none
  | .status current =>
    if permits current next then
      some { r with
        status := .status next
        detail := detail.or r.detail
        startedAt := if next = .inProgress then some (.time now) else r.startedAt
        finishedAt := if next = .inProgress then r.finishedAt else some (.time now) }
    else
      none

end Record

/-- Rows in the order in which they were inserted. -/
abbrev Table (α : Type) := List (Record α)

namespace Table

variable {α : Type}

/-- The row with an identifier. -/
def find? (t : Table α) (id : String) : Option (Record α) := List.find? (·.id = id) t

/-- The table with one more row, unless there is one with its identifier. -/
def insert? (t : Table α) (id : String) (data : α) : Option (Table α) :=
  if (t.find? id).isSome then none else some (t ++ [{ id := id, data := data }])

/-- The table after the row with an identifier has changed. -/
def modify (t : Table α) (id : String) (f : Record α → Record α) : Table α :=
  t.map fun r => if r.id = id then f r else r

/-- The table after the row with an identifier has moved to a status, and whether it has. -/
def advance (now : Timestamp) (id : String) (next : ExecutionStatus) (detail : Option String)
    (t : Table α) : Bool × Table α :=
  match (t.find? id).bind (Record.advance? now next detail) with
  | some r => (true, t.modify id fun _ => r)
  | none => (false, t)

end Table

end Provisioning
