/-!
# Status of flows and stages

A flow or a stage is queued, then in progress, then in one of the terminal statuses. A finished one
may still be cancelled when an enclosing flow is rolled back.
-/

namespace Provisioning

/-- The status of a flow or a stage. -/
inductive ExecutionStatus where
  /-- Announced. -/
  | queued
  /-- Running. -/
  | inProgress
  /-- Done. -/
  | finished
  /-- Ended by an error. -/
  | failed
  /-- Never run. -/
  | skipped
  /-- Undone. -/
  | cancelled
  /-- Not undone, though it should have been. -/
  | cancellationFailed
deriving DecidableEq, Repr

namespace ExecutionStatus

/-- The word for the status. -/
def text : ExecutionStatus → String
  | queued => "QUEUED"
  | inProgress => "IN_PROGRESS"
  | finished => "FINISHED"
  | failed => "FAILED"
  | skipped => "SKIPPED"
  | cancelled => "CANCELLED"
  | cancellationFailed => "CANCELLATION_FAILED"

/-- The status that a word names. -/
def read? : String → Option ExecutionStatus
  | "QUEUED" => some queued
  | "IN_PROGRESS" => some inProgress
  | "FINISHED" => some finished
  | "FAILED" => some failed
  | "SKIPPED" => some skipped
  | "CANCELLED" => some cancelled
  | "CANCELLATION_FAILED" => some cancellationFailed
  | _ => none

theorem read?_text (s : ExecutionStatus) : read? s.text = some s := by cases s <;> rfl

/-- Whether the status is an end. -/
def isTerminal : ExecutionStatus → Bool
  | queued | inProgress => false
  | _ => true

/-- Whether the status counts as a failure for the enclosing flow. -/
def isFailure : ExecutionStatus → Bool
  | failed | cancelled | cancellationFailed => true
  | _ => false

end ExecutionStatus

/-- What a flow does when one of its nodes fails. -/
inductive ExecutionStrategy where
  /-- Stop, and undo what was done, last first. -/
  | cancelOnError
  /-- Go on with the next node. -/
  | ignoreOnError
deriving DecidableEq, Repr

namespace ExecutionStrategy

/-- The word for the strategy. -/
def text : ExecutionStrategy → String
  | cancelOnError => "CANCEL_ON_ERROR"
  | ignoreOnError => "IGNORE_ON_ERROR"

/-- The strategy that a word names. -/
def read? : String → Option ExecutionStrategy
  | "CANCEL_ON_ERROR" => some cancelOnError
  | "IGNORE_ON_ERROR" => some ignoreOnError
  | _ => none

end ExecutionStrategy

end Provisioning
