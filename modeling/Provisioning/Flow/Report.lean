import Provisioning.Flow.Status
import Provisioning.Text.Split

/-!
# Reports of flows

A report lists, in the order of events, the stages that failed or were rolled back and the flows
that were skipped.
-/

namespace Provisioning

/-- How a stage ended. -/
inductive StageOutcome where
  /-- It did its work. -/
  | finished
  /-- Its work failed. -/
  | failed (detail : String)
  /-- Its work was undone. -/
  | cancelled (detail : String)
  /-- Undoing its work failed. -/
  | cancellationFailed (detail : String)
  /-- It was not run. -/
  | skipped (detail : String)
deriving DecidableEq, Repr

namespace StageOutcome

/-- The status of a stage that ended so. -/
def status : StageOutcome → ExecutionStatus
  | finished => .finished
  | failed _ => .failed
  | cancelled _ => .cancelled
  | cancellationFailed _ => .cancellationFailed
  | skipped _ => .skipped

/-- What is said about the end; nothing about a finished stage. -/
def detail : StageOutcome → String
  | finished => ""
  | failed detail | cancelled detail | cancellationFailed detail | skipped detail => detail

/-- The outcome of a status; a status without an outcome of its own counts as finished. -/
def ofStatus (status : ExecutionStatus) (detail : String) : StageOutcome :=
  match status with
  | .failed => failed detail
  | .cancelled => cancelled detail
  | .cancellationFailed => cancellationFailed detail
  | .skipped => skipped detail
  | _ => finished

end StageOutcome

/-- An entry of a report. -/
structure StageReport where
  /-- The path of the stage or the flow. -/
  stageId : String
  /-- Its status. -/
  status : ExecutionStatus
  /-- What is said about it. -/
  detail : String
deriving DecidableEq, Repr

namespace StageReport

/-- The entry of an outcome. -/
def ofOutcome (stageId : String) (outcome : StageOutcome) : StageReport :=
  { stageId, status := outcome.status, detail := outcome.detail }

/-- The outcome of an entry. -/
def outcome (r : StageReport) : StageOutcome := .ofStatus r.status r.detail

theorem outcome_ofOutcome (stageId : String) (o : StageOutcome) :
    (ofOutcome stageId o).outcome = o := by cases o <;> rfl

/-- An entry on one line. -/
def text (r : StageReport) : String := s!"{r.stageId}: {r.detail}"

end StageReport

/-- The report of a flow. -/
structure FlowReport where
  /-- The flow. -/
  flowId : String
  /-- Its status. -/
  status : ExecutionStatus
  /-- Failures, rollbacks and skipped flows in the order in which they happened. -/
  stages : List StageReport
deriving DecidableEq, Repr

/-- The three ways in which a flow does not succeed. -/
inductive FlowFailureKind where
  /-- A node failed. -/
  | execution
  /-- A node failed, and all was undone. -/
  | cancelled
  /-- A node failed, and not all could be undone. -/
  | cancellationFailed
deriving DecidableEq, Repr

/-- A flow that did not succeed. -/
structure FlowFailure where
  /-- How it failed. -/
  kind : FlowFailureKind
  /-- The flow. -/
  flowId : String
  /-- The entries of its report. -/
  stages : List StageReport
deriving DecidableEq, Repr

namespace FlowFailure

/-- The status of a flow that failed so. -/
def status (f : FlowFailure) : ExecutionStatus :=
  match f.kind with
  | .execution => .failed
  | .cancelled => .cancelled
  | .cancellationFailed => .cancellationFailed

/-- What is said about the failure, with all entries of the report. -/
def message (f : FlowFailure) : String :=
  let what := match f.kind with
    | .execution => "failed"
    | .cancelled => "was cancelled"
    | .cancellationFailed => "cancellation failed"
  s!"Flow {f.flowId} {what}: " ++ Text.join "; " (f.stages.map (·.text))

end FlowFailure

namespace FlowReport

/-- Whether the flow ended without a failure. -/
def isSuccess (r : FlowReport) : Bool := !r.status.isFailure

/-- The entries with a status. -/
def withStatus (r : FlowReport) (status : ExecutionStatus) : List StageReport :=
  r.stages.filter (·.status = status)

/-- The failure that the report tells of. A flow that has not ended counts as failed. -/
def failure? (r : FlowReport) : Option FlowFailure :=
  match r.status with
  | .finished | .skipped => none
  | .cancelled => some { kind := .cancelled, flowId := r.flowId, stages := r.stages }
  | .cancellationFailed =>
    some { kind := .cancellationFailed, flowId := r.flowId, stages := r.stages }
  | .failed | .queued | .inProgress =>
    some { kind := .execution, flowId := r.flowId, stages := r.stages }

end FlowReport

end Provisioning
