import Provisioning.Data.Basic
import Provisioning.Flow.Report

/-!
# Reports as data

A status is written as its word. An outcome is the word `Finished`, or a table that names the other
outcomes and gives what is said about them. Reports are records.
-/

namespace Provisioning

/-- Reads a status. -/
def ExecutionStatus.ofData? (d : Data) : Option ExecutionStatus := do read? (← d.text?)

/-- The outcome as data. -/
def StageOutcome.toData : StageOutcome → Data
  | finished => .text "Finished"
  | failed detail => .table [("Failed", .text detail)]
  | cancelled detail => .table [("Cancelled", .text detail)]
  | cancellationFailed detail => .table [("CancellationFailed", .text detail)]
  | skipped detail => .table [("Skipped", .text detail)]

/-- Reads an outcome. -/
def StageOutcome.ofData? : Data → Option StageOutcome
  | .text "Finished" => some finished
  | .table [("Finished", .null)] => some finished
  | .table [("Failed", .text detail)] => some (failed detail)
  | .table [("Cancelled", .text detail)] => some (cancelled detail)
  | .table [("CancellationFailed", .text detail)] => some (cancellationFailed detail)
  | .table [("Skipped", .text detail)] => some (skipped detail)
  | _ => none

theorem StageOutcome.ofData?_toData (o : StageOutcome) : ofData? o.toData = some o := by
  cases o <;> rfl

/-- The entry as data. -/
def StageReport.toData (r : StageReport) : Data :=
  .table [("stage_id", .text r.stageId), ("status", .text r.status.text),
    ("detail", .text r.detail)]

/-- Reads an entry. -/
def StageReport.ofData? (d : Data) : Option StageReport := do
  match ← d.record? [["stage_id"], ["status"], ["detail"]] with
  | [some stageId, some status, some detail] =>
    return {
      stageId := ← stageId.text?
      status := ← ExecutionStatus.ofData? status
      detail := ← detail.text? }
  | _ => none

/-- Reads a report. -/
def FlowReport.ofData? (d : Data) : Option FlowReport := do
  match ← d.record? [["flow_id"], ["status"], ["stages"]] with
  | [some flowId, some status, some stages] =>
    return {
      flowId := ← flowId.text?
      status := ← ExecutionStatus.ofData? status
      stages := ← (← stages.list?).mapM StageReport.ofData? }
  | _ => none

end Provisioning
