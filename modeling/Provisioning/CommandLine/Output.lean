import Provisioning.Display.Line
import Provisioning.Entitlement.FlowPlan
import Provisioning.Flow.Report
import Provisioning.Store.Query

/-!
# What commands print

Each kind of thing that commands tell about has its lines.
-/

namespace Provisioning.Output

/-- The number of characters that types take in a column. -/
def typeWidth : Nat := 8

/-- A type in its column. -/
def typeColumn (type : String) : String := Text.padRight typeWidth type

/-! ## Runs -/

/-- The flows of applications of a run. -/
def applicationFlows : List ApplicationFlowRef → List Line
  | [] => []
  | refs =>
    let line (r : ApplicationFlowRef) : Line :=
      .plain (s!"  {typeColumn r.type.text} {r.applicationId} {r.flowId}"
        ++ if r.skipped then " (skipped)" else "")
    Line.part "Applications" ++ refs.map line

/-- What came of a run; its stages are told when it failed, or when more shall be told. -/
def summary (verbose : Bool) (r : FlowReport) : List Line :=
  if r.isSuccess then
    let stages := r.stages.map fun s => Line.dim s!"  {s.stageId} {s.detail}"
    [.empty, .success s!"Flow {r.flowId} {r.status.text}"] ++ if verbose then stages else []
  else
    let stages := (r.stages.filter (·.status != .finished)).map fun s =>
      Line.plain s!"  {s.status.icon} {s.stageId} {s.detail}"
    [.empty] ++ Line.part "Stages" ++ stages ++ [.empty]

/-! ## Plans -/

/-- What a plan changes. -/
def plan (p : TransitionPlan) : List Line :=
  p.entitleIds.map (fun id => Line.plain s!"  + {id}")
    ++ p.upgradePairs.map (fun (next, installed) => Line.plain s!"  ~ {next} (from {installed})")
    ++ p.revokeIds.map (fun id => Line.plain s!"  - {id}")
    ++ if p.isEmpty then [] else [.empty, .field "Changes" (.text (toString p.size))]

/-! ## Records -/

/-- A stage. -/
def stage (r : StageRecord) : Line :=
  [.text s!"  {r.status.icon} {r.data.name} ", .duration r.startedAt r.finishedAt,
    .text (" " ++ r.detail.getD "")]

/-- The flow of an application, with its stages. -/
def applicationFlow (r : ApplicationFlowRecord) : List Line :=
  [.text s!"  {r.status.icon} {typeColumn r.data.type} {r.data.applicationId} {r.id} ",
    .duration r.startedAt r.finishedAt] :: r.stages.map fun s => .text "    " :: stage s

/-- The flow of an application by itself. -/
def applicationFlowDetails (r : ApplicationFlowRecord) : List Line :=
  Line.header s!"Application flow {r.id}" ++
    [.field "Flow" (.text r.data.flowId), .field "Tenant" (.text r.data.tenantId),
      .field "Application" (.text r.data.applicationId), .field "Type" (.text r.data.type),
      .field "Status" (.text r.status.text),
      .field "Duration" (.duration r.startedAt r.finishedAt)]
    ++ if r.stages.isEmpty then [] else Line.part "Stages" ++ r.stages.map stage

/-- A flow by itself. -/
def flowDetails (r : FlowRecord) : List Line :=
  Line.header s!"Flow {r.id}" ++
    [.field "Tenant" (.text r.data.tenantId), .field "Type" (.text r.data.type),
      .field "Status" (.text r.status.text), .field "Started" (.time r.startedAt),
      .field "Duration" (.duration r.startedAt r.finishedAt)]
    ++ if r.applicationFlows.isEmpty then []
      else Line.part "Applications" ++ r.applicationFlows.flatMap applicationFlow

/-- A flow in a list. -/
def flow (r : FlowRecord) : Line :=
  [.text s!"  {r.status.icon} {typeColumn r.data.type} {r.id} ", .time r.startedAt]

/-- What is said of an empty list of flows. -/
def noFlows : Line := .dim "No flows recorded"

/-- The entitlements of a tenant. -/
def entitlements (tenantId : String) (found : List (String × Timestamp)) : List Line :=
  let line (e : String × Timestamp) : Line := [.text s!"  {e.1} ", .time (some e.2)]
  Line.header s!"Entitlements of {tenantId}" ++
    if found.isEmpty then [.dim "No applications entitled"]
    else found.map line ++ [.empty, .field "Total" (.text (toString found.length))]

end Provisioning.Output
