import Provisioning.Store.Basic

/-!
# What the store tells about flows

A query gives whole records: a flow with the flows of its applications, and those with their stages
if they are asked for. A row whose status or one of whose times is unreadable cannot be told of.
-/

namespace Provisioning

/-- A stage, as the store tells of it. -/
structure StageRecord where
  /-- The path. -/
  id : String
  /-- What it is about. -/
  data : StageData
  /-- Its status. -/
  status : ExecutionStatus
  /-- The last thing said about it. -/
  detail : Option String
  /-- When it started. -/
  startedAt : Option Timestamp
  /-- When it ended. -/
  finishedAt : Option Timestamp
deriving DecidableEq, Repr

/-- The flow of an application, as the store tells of it. -/
structure ApplicationFlowRecord where
  /-- The identifier. -/
  id : String
  /-- What it is about. -/
  data : ApplicationFlowData
  /-- Its status. -/
  status : ExecutionStatus
  /-- When it started. -/
  startedAt : Option Timestamp
  /-- When it ended. -/
  finishedAt : Option Timestamp
  /-- Its stages, if they were asked for. -/
  stages : List StageRecord := []
deriving DecidableEq, Repr

/-- A flow, as the store tells of it. -/
structure FlowRecord where
  /-- The identifier. -/
  id : String
  /-- What it is about. -/
  data : FlowData
  /-- Its status. -/
  status : ExecutionStatus
  /-- When it started. -/
  startedAt : Option Timestamp
  /-- When it ended. -/
  finishedAt : Option Timestamp
  /-- The flows of its applications, if they were asked for. -/
  applicationFlows : List ApplicationFlowRecord := []
deriving DecidableEq, Repr

/-- The status in a column, counted from zero. -/
def StatusCell.read (column : Nat) : StatusCell → Except StoreError ExecutionStatus
  | status s => .ok s
  | unreadable text => .error (.unreadableStatus column text)

/-- The time in a column, counted from zero. -/
def TimeCell.read (column : Nat) : TimeCell → Except StoreError Timestamp
  | time t => .ok t
  | unreadable _ fault => .error (.unreadableTime column fault)

namespace Store

/-- The record of the row of a stage, whose fourth column is the status; the last two are times. -/
def readStage (r : Record StageData) : Except StoreError StageRecord := do
  return {
    id := r.id, data := r.data, status := ← r.status.read 3, detail := r.detail
    startedAt := ← r.startedAt.mapM (·.read 5), finishedAt := ← r.finishedAt.mapM (·.read 6) }

/-- The record of the row of the flow of an application, whose sixth column is the status; the last
two are times. -/
def readApplicationFlow (r : Record ApplicationFlowData) :
    Except StoreError ApplicationFlowRecord := do
  return {
    id := r.id, data := r.data, status := ← r.status.read 5
    startedAt := ← r.startedAt.mapM (·.read 6), finishedAt := ← r.finishedAt.mapM (·.read 7) }

/-- The record of the row of a flow, whose fourth column is the status; the last two are times. -/
def readFlow (r : Record FlowData) : Except StoreError FlowRecord := do
  return {
    id := r.id, data := r.data, status := ← r.status.read 3
    startedAt := ← r.startedAt.mapM (·.read 4), finishedAt := ← r.finishedAt.mapM (·.read 5) }

/-- The stages of a flow, in the order in which they were announced. -/
def findStages (s : Store) (flowId : String) : Except StoreError (List StageRecord) :=
  (s.stages.filter (·.data.flowId = flowId)).mapM readStage

/-- The record with its stages, if they are asked for. -/
def withStages (s : Store) (includeStages : Bool) (r : ApplicationFlowRecord) :
    Except StoreError ApplicationFlowRecord :=
  if includeStages then (s.findStages r.id).map fun stages => { r with stages } else .ok r

/-- The flow of an application. -/
def findApplicationFlow (s : Store) (id : String) (includeStages : Bool) :
    Except StoreError (Option ApplicationFlowRecord) :=
  match s.applicationFlows.find? id with
  | none => .ok none
  | some row => do
    return some (← s.withStages includeStages (← readApplicationFlow row))

/-- The flows of the applications of a tenant, of one application or of all, in the order in which
they were announced. -/
def findApplicationFlows (s : Store) (tenantId : String) (applicationId : Option String) :
    Except StoreError (List ApplicationFlowRecord) :=
  (s.applicationFlows.filter fun r =>
    r.data.tenantId == tenantId && applicationId.all (r.data.applicationId == ·)).mapM
      readApplicationFlow

/-- The flows of the applications of a flow, in the order in which they were announced. -/
def findApplicationFlowsByFlow (s : Store) (flowId : String) (includeStages : Bool) :
    Except StoreError (List ApplicationFlowRecord) := do
  let records ← (s.applicationFlows.filter (·.data.flowId = flowId)).mapM readApplicationFlow
  records.mapM (s.withStages includeStages)

/-- A flow with the flows of its applications. -/
def findFlow (s : Store) (id : String) (includeStages : Bool) :
    Except StoreError (Option FlowRecord) :=
  match s.flows.find? id with
  | none => .ok none
  | some row => do
    let record ← readFlow row
    let applicationFlows ← s.findApplicationFlowsByFlow id includeStages
    return some { record with applicationFlows }

/-- The flows of a tenant, the latest first, at most as many as asked for. -/
def findFlowsByTenant (s : Store) (tenantId : String) (limit : Nat) :
    Except StoreError (List FlowRecord) :=
  ((s.flows.filter (·.data.tenantId = tenantId)).reverse.take limit).mapM readFlow

end Store

end Provisioning
