import Provisioning.Data.Basic
import Provisioning.Store.Query

/-!
# Records as data

A record is written with what it holds. Of times only is written whether they are set.
-/

namespace Provisioning

/-- The stage as data. -/
def StageRecord.toData (r : StageRecord) : Data :=
  .table [("id", .text r.id), ("flow_id", .text r.data.flowId), ("name", .text r.data.name),
    ("status", .text r.status.text), ("detail", .ofText? r.detail),
    ("started", .bool r.startedAt.isSome), ("finished", .bool r.finishedAt.isSome)]

/-- The flow of an application as data. -/
def ApplicationFlowRecord.toData (r : ApplicationFlowRecord) : Data :=
  .table [("id", .text r.id), ("flow_id", .text r.data.flowId),
    ("tenant_id", .text r.data.tenantId), ("application_id", .text r.data.applicationId),
    ("type", .text r.data.type), ("status", .text r.status.text),
    ("started", .bool r.startedAt.isSome), ("finished", .bool r.finishedAt.isSome),
    ("stages", .list (r.stages.map (·.toData)))]

/-- The flow as data. -/
def FlowRecord.toData (r : FlowRecord) : Data :=
  .table [("id", .text r.id), ("tenant_id", .text r.data.tenantId), ("type", .text r.data.type),
    ("status", .text r.status.text), ("started", .bool r.startedAt.isSome),
    ("finished", .bool r.finishedAt.isSome),
    ("application_flows", .list (r.applicationFlows.map (·.toData)))]

end Provisioning
