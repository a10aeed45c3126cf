import Provisioning.Data.Basic
import Provisioning.Store.Basic

/-!
# Images of the store

The image of a store is a value that holds everything in it, so that a store outlives the program.
Each row is a list of its columns. An image that no store has cannot be read.
-/

namespace Provisioning

namespace Record

variable {α : Type}

/-- A time that may be missing. -/
def timeData : Option TimeCell → Data
  | some (.time t) => .int t
  | some (.unreadable text _) => .text text
  | none => .null

/-- Reads a time. -/
def time? : Data → Option TimeCell
  | .int t => some (.time t)
  | .text s => some (.ofText s)
  | _ => none

/-- Reads a value that may be missing. -/
def optional? {β : Type} (read? : Data → Option β) : Data → Option (Option β)
  | .null => some none
  | d => (read? d).map some

/-- The columns of a row; the last ones are those of its data. -/
def toImage (columns : α → List String) (r : Record α) : Data :=
  .list ([.text r.id, .text r.status.text, .ofText? r.detail, timeData r.startedAt,
    timeData r.finishedAt] ++ (columns r.data).map .text)

/-- Reads a row. -/
def ofImage? (read? : List String → Option α) : Data → Option (Record α)
  | .list (.text id :: .text status :: detail :: startedAt :: finishedAt :: columns) => do
    return {
      id, data := ← read? (← columns.mapM Data.text?), status := .ofText status
      detail := ← optional? Data.text? detail, startedAt := ← optional? time? startedAt
      finishedAt := ← optional? time? finishedAt }
  | _ => none

end Record

namespace Table

variable {α : Type}

/-- The rows one after another. -/
def toImage (columns : α → List String) (t : Table α) : Data := .list (t.map (·.toImage columns))

/-- Reads rows, of which no two have one identifier. -/
def ofImage? (read? : List String → Option α) (d : Data) : Option (Table α) := do
  let rows ← (← d.list?).mapM (Record.ofImage? read?)
  if (rows.map (·.id)).Nodup then some rows else none

end Table

/-- The columns of a flow. -/
def FlowData.columns (d : FlowData) : List String := [d.tenantId, d.type]

/-- Reads the columns of a flow. -/
def FlowData.ofColumns? : List String → Option FlowData
  | [tenantId, type] => some { tenantId, type }
  | _ => none

/-- The columns of the flow of an application. -/
def ApplicationFlowData.columns (d : ApplicationFlowData) : List String :=
  [d.flowId, d.tenantId, d.applicationId, d.type]

/-- Reads the columns of the flow of an application. -/
def ApplicationFlowData.ofColumns? : List String → Option ApplicationFlowData
  | [flowId, tenantId, applicationId, type] => some { flowId, tenantId, applicationId, type }
  | _ => none

/-- The columns of a stage. -/
def StageData.columns (d : StageData) : List String := [d.flowId, d.name]

/-- Reads the columns of a stage. -/
def StageData.ofColumns? : List String → Option StageData
  | [flowId, name] => some { flowId, name }
  | _ => none

/-- The columns of a resource. -/
def Resource.columns (r : Resource) : List String := [r.tenantId, r.kind, r.name, r.owner]

/-- Reads the columns of a resource. -/
def Resource.ofColumns? : List String → Option Resource
  | [tenantId, kind, name, owner] => some { tenantId, kind, name, owner }
  | _ => none

namespace Store

/-- An entitlement with its time. -/
def entitlementImage (e : TenantApplication × Timestamp) : Data :=
  .list [.text e.1.tenantId, .text e.1.applicationId, .int e.2]

/-- Reads an entitlement. -/
def entitlementOfImage? : Data → Option (TenantApplication × Timestamp)
  | .list [.text tenantId, .text applicationId, .int t] => some ({ tenantId, applicationId }, t)
  | _ => none

/-- The image of a store. -/
def toImage (s : Store) : Data :=
  .table [("clock", .int s.clock), ("flows", s.flows.toImage FlowData.columns),
    ("application_flows", s.applicationFlows.toImage ApplicationFlowData.columns),
    ("stages", s.stages.toImage StageData.columns),
    ("entitlements", .list (s.entitlements.entries.map entitlementImage)),
    ("resources", .list (s.resources.toList.map (.ofTexts ·.columns)))]

/-- The store of an image. -/
def ofImage? (d : Data) : Option Store := do
  let entitlements ← (← (← d.field? "entitlements").list?).mapM entitlementOfImage?
  let resources ← (← (← d.field? "resources").list?).mapM fun r =>
    r.texts?.bind Resource.ofColumns?
  return {
    clock := ← (← d.field? "clock").int?
    flows := ← Table.ofImage? FlowData.ofColumns? (← d.field? "flows")
    applicationFlows :=
      ← Table.ofImage? ApplicationFlowData.ofColumns? (← d.field? "application_flows")
    stages := ← Table.ofImage? StageData.ofColumns? (← d.field? "stages")
    entitlements := .ofList entitlements, resources := .ofList resources }

end Store

end Provisioning
