import Provisioning.Entitlement.FlowPlan

/-!
# Flow plans as data

A flow is written as a tree: a flow with its nodes, a parallel group with its children, a stage with
its name. All stages of entitlement flows can be cancelled.
-/

namespace Provisioning

/-- A flow without its nodes as entries of a table. -/
def FlowHeader.toEntries (h : FlowHeader) : List (String × Data) :=
  [("flow", .text h.id), ("strategy", .text h.strategy.text), ("params", .table h.params.entries),
    ("skip", .ofText? h.skipReason)]

namespace EntitlementStage

mutual

/-- A node as data. -/
def nodeToData : FlowNode EntitlementStage → Data
  | .stage s => .table [("stage", .text s.name), ("cancellable", .bool true)]
  | .flow h nodes => .table (h.toEntries ++ [("nodes", .list (nodesToData nodes))])
  | .parallel name children =>
    .table [("parallel", .text name), ("children", .list (nodesToData children))]

/-- Nodes as data. -/
def nodesToData : List (FlowNode EntitlementStage) → List Data
  | [] => []
  | node :: rest => nodeToData node :: nodesToData rest

end

end EntitlementStage

/-- The flow of an application as data. -/
def ApplicationFlowRef.toData (r : ApplicationFlowRef) : Data :=
  .table [("application_id", .text r.applicationId), ("flow_id", .text r.flowId),
    ("entitlement_type", .text r.type.text), ("skipped", .bool r.skipped)]

/-- The plan as data: the tree, the flows of applications in it and the number of stages. -/
def FlowPlan.toData (p : FlowPlan) : Data :=
  .table [
    ("tree", EntitlementStage.nodeToData (.flow p.flow.header p.flow.nodes)),
    ("application_flows", .list (p.applicationFlows.map (·.toData))),
    ("stage_count", .ofNat p.flow.stageCount)]

end Provisioning
