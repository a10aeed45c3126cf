import Provisioning.Flow.Basic

/-!
# Events of a run

A run tells what happens to its flows and stages, each identified by its place in the tree.
-/

namespace Provisioning

/-- A flow within a run. -/
structure FlowInfo where
  /-- The flow. -/
  id : String
  /-- The flow around it; the outermost flow has none. -/
  parentId : Option String
  /-- The outermost flow. -/
  rootId : String
  /-- The parameters that the flow sees. -/
  scope : Scope

namespace FlowInfo

/-- Whether the flow is the outermost one. -/
def isRoot (info : FlowInfo) : Bool := info.parentId.isNone

/-- The outermost flow of a run. -/
def root (header : FlowHeader) : FlowInfo :=
  { id := header.id, parentId := none, rootId := header.id, scope := [header.params] }

/-- A flow nested in another one. -/
def child (info : FlowInfo) (header : FlowHeader) : FlowInfo :=
  { id := header.id, parentId := some info.id, rootId := info.rootId
    scope := header.params :: info.scope }

end FlowInfo

/-- A stage within a run. -/
structure StageInfo where
  /-- The path. -/
  id : String
  /-- The name. -/
  name : String
  /-- The innermost flow around the stage. -/
  flowId : String
  /-- The outermost flow. -/
  rootId : String
deriving DecidableEq, Repr

/-- The stage of a name in a flow, below a path. -/
def FlowInfo.stage (info : FlowInfo) (path name : String) : StageInfo :=
  { id := FlowNode.childPath path name, name, flowId := info.id, rootId := info.rootId }

/-- Something that happens in a run. -/
inductive Event where
  /-- A flow is announced, before anything runs. -/
  | flowQueued (flow : FlowInfo)
  /-- A stage is announced, before anything runs. -/
  | stageQueued (stage : StageInfo)
  /-- A flow starts. -/
  | flowStart (flow : FlowInfo)
  /-- A flow ends. A finished flow ends once more when a flow around it is rolled back. -/
  | flowFinish (flow : FlowInfo) (status : ExecutionStatus)
  /-- A stage starts. -/
  | stageStart (stage : StageInfo)
  /-- A stage has done its work. -/
  | stageSuccess (stage : StageInfo)
  /-- A stage has failed. -/
  | stageError (stage : StageInfo) (detail : String)
  /-- A stage was cancelled, or its cancellation failed. -/
  | stageRollback (stage : StageInfo) (status : ExecutionStatus) (detail : String)
  /-- A stage will not run. -/
  | stageSkipped (stage : StageInfo) (reason : String)

variable {α : Type} [Named α]

namespace FlowNode

mutual

/-- Announces a node and everything below it. -/
def announce (info : FlowInfo) (path : String) : FlowNode α → List Event
  | stage s => [.stageQueued (info.stage path (Named.name s))]
  | flow header nodes =>
    .flowQueued (info.child header) ::
      announceAll (info.child header) (childPath path header.id) nodes
  | parallel name children => announceAll info (childPath path name) children

/-- Announces nodes and everything below them. -/
def announceAll (info : FlowInfo) (path : String) : List (FlowNode α) → List Event
  | [] => []
  | node :: rest => announce info path node ++ announceAll info path rest

end

mutual

/-- Skips a node and everything below it. -/
def skip (info : FlowInfo) (path reason : String) : FlowNode α → List Event
  | stage s => [.stageSkipped (info.stage path (Named.name s)) reason]
  | flow header nodes =>
    skipAll (info.child header) (childPath path header.id) reason nodes
      ++ [.flowFinish (info.child header) .skipped]
  | parallel name children => skipAll info (childPath path name) reason children

/-- Skips nodes and everything below them. -/
def skipAll (info : FlowInfo) (path reason : String) : List (FlowNode α) → List Event
  | [] => []
  | node :: rest => skip info path reason node ++ skipAll info path reason rest

end

end FlowNode

/-- Announces a flow and everything below it. -/
def Flow.announce (f : Flow α) : List Event :=
  .flowQueued (FlowInfo.root f.header) ::
    FlowNode.announceAll (FlowInfo.root f.header) f.id f.nodes

end Provisioning
