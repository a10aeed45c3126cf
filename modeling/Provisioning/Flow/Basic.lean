import Provisioning.Flow.Params
import Provisioning.Flow.Status

/-!
# Flows

A flow is a tree. Its leaves are stages; its inner nodes are nested flows, whose nodes run one
after another and which have parameters and a strategy of their own, and parallel groups, whose
children are independent of each other. The path of a node is the path of its parent, a slash and
its own name.

The leaves may be of any type with names: a flow is built of descriptions of stages, and run after
each description has been replaced by what it stands for (`Flow.map`).
-/

namespace Provisioning

/-- What has a name. -/
class Named (α : Type) where
  /-- The name. -/
  name : α → String

/-- A flow without its nodes. -/
structure FlowHeader where
  /-- The identifier, which is also the name. -/
  id : String
  /-- What happens when a node fails. -/
  strategy : ExecutionStrategy := .cancelOnError
  /-- The parameters of the flow itself. -/
  params : Params := .empty
  /-- Why the flow is not to be run, if it is not. -/
  skipReason : Option String := none

/-- A node of a flow. -/
inductive FlowNode (α : Type) where
  /-- A stage. -/
  | stage (stage : α)
  /-- A nested flow. -/
  | flow (header : FlowHeader) (nodes : List (FlowNode α))
  /-- A group of independent children. -/
  | parallel (name : String) (children : List (FlowNode α))

/-- A flow with its nodes. -/
structure Flow (α : Type) where
  /-- The flow itself. -/
  header : FlowHeader
  /-- Its nodes, in the order in which they run. -/
  nodes : List (FlowNode α)

variable {α β : Type}

namespace FlowNode

/-- The path of a child. -/
def childPath (path name : String) : String := path ++ "/" ++ name

mutual

/-- The node with each stage replaced. -/
def map (f : α → β) : FlowNode α → FlowNode β
  | stage s => stage (f s)
  | flow header nodes => flow header (mapAll f nodes)
  | parallel name children => parallel name (mapAll f children)

/-- The nodes with each stage replaced. -/
def mapAll (f : α → β) : List (FlowNode α) → List (FlowNode β)
  | [] => []
  | node :: rest => map f node :: mapAll f rest

end

variable [Named α]

mutual

/-- The paths of the stages of a node below a path, in order. -/
def stagePaths (path : String) : FlowNode α → List String
  | stage s => [childPath path (Named.name s)]
  | flow header nodes => stagePathsOf (childPath path header.id) nodes
  | parallel name children => stagePathsOf (childPath path name) children

/-- The paths of the stages of nodes below a path, in order. -/
def stagePathsOf (path : String) : List (FlowNode α) → List String
  | [] => []
  | node :: rest => stagePaths path node ++ stagePathsOf path rest

end

end FlowNode

namespace Flow

/-- The identifier of the flow. -/
def id (f : Flow α) : String := f.header.id

/-- The flow with each stage replaced. -/
def map (f : Flow α) (g : α → β) : Flow β :=
  { header := f.header, nodes := FlowNode.mapAll g f.nodes }

variable [Named α]

/-- The paths of all stages, in order. -/
def stagePaths (f : Flow α) : List String := FlowNode.stagePathsOf f.id f.nodes

/-- The number of stages. -/
def stageCount (f : Flow α) : Nat := f.stagePaths.length

end Flow

end Provisioning
