import Provisioning.Proofs.Flow.Seats

/-!
# Which stages belong to which flow

A stage belongs to the innermost flow around it, however many groups lie between. The flows of a
tree and the stages of each, as the tree lists them, are those that the announcements tell of.
-/

namespace Provisioning

variable {α : Type}

namespace FlowNode

variable [Named α]

mutual

/-- The paths of the stages of a node that belong to the flow around it. -/
def ownStages (path : String) : FlowNode α → List String
  | stage s => [childPath path (Named.name s)]
  | flow .. => []
  | parallel name children => ownStagesIn (childPath path name) children

/-- The paths of the stages of nodes that belong to the flow around them. -/
def ownStagesIn (path : String) : List (FlowNode α) → List String
  | [] => []
  | node :: rest => ownStages path node ++ ownStagesIn path rest

end

mutual

/-- The flows of a node, each before those in it, with the paths of its own stages. -/
def nestedFlows (path : String) : FlowNode α → List (String × List String)
  | stage _ => []
  | flow header nodes =>
    (header.id, ownStagesIn (childPath path header.id) nodes) ::
      nestedFlowsIn (childPath path header.id) nodes
  | parallel name children => nestedFlowsIn (childPath path name) children

/-- The flows of nodes, each before those in it, with the paths of its own stages. -/
def nestedFlowsIn (path : String) : List (FlowNode α) → List (String × List String)
  | [] => []
  | node :: rest => nestedFlows path node ++ nestedFlowsIn path rest

end

end FlowNode

/-- The flows in a flow, each before those in it, with the paths of its own stages. -/
def Flow.nestedFlows [Named α] (f : Flow α) : List (String × List String) :=
  FlowNode.nestedFlowsIn f.id f.nodes

/-! ## Seats -/

/-- The paths of the stages that belong to a flow, of those that have a seat. -/
def stagesOf (id : String) (seats : List (Seat α)) : List String :=
  ((seats.filterMap Seat.stage?).filter (·.flowId = id)).map (·.id)

@[simp]
theorem stagesOf_append (id : String) (seats seats' : List (Seat α)) :
    stagesOf id (seats ++ seats') = stagesOf id seats ++ stagesOf id seats' := by
  simp [stagesOf]

theorem stagesOf_flow (id : String) (p : Place) (path : String) (info : FlowInfo)
    (header : FlowHeader) (nodes : List (FlowNode α)) (seats : List (Seat α)) :
    stagesOf id (.flow p path info header nodes :: seats) = stagesOf id seats := rfl

namespace FlowNode

variable [Named α]

mutual

theorem flows_seats (info : FlowInfo) (path : String) (place : Place) (node : FlowNode α) :
    ((node.seats info path place).filterMap Seat.flow?).map (·.id)
      = (node.nestedFlows path).map (·.1) := by
  cases node with
  | stage s => rfl
  | flow header nodes =>
    have ih := flows_seatsIn (info.child header) (childPath path header.id) place 0 nodes
    simp [seats, nestedFlows, Seat.flow?, FlowInfo.child, ← ih]
  | parallel name children => exact flows_seatsIn info (childPath path name) place 0 children

theorem flows_seatsIn (info : FlowInfo) (path : String) (place : Place) (i : Nat)
    (nodes : List (FlowNode α)) :
    ((seatsIn info path place i nodes).filterMap Seat.flow?).map (·.id)
      = (nestedFlowsIn path nodes).map (·.1) := by
  cases nodes with
  | nil => rfl
  | cons node rest =>
    rw [seatsIn, nestedFlowsIn, List.filterMap_append, List.map_append, List.map_append,
      flows_seats, flows_seatsIn]

end

mutual

/-- The stages of a node that belong to a flow that is not in the node: all its own stages if it is
the flow around the node, and none otherwise. -/
theorem stagesOf_seats {info : FlowInfo} {path : String} {place : Place} {node : FlowNode α}
    {id : String} (out : id ∉ (node.nestedFlows path).map (·.1)) :
    stagesOf id (node.seats info path place)
      = if info.id = id then node.ownStages path else [] := by
  cases node with
  | stage s =>
    by_cases same : info.id = id <;>
      simp [seats, ownStages, stagesOf, Seat.stage?, FlowInfo.leaf, FlowInfo.stage, same]
  | flow header nodes =>
    rw [nestedFlows, List.map_cons, List.mem_cons, not_or] at out
    rw [seats, stagesOf_flow, stagesOf_seatsIn out.2, ownStages, ite_self]
    exact if_neg (Ne.symm out.1)
  | parallel name children => exact stagesOf_seatsIn out

theorem stagesOf_seatsIn {info : FlowInfo} {path : String} {place : Place} {i : Nat}
    {nodes : List (FlowNode α)} {id : String} (out : id ∉ (nestedFlowsIn path nodes).map (·.1)) :
    stagesOf id (seatsIn info path place i nodes)
      = if info.id = id then ownStagesIn path nodes else [] := by
  cases nodes with
  | nil => simp [seatsIn, stagesOf, ownStagesIn]
  | cons node rest =>
    rw [nestedFlowsIn, List.map_append, List.mem_append, not_or] at out
    rw [seatsIn, stagesOf_append, stagesOf_seats out.1, stagesOf_seatsIn out.2, ownStagesIn]
    split <;> rfl

end

mutual

/-- If no two flows share an identifier, each flow that a node lists has the stages that belong to
it. -/
theorem stagesOf_nested {info : FlowInfo} {path : String} {place : Place} {node : FlowNode α}
    (ids : ((node.nestedFlows path).map (·.1)).Nodup)
    (around : info.id ∉ (node.nestedFlows path).map (·.1)) :
    ∀ flow ∈ node.nestedFlows path, flow.2 = stagesOf flow.1 (node.seats info path place) := by
  cases node with
  | stage s => simp [nestedFlows]
  | flow header nodes =>
    rw [nestedFlows, List.map_cons, List.nodup_cons] at ids
    rw [nestedFlows, seats, List.forall_mem_cons]
    simp only [stagesOf_flow]
    exact ⟨((stagesOf_seatsIn ids.1).trans (if_pos rfl)).symm, stagesOf_nestedIn ids.2 ids.1⟩
  | parallel name children => exact stagesOf_nestedIn ids around

theorem stagesOf_nestedIn {info : FlowInfo} {path : String} {place : Place} {i : Nat}
    {nodes : List (FlowNode α)} (ids : ((nestedFlowsIn path nodes).map (·.1)).Nodup)
    (around : info.id ∉ (nestedFlowsIn path nodes).map (·.1)) :
    ∀ flow ∈ nestedFlowsIn path nodes,
      flow.2 = stagesOf flow.1 (seatsIn info path place i nodes) := by
  cases nodes with
  | nil => simp [nestedFlowsIn]
  | cons node rest =>
    rw [nestedFlowsIn, List.map_append] at ids around
    obtain ⟨first, later, apart⟩ := List.nodup_append'.mp ids
    rw [List.mem_append, not_or] at around
    rw [nestedFlowsIn, seatsIn, List.forall_mem_append]
    constructor
    · intro flow hflow
      have mem := List.mem_map_of_mem (f := (·.1)) hflow
      rw [stagesOf_append, ← stagesOf_nested first around.1 flow hflow,
        stagesOf_seatsIn (apart mem), if_neg (ne_of_mem_of_not_mem mem around.1).symm,
        List.append_nil]
    · intro flow hflow
      have mem := List.mem_map_of_mem (f := (·.1)) hflow
      rw [stagesOf_append, ← stagesOf_nestedIn later around.2 flow hflow,
        stagesOf_seats fun h => apart h mem, if_neg (ne_of_mem_of_not_mem mem around.2).symm,
        List.nil_append]

end

mutual

/-- The flows in a node are nested in flows of the same outermost one. -/
theorem flow_of_seats {info : FlowInfo} {path : String} {place : Place} {node : FlowNode α} :
    ∀ inner ∈ (node.seats info path place).filterMap Seat.flow?,
      inner.isRoot = false ∧ inner.rootId = info.rootId := by
  cases node with
  | stage s => simp [seats, Seat.flow?]
  | flow header nodes =>
    rw [seats]
    exact List.forall_mem_cons.mpr ⟨⟨rfl, rfl⟩, flow_of_seatsIn⟩
  | parallel name children => exact flow_of_seatsIn

theorem flow_of_seatsIn {info : FlowInfo} {path : String} {place : Place} {i : Nat}
    {nodes : List (FlowNode α)} :
    ∀ inner ∈ (seatsIn info path place i nodes).filterMap Seat.flow?,
      inner.isRoot = false ∧ inner.rootId = info.rootId := by
  cases nodes with
  | nil => simp [seatsIn]
  | cons node rest =>
    rw [seatsIn, List.filterMap_append, List.forall_mem_append]
    exact ⟨flow_of_seats, flow_of_seatsIn⟩

end

mutual

theorem stages_seats (info : FlowInfo) (path : String) (place : Place) (node : FlowNode α) :
    ((node.seats info path place).filterMap Seat.stage?).map (·.id) = node.stagePaths path := by
  cases node with
  | stage s => rfl
  | flow header nodes =>
    rw [seats, List.filterMap_cons_none rfl]
    exact stages_seatsIn (info.child header) (childPath path header.id) place 0 nodes
  | parallel name children => exact stages_seatsIn info (childPath path name) place 0 children

theorem stages_seatsIn (info : FlowInfo) (path : String) (place : Place) (i : Nat)
    (nodes : List (FlowNode α)) :
    ((seatsIn info path place i nodes).filterMap Seat.stage?).map (·.id)
      = stagePathsOf path nodes := by
  cases nodes with
  | nil => rfl
  | cons node rest =>
    rw [seatsIn, stagePathsOf, List.filterMap_append, List.map_append, stages_seats,
      stages_seatsIn]

end

end FlowNode

namespace Flow

variable [Named α]

/-- The stages of a tree. -/
def stages (f : Flow α) : List StageInfo := f.seats.filterMap Seat.stage?

theorem stages_ids (f : Flow α) : f.stages.map (·.id) = f.stagePaths :=
  FlowNode.stages_seatsIn (FlowInfo.root f.header) f.id [] 0 f.nodes

/-- The flows in a flow. -/
def inner (f : Flow α) : List FlowInfo :=
  (FlowNode.seatsIn (FlowInfo.root f.header) f.id [] 0 f.nodes).filterMap Seat.flow?

/-- The flows of a tree, the flow itself first. -/
def flows (f : Flow α) : List FlowInfo := FlowInfo.root f.header :: f.inner

theorem flows_eq (f : Flow α) : f.flows = f.seats.filterMap Seat.flow? := rfl

theorem inner_ids (f : Flow α) : f.inner.map (·.id) = f.nestedFlows.map (·.1) :=
  FlowNode.flows_seatsIn (FlowInfo.root f.header) f.id [] 0 f.nodes

theorem flows_ids (f : Flow α) : f.flows.map (·.id) = f.id :: f.nestedFlows.map (·.1) := by
  rw [flows, List.map_cons, inner_ids]
  rfl

/-- If no two flows share an identifier, the flows in a flow, as the tree lists them, each have the
stages that belong to them. -/
theorem nestedFlows_eq {f : Flow α} (ids : (f.flows.map (·.id)).Nodup) :
    f.nestedFlows = (f.nestedFlows.map (·.1)).map fun id => (id, stagesOf id f.seats) := by
  rw [flows_ids, List.nodup_cons] at ids
  conv_lhs => rw [← List.map_id f.nestedFlows]
  rw [List.map_map]
  refine List.map_congr_left fun flow hflow => ?_
  have stages : flow.2
      = stagesOf flow.1 (FlowNode.seatsIn (FlowInfo.root f.header) f.id [] 0 f.nodes) :=
    FlowNode.stagesOf_nestedIn ids.2 ids.1 flow hflow
  exact Prod.ext rfl stages

end Flow

end Provisioning
