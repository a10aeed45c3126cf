import Provisioning.Flow.Run

/-!
# Runs with places

The events of a run name stages and flows by their paths, and two nodes of a tree may have the same
path. Here each node is known by its place, the way down to it by positions, and a run is written
once more so that it tells at which place each event happens and which machine it meets. Sequences
and parallel groups are runs of a list of nodes that differ only in what they do about a failure.
Without the places the run is the one it was before (`Placed.run_forget`).
-/

namespace Provisioning

variable {α σ : Type}

/-- The place of a node in a tree: the positions on the way down to it. -/
abbrev Place := List Nat

/-- A stage at its place, with what it is told about the flows around it. -/
structure Leaf (α : Type) where
  /-- The stage. -/
  stage : α
  /-- Its path and its flows. -/
  info : StageInfo
  /-- The parameters that it sees. -/
  scope : Scope

/-- The stage as a leaf of a flow, below a path. -/
def FlowInfo.leaf [Named α] (info : FlowInfo) (path : String) (s : α) : Leaf α :=
  { stage := s, info := info.stage path (Named.name s), scope := info.scope }

namespace FlowNode

mutual

/-- The node at a place. -/
def node? : FlowNode α → Place → Option (FlowNode α)
  | node, [] => some node
  | stage _, _ :: _ => none
  | flow _ nodes, i :: rest => nodeIn? nodes i rest
  | parallel _ children, i :: rest => nodeIn? children i rest

/-- The node at a place below one of several nodes. -/
def nodeIn? : List (FlowNode α) → Nat → Place → Option (FlowNode α)
  | [], _, _ => none
  | node :: _, 0, rest => node? node rest
  | _ :: nodes, i + 1, rest => nodeIn? nodes i rest

end

variable [Named α]

mutual

/-- The stage at a place of a node, unless it is in a flow that is not to be run. -/
def leaf? (info : FlowInfo) (path : String) : FlowNode α → Place → Option (Leaf α)
  | stage s, [] => some (info.leaf path s)
  | flow header nodes, i :: rest =>
    if header.skipReason.isSome then none
    else leafIn? (info.child header) (childPath path header.id) nodes i rest
  | parallel name children, i :: rest => leafIn? info (childPath path name) children i rest
  | _, _ => none

/-- The stage at a place below one of several nodes. -/
def leafIn? (info : FlowInfo) (path : String) : List (FlowNode α) → Nat → Place → Option (Leaf α)
  | [], _, _ => none
  | node :: _, 0, rest => leaf? info path node rest
  | _ :: nodes, i + 1, rest => leafIn? info path nodes i rest

end

section

variable {leaf : Place → Option (Leaf α)} {info : FlowInfo} {path : String} {place : Place} {i : Nat}
  {node : FlowNode α} {nodes : List (FlowNode α)}
  (located : ∀ k q, leaf (place ++ (i + k) :: q) = leafIn? info path (node :: nodes) k q)

include located

theorem located_head (q : Place) : leaf (place ++ [i] ++ q) = node.leaf? info path q := by
  simpa [leafIn?] using located 0 q

theorem located_tail (k : Nat) (q : Place) :
    leaf (place ++ (i + 1 + k) :: q) = leafIn? info path nodes k q := by
  simpa [leafIn?, Nat.add_assoc, Nat.add_comm 1] using located (k + 1) q

end

end FlowNode

namespace Flow

/-- The node at a place of a flow; the flow itself is at the empty place. -/
def node? (f : Flow α) (p : Place) : Option (FlowNode α) := (FlowNode.flow f.header f.nodes).node? p

/-- The stage at a place of a flow, unless it is in a flow that is not to be run. -/
def leaf? [Named α] (f : Flow α) : Place → Option (Leaf α)
  | [] => none
  | i :: rest =>
    if f.header.skipReason.isSome then none
    else FlowNode.leafIn? (FlowInfo.root f.header) f.id f.nodes i rest

theorem located [Named α] {f : Flow α} (runs : f.header.skipReason = none) (k : Nat) (q : Place) :
    f.leaf? ([] ++ (0 + k) :: q)
      = FlowNode.leafIn? (FlowInfo.root f.header) f.id f.nodes k q := by
  simp [leaf?, runs]

end Flow

/-- An event of a run, with the place of its node and the machine that it meets. -/
structure Moment (σ : Type) where
  /-- The place of the node. -/
  place : Place
  /-- What happens. -/
  event : Event
  /-- The machine before it happens. -/
  machine : Machine σ

/-! ## Rolling back -/

namespace Placed

/-- Work that is done and may have to be undone, with the places of its nodes. -/
inductive Completed (σ : Type) where
  /-- A stage. -/
  | stage (place : Place) (leaf : Leaf (Stage σ))
  /-- A flow, with what was done in it, last first. -/
  | flow (place : Place) (info : FlowInfo) (children : List (Completed σ))
  /-- A parallel group, with what was done in it, last first. -/
  | parallel (children : List (Completed σ))

/-- What comes of undoing work. -/
structure Rollback (σ : Type) where
  /-- Whether everything was undone. -/
  complete : Bool
  /-- The entries of the report. -/
  entries : List StageReport
  /-- What happened. -/
  moments : List (Moment σ)
  /-- The machine afterwards. -/
  machine : Machine σ

namespace Rollback

/-- Nothing to undo. -/
def none (m : Machine σ) : Rollback σ :=
  { complete := true, entries := [], moments := [], machine := m }

/-- One rollback after another. -/
def andThen (first : Rollback σ) (next : Machine σ → Rollback σ) : Rollback σ :=
  let second := next first.machine
  { complete := first.complete && second.complete
    entries := first.entries ++ second.entries
    moments := first.moments ++ second.moments
    machine := second.machine }

/-- The rollback without the places. -/
def forget (r : Rollback σ) : Provisioning.Rollback σ :=
  { complete := r.complete, entries := r.entries, events := r.moments.map (·.event)
    machine := r.machine }

end Rollback

namespace Completed

/-- Cancels the stage at a place. -/
def rollbackStage (m : Machine σ) (place : Place) (leaf : Leaf (Stage σ)) : Rollback σ :=
  let r := Provisioning.Completed.rollbackStage m leaf.stage leaf.info leaf.scope
  { complete := r.complete, entries := r.entries
    moments := r.events.map fun e => { place, event := e, machine := m }
    machine := r.machine }

mutual

/-- Undoes work, last first. -/
def rollback (m : Machine σ) : Completed σ → Rollback σ
  | stage place leaf => rollbackStage m place leaf
  | flow place info children =>
    let r := rollbackAll m children
    { r with
      moments := r.moments ++
        [{ place, event := .flowFinish info (Rollback.status r.complete), machine := r.machine }] }
  | parallel children => rollbackAll m children

/-- Undoes pieces of work in the order of the list. -/
def rollbackAll (m : Machine σ) : List (Completed σ) → Rollback σ
  | [] => .none m
  | c :: rest => (rollback m c).andThen fun m => rollbackAll m rest

end

mutual

/-- The work without the places. -/
def forget : Completed σ → Provisioning.Completed σ
  | stage _ leaf => .stage leaf.stage leaf.info leaf.scope
  | flow _ info children => .flow info (forgetAll children)
  | parallel children => .parallel (forgetAll children)

/-- The pieces of work without the places. -/
def forgetAll : List (Completed σ) → List (Provisioning.Completed σ)
  | [] => []
  | c :: rest => forget c :: forgetAll rest

end

end Completed

/-! ## Running -/

/-- What comes of running a node. -/
structure NodeRun (σ : Type) where
  /-- The status of the node. -/
  status : ExecutionStatus
  /-- What was done and is not undone. -/
  completed : Option (Completed σ)
  /-- The entries of the report. -/
  entries : List StageReport
  /-- What happened. -/
  moments : List (Moment σ)
  /-- The machine afterwards. -/
  machine : Machine σ

/-- What comes of running a list of nodes. -/
structure ListRun (σ : Type) where
  /-- The statuses of the nodes that have run. -/
  statuses : List ExecutionStatus
  /-- Whether a failed node stopped the run, and if so whether everything was undone. -/
  stopped : Option Bool
  /-- What was done and is not undone, last first. -/
  completed : List (Completed σ)
  /-- The entries of the report. -/
  entries : List StageReport
  /-- What happened. -/
  moments : List (Moment σ)
  /-- The machine afterwards. -/
  machine : Machine σ

/-- What is done about a node that fails. -/
inductive OnFailure where
  /-- Everything so far is undone, and the nodes after it are skipped. -/
  | stop
  /-- The run goes on, and what the failed node leaves stays as it is. -/
  | leave
  /-- The run goes on, and what the failed node leaves counts as done. -/
  | keep
deriving DecidableEq

namespace OnFailure

/-- What a flow with the strategy does. -/
def ofStrategy : ExecutionStrategy → OnFailure
  | .cancelOnError => stop
  | .ignoreOnError => leave

/-- What counts as done of a node that has run. -/
def kept (onFailure : OnFailure) (r : NodeRun σ) : List (Completed σ) :=
  if r.status.isFailure ∧ onFailure = leave then [] else r.completed.toList

end OnFailure

mutual

/-- Skips a node and everything below it. -/
def skip (info : FlowInfo) (path reason : String) (place : Place) (m : Machine σ) :
    FlowNode (Stage σ) → List (Moment σ)
  | .stage s =>
    [{ place, event := .stageSkipped (info.stage path (Named.name s)) reason, machine := m }]
  | .flow header nodes =>
    skipAll (info.child header) (FlowNode.childPath path header.id) reason place 0 m nodes
      ++ [{ place, event := .flowFinish (info.child header) .skipped, machine := m }]
  | .parallel name children => skipAll info (FlowNode.childPath path name) reason place 0 m children

/-- Skips nodes, of which the first one is the child of a place with the position. -/
def skipAll (info : FlowInfo) (path reason : String) (place : Place) (i : Nat) (m : Machine σ) :
    List (FlowNode (Stage σ)) → List (Moment σ)
  | [] => []
  | node :: rest =>
    skip info path reason (place ++ [i]) m node ++ skipAll info path reason place (i + 1) m rest

end

/-- What comes of a stage. -/
def stageRun (info : FlowInfo) (path : String) (place : Place) (m : Machine σ) (s : Stage σ) :
    NodeRun σ :=
  let r := s.run info path m
  { status := r.status
    completed := r.completed.map fun _ => .stage place (info.leaf path s)
    entries := r.entries
    moments := r.events.map fun e => { place, event := e, machine := m }
    machine := r.machine }

/-- What comes of a flow that is not to be run. -/
def skippedRun (info : FlowInfo) (path reason : String) (place : Place)
    (nodes : List (FlowNode (Stage σ))) (m : Machine σ) : NodeRun σ :=
  { status := .skipped
    completed := none
    entries := [.ofOutcome path (.skipped s!"SKIPPED: {reason}")]
    moments := skipAll info path reason place 0 m nodes
      ++ [{ place, event := .flowFinish info .skipped, machine := m }]
    machine := m }

namespace ListRun

/-- The run of a list that starts with a node. -/
def cons (first : NodeRun σ) (rest : ListRun σ) : ListRun σ :=
  { rest with
    statuses := first.status :: rest.statuses
    entries := first.entries ++ rest.entries
    moments := first.moments ++ rest.moments }

/-- Whether a node has failed. -/
def failed (r : ListRun σ) : Bool := r.statuses.any (·.isFailure)

/-- The status of a flow whose nodes have run. -/
def flowStatus (r : ListRun σ) : ExecutionStatus :=
  match r.stopped with
  | some undone => Rollback.status undone
  | none => if r.failed then .failed else .finished

/-- What comes of a flow whose nodes have run from a machine. -/
def flow (place : Place) (info : FlowInfo) (m : Machine σ) (r : ListRun σ) : NodeRun σ :=
  { status := r.flowStatus
    completed := if r.flowStatus = .finished then some (.flow place info r.completed) else none
    entries := r.entries
    moments := { place, event := .flowStart info, machine := m } :: r.moments
      ++ [{ place, event := .flowFinish info r.flowStatus, machine := r.machine }]
    machine := r.machine }

/-- What comes of a parallel group whose children have run. -/
def group (r : ListRun σ) : NodeRun σ :=
  { status := r.statuses.foldl groupStatus .finished
    completed := if r.completed.isEmpty then none else some (.parallel r.completed)
    entries := r.entries
    moments := r.moments
    machine := r.machine }

/-- What comes of a failed node that stops a run behind work that is done: what it left is undone,
then what was done before it, and the nodes after it are skipped. -/
def stop (info : FlowInfo) (path : String) (place : Place) (i : Nat) (first : NodeRun σ)
    (completed : List (Completed σ)) (rest : List (FlowNode (Stage σ))) : ListRun σ :=
  let r := Completed.rollbackAll first.machine (first.completed.toList ++ completed)
  { statuses := [first.status]
    stopped := some (first.status != .cancellationFailed && r.complete)
    completed := []
    entries := first.entries ++ r.entries
    moments := first.moments ++ r.moments
      ++ skipAll info path skippedAfterFailure place (i + 1) r.machine rest
    machine := r.machine }

end ListRun

mutual

/-- Runs the node at a place. -/
def run (info : FlowInfo) (path : String) (place : Place) (m : Machine σ) :
    FlowNode (Stage σ) → NodeRun σ
  | .stage s => stageRun info path place m s
  | .flow header nodes =>
    let child := info.child header
    let childPath := FlowNode.childPath path header.id
    match header.skipReason with
    | some reason => skippedRun child childPath reason place nodes m
    | none =>
      (runAll (.ofStrategy header.strategy) child childPath place 0 m [] nodes).flow place child m
  | .parallel name children =>
    (runAll .keep info (FlowNode.childPath path name) place 0 m [] children).group

/-- Runs nodes one after another behind work that is done (last first); the first one is the child
of a place with the position. -/
def runAll (onFailure : OnFailure) (info : FlowInfo) (path : String) (place : Place) (i : Nat)
    (m : Machine σ) (completed : List (Completed σ)) : List (FlowNode (Stage σ)) → ListRun σ
  | [] =>
    { statuses := [], stopped := none, completed, entries := [], moments := [], machine := m }
  | node :: rest =>
    let first := run info path (place ++ [i]) m node
    if first.status.isFailure ∧ onFailure = .stop then
      .stop info path place i first completed rest
    else
      .cons first
        (runAll onFailure info path place (i + 1) first.machine
          (onFailure.kept first ++ completed) rest)

end

/-- Runs the nodes of a flow, or skips it. -/
def runFlow (info : FlowInfo) (path : String) (place : Place) (m : Machine σ) (header : FlowHeader)
    (nodes : List (FlowNode (Stage σ))) : NodeRun σ :=
  match header.skipReason with
  | some reason => skippedRun info path reason place nodes m
  | none => (runAll (.ofStrategy header.strategy) info path place 0 m [] nodes).flow place info m

theorem run_flow (info : FlowInfo) (path : String) (place : Place) (m : Machine σ)
    (header : FlowHeader) (nodes : List (FlowNode (Stage σ))) :
    run info path place m (.flow header nodes)
      = runFlow (info.child header) (FlowNode.childPath path header.id) place m header nodes := by
  rw [run, runFlow]

end Placed

namespace Flow

/-- Runs the nodes of a flow with their places. -/
def placed (f : Flow (Stage σ)) (world : σ) : Placed.NodeRun σ :=
  Placed.runFlow (FlowInfo.root f.header) f.id [] { world, results := .empty } f.header f.nodes

/-- What happens in a run of a flow after the announcement. -/
def moments (f : Flow (Stage σ)) (world : σ) : List (Moment σ) := (f.placed world).moments

end Flow

/-! ## Without the places -/

namespace Placed

namespace Completed

@[simp]
theorem forgetAll_append (cs ds : List (Completed σ)) :
    forgetAll (cs ++ ds) = forgetAll cs ++ forgetAll ds := by
  induction cs with
  | nil => rfl
  | cons c rest ih => simp [forgetAll, ih]

theorem forgetAll_isEmpty (cs : List (Completed σ)) : (forgetAll cs).isEmpty = cs.isEmpty := by
  cases cs <;> rfl

theorem forgetAll_toList (c : Option (Completed σ)) :
    forgetAll c.toList = (c.map forget).toList := by
  cases c <;> rfl

theorem rollbackStage_forget (m : Machine σ) (place : Place) (leaf : Leaf (Stage σ)) :
    (rollbackStage m place leaf).forget
      = Provisioning.Completed.rollbackStage m leaf.stage leaf.info leaf.scope := by
  simp [rollbackStage, Rollback.forget, Function.comp_def]

mutual

theorem rollback_forget (m : Machine σ) (c : Completed σ) :
    (rollback m c).forget = Provisioning.Completed.rollback m c.forget := by
  cases c with
  | stage place leaf =>
    simpa [rollback, forget, Provisioning.Completed.rollback] using rollbackStage_forget m place leaf
  | flow place info children =>
    have ih := rollbackAll_forget m children
    simp [rollback, forget, Provisioning.Completed.rollback, ← ih, Rollback.forget]
  | parallel children =>
    simpa [rollback, forget, Provisioning.Completed.rollback] using rollbackAll_forget m children

theorem rollbackAll_forget (m : Machine σ) (cs : List (Completed σ)) :
    (rollbackAll m cs).forget = Provisioning.Completed.rollbackAll m (forgetAll cs) := by
  cases cs with
  | nil => rfl
  | cons c rest =>
    have first := rollback_forget m c
    have second := rollbackAll_forget (rollback m c).machine rest
    simp only [rollbackAll, forgetAll, Provisioning.Completed.rollbackAll, ← first]
    simp only [Provisioning.Rollback.andThen, Rollback.andThen]
    rw [show (rollback m c).forget.machine = (rollback m c).machine from rfl, ← second]
    simp [Rollback.forget]

end

end Completed

/-- The run of a node without the places. -/
def NodeRun.forget (r : NodeRun σ) : Provisioning.NodeRun σ :=
  { status := r.status, completed := r.completed.map (·.forget), entries := r.entries
    events := r.moments.map (·.event), machine := r.machine }

/-- The run of a list as the run of a sequence, without the places. -/
def ListRun.sequence (r : ListRun σ) : SequenceRun σ :=
  { ending := match r.stopped with
      | some undone => .stopped undone
      | none => .ran r.failed (Completed.forgetAll r.completed)
    entries := r.entries, events := r.moments.map (·.event), machine := r.machine }

/-- The run of a list as the run of children of a parallel group, without the places. -/
def ListRun.children (status : ExecutionStatus) (r : ListRun σ) : ChildrenRun σ :=
  { status := r.statuses.foldl groupStatus status
    completed := Completed.forgetAll r.completed
    entries := r.entries, events := r.moments.map (·.event), machine := r.machine }

mutual

theorem skip_forget (info : FlowInfo) (path reason : String) (place : Place) (m : Machine σ)
    (node : FlowNode (Stage σ)) :
    (skip info path reason place m node).map (·.event) = node.skip info path reason := by
  cases node with
  | stage s => rfl
  | flow header nodes =>
    have ih := skipAll_forget (info.child header) (FlowNode.childPath path header.id) reason place 0
      m nodes
    simp [skip, FlowNode.skip, ih]
  | parallel name children =>
    simpa [skip, FlowNode.skip] using
      skipAll_forget info (FlowNode.childPath path name) reason place 0 m children

theorem skipAll_forget (info : FlowInfo) (path reason : String) (place : Place) (i : Nat)
    (m : Machine σ) (nodes : List (FlowNode (Stage σ))) :
    (skipAll info path reason place i m nodes).map (·.event)
      = FlowNode.skipAll info path reason nodes := by
  cases nodes with
  | nil => rfl
  | cons node rest =>
    simp [skipAll, FlowNode.skipAll, skip_forget info path reason (place ++ [i]) m node,
      skipAll_forget info path reason place (i + 1) m rest]

end

theorem stageRun_forget (info : FlowInfo) (path : String) (place : Place) (m : Machine σ)
    (s : Stage σ) : (stageRun info path place m s).forget = s.run info path m := by
  cases h : (s.execute (m.context (info.stage path s.name) info.scope) m.world).outcome <;>
    simp [stageRun, Stage.run, NodeRun.forget, Completed.forget, FlowInfo.leaf, Named.name, h]

theorem skippedRun_forget (info : FlowInfo) (path reason : String) (place : Place)
    (nodes : List (FlowNode (Stage σ))) (m : Machine σ) :
    (skippedRun info path reason place nodes m).forget = info.skipped path reason nodes m := by
  simp [skippedRun, NodeRun.forget, FlowInfo.skipped, skipAll_forget]

theorem ListRun.flow_forget (place : Place) (info : FlowInfo) (m : Machine σ) (r : ListRun σ) :
    (r.flow place info m).forget = info.ended r.sequence := by
  cases hs : r.stopped with
  | some undone =>
    cases undone <;>
      simp [ListRun.flow, NodeRun.forget, FlowInfo.ended, ListRun.sequence, flowStatus, hs,
        Rollback.status]
  | none =>
    cases hf : r.failed <;>
      simp [ListRun.flow, NodeRun.forget, FlowInfo.ended, ListRun.sequence, flowStatus, hs, hf,
        Completed.forget]

theorem ListRun.stop_forget (info : FlowInfo) (path : String) (place : Place) (i : Nat)
    (first : NodeRun σ) (completed : List (Completed σ)) (rest : List (FlowNode (Stage σ))) :
    (ListRun.stop info path place i first completed rest).sequence
      = info.stopped path first.forget (Completed.forgetAll completed) rest := by
  have undone := Completed.rollbackAll_forget first.machine (first.completed.toList ++ completed)
  rw [Completed.forgetAll_append, Completed.forgetAll_toList] at undone
  simp only [ListRun.stop, ListRun.sequence, FlowInfo.stopped, NodeRun.forget, ← undone]
  simp [Rollback.forget, skipAll_forget]

theorem ListRun.cons_sequence (first : NodeRun σ) (rest : ListRun σ)
    (ok : first.status.isFailure = false) :
    (ListRun.cons first rest).sequence = .cons first.forget rest.sequence := by
  cases hs : rest.stopped <;>
    simp [ListRun.cons, ListRun.sequence, SequenceRun.cons, NodeRun.forget, failed, hs, ok]

theorem ListRun.cons_sequence_of_failure (first : NodeRun σ) (rest : ListRun σ)
    (failure : first.status.isFailure = true) :
    (ListRun.cons first rest).sequence = .cons first.forget rest.sequence.withFailure := by
  cases hs : rest.stopped <;>
    simp [ListRun.cons, ListRun.sequence, SequenceRun.cons, SequenceRun.withFailure,
      NodeRun.forget, failed, hs, failure]

theorem OnFailure.kept_forget (onFailure : OnFailure) (r : NodeRun σ)
    (completed : List (Completed σ)) (keeps : r.status.isFailure = true → onFailure ≠ leave) :
    Completed.forgetAll (onFailure.kept r ++ completed)
      = r.forget.completed.toList ++ Completed.forgetAll completed := by
  have h : ¬ (r.status.isFailure ∧ onFailure = leave) := fun ⟨hf, hl⟩ => keeps hf hl
  rw [kept, if_neg h, Completed.forgetAll_append, Completed.forgetAll_toList, NodeRun.forget]

/-- The run of a flow with places is its run if that of its nodes is. -/
theorem runFlow_forget (info : FlowInfo) (path : String) (place : Place) (m : Machine σ)
    (header : FlowHeader) (nodes : List (FlowNode (Stage σ)))
    (ih : (runAll (.ofStrategy header.strategy) info path place 0 m [] nodes).sequence
      = FlowNode.runSequence header.strategy info path m [] nodes) :
    (runFlow info path place m header nodes).forget
      = match header.skipReason with
        | some reason => info.skipped path reason nodes m
        | none => info.ended (FlowNode.runSequence header.strategy info path m [] nodes) := by
  unfold runFlow
  cases header.skipReason with
  | some reason => exact skippedRun_forget info path reason place nodes m
  | none => simp only [ListRun.flow_forget, ih]

mutual

/-- The run of a node with places is its run. -/
theorem run_forget (info : FlowInfo) (path : String) (place : Place) (m : Machine σ)
    (node : FlowNode (Stage σ)) :
    (run info path place m node).forget = node.run info path m := by
  cases node with
  | stage s => exact stageRun_forget info path place m s
  | flow header nodes =>
    rw [run_flow, FlowNode.run]
    exact runFlow_forget _ _ place m header nodes
      (runSequence_forget header.strategy _ _ place 0 m [] nodes)
  | parallel name children =>
    have ih := runChildren_forget info (FlowNode.childPath path name) place 0 m .finished []
      children
    rw [run, FlowNode.run, ← Completed.forgetAll, ← ih]
    simp only [ListRun.group, NodeRun.forget, ListRun.children, Completed.forgetAll_isEmpty]
    cases (runAll .keep info (FlowNode.childPath path name) place 0 m [] children).completed <;> rfl

theorem runSequence_forget (strategy : ExecutionStrategy) (info : FlowInfo) (path : String)
    (place : Place) (i : Nat) (m : Machine σ) (completed : List (Completed σ))
    (nodes : List (FlowNode (Stage σ))) :
    (runAll (.ofStrategy strategy) info path place i m completed nodes).sequence
      = FlowNode.runSequence strategy info path m (Completed.forgetAll completed) nodes := by
  cases nodes with
  | nil => rfl
  | cons node rest =>
    have first := run_forget info path (place ++ [i]) m node
    rw [runAll, FlowNode.runSequence.eq_def]
    simp only [← first]
    cases hf : (run info path (place ++ [i]) m node).status.isFailure with
    | false =>
      have ih := runSequence_forget strategy info path place (i + 1)
        (run info path (place ++ [i]) m node).machine
        ((OnFailure.ofStrategy strategy).kept (run info path (place ++ [i]) m node) ++ completed)
        rest
      rw [OnFailure.kept_forget _ _ _ (by simp [hf])] at ih
      simp only [NodeRun.forget] at ih
      simp [NodeRun.forget, hf, ListRun.cons_sequence, ih]
    | true =>
      cases strategy with
      | cancelOnError =>
        simp [NodeRun.forget, hf, OnFailure.ofStrategy, ListRun.stop_forget]
      | ignoreOnError =>
        have ih := runSequence_forget .ignoreOnError info path place (i + 1)
          (run info path (place ++ [i]) m node).machine completed rest
        simp only [OnFailure.ofStrategy] at ih
        simp [NodeRun.forget, hf, OnFailure.ofStrategy, OnFailure.kept,
          ListRun.cons_sequence_of_failure, ih]

theorem runChildren_forget (info : FlowInfo) (path : String) (place : Place) (i : Nat)
    (m : Machine σ) (status : ExecutionStatus) (completed : List (Completed σ))
    (children : List (FlowNode (Stage σ))) :
    (runAll .keep info path place i m completed children).children status
      = FlowNode.runChildren info path m status (Completed.forgetAll completed) children := by
  cases children with
  | nil => rfl
  | cons child rest =>
    have first := run_forget info path (place ++ [i]) m child
    have ih := runChildren_forget info path place (i + 1)
      (run info path (place ++ [i]) m child).machine
      (groupStatus status (run info path (place ++ [i]) m child).status)
      (OnFailure.keep.kept (run info path (place ++ [i]) m child) ++ completed) rest
    rw [OnFailure.kept_forget _ _ _ (by simp)] at ih
    rw [runAll, FlowNode.runChildren, ← first]
    simp only [NodeRun.forget] at ih ⊢
    simp [ListRun.cons, ListRun.children, ← ih]

end

end Placed

namespace Flow

/-- The run of a flow with places is its run. -/
theorem placed_forget (f : Flow (Stage σ)) (world : σ) :
    (f.placed world).forget = f.runNodes world := by
  have nodes := Placed.runSequence_forget f.header.strategy (FlowInfo.root f.header) f.id [] 0
    { world, results := .empty } [] f.nodes
  exact Placed.runFlow_forget (FlowInfo.root f.header) f.id [] _ f.header f.nodes nodes

theorem run_machine (f : Flow (Stage σ)) (world : σ) :
    (f.run world).machine = (f.placed world).machine := by
  rw [run, ← placed_forget]
  rfl

/-- What a run of a flow tells: the announcement, then its moments. -/
theorem run_events (f : Flow (Stage σ)) (world : σ) :
    (f.run world).events = f.announce ++ (f.moments world).map (·.event) := by
  rw [run, moments, ← placed_forget]
  rfl

end Flow

end Provisioning
