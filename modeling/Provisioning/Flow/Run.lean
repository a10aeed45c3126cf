import Provisioning.Flow.Event
import Provisioning.Flow.Report
import Provisioning.Flow.Stage

/-!
# Running flows

The nodes of a flow run one after another, the children of a parallel group in their order. When a
node fails, a flow with the strategy to go on does so and ends as failed. A flow with the strategy
to cancel undoes what the failed node left behind and what the nodes before it did, last first,
skips the nodes after it, and ends as cancelled, or as not cancelled when something could not be
undone. A parallel group runs all of its children; it fails when one of them does.

A run is a pure function: it gives the status, the events, the entries of the report, the world and
the results afterwards, and what has been done and may still have to be undone.
-/

namespace Provisioning

variable {σ : Type}

/-- What stages act on. -/
structure Machine (σ : Type) where
  /-- The world outside. -/
  world : σ
  /-- The results of stages. -/
  results : StageResults

namespace Machine

/-- The machine after a step of the stage with the path. -/
def after (m : Machine σ) (stageId : String) (step : StageStep σ) : Machine σ :=
  { world := step.world
    results := match step.stored with
      | some value => m.results.insert stageId value
      | none => m.results }

/-- The context of a stage in a flow. -/
def context (m : Machine σ) (stage : StageInfo) (scope : Scope) : StageContext :=
  { rootFlowId := stage.rootId, flowId := stage.flowId, stageId := stage.id, scope
    results := m.results }

end Machine

/-- Work that is done and may have to be undone. -/
inductive Completed (σ : Type) where
  /-- A stage, with its place and the parameters it saw. -/
  | stage (stage : Stage σ) (info : StageInfo) (scope : Scope)
  /-- A flow, with what was done in it, last first. -/
  | flow (info : FlowInfo) (children : List (Completed σ))
  /-- A parallel group, with what was done in it, last first. -/
  | parallel (children : List (Completed σ))

/-! ## Rolling back -/

/-- What comes of undoing work. -/
structure Rollback (σ : Type) where
  /-- Whether everything was undone. -/
  complete : Bool
  /-- The entries of the report. -/
  entries : List StageReport
  /-- What happened. -/
  events : List Event
  /-- The machine afterwards. -/
  machine : Machine σ

namespace Rollback

/-- Nothing to undo. -/
def none (m : Machine σ) : Rollback σ :=
  { complete := true, entries := [], events := [], machine := m }

/-- One rollback after another, which starts where the first one ends. -/
def andThen (first : Rollback σ) (next : Machine σ → Rollback σ) : Rollback σ :=
  let second := next first.machine
  { complete := first.complete && second.complete
    entries := first.entries ++ second.entries
    events := first.events ++ second.events
    machine := second.machine }

/-- The status of a flow after a rollback. -/
def status (complete : Bool) : ExecutionStatus :=
  if complete then .cancelled else .cancellationFailed

end Rollback

namespace Completed

/-- Cancels a stage. A stage that cannot be cancelled is left as it is. -/
def rollbackStage (m : Machine σ) (s : Stage σ) (info : StageInfo) (scope : Scope) : Rollback σ :=
  match s.cancel with
  | none => .none m
  | some cancel =>
    let step := cancel (m.context info scope) m.world
    let machine := m.after info.id step
    match step.outcome with
    | .ok () =>
      let detail := ExecutionStatus.cancelled.text
      { complete := true
        entries := [.ofOutcome info.id (.cancelled detail)]
        events := [.stageRollback info .cancelled detail]
        machine }
    | .error e =>
      let detail := s!"CANCELLATION_FAILED: {e.detail}"
      { complete := false
        entries := [.ofOutcome info.id (.cancellationFailed detail)]
        events := [.stageRollback info .cancellationFailed detail]
        machine }

mutual

/-- Undoes work, last first. A flow ends once more when its work has been undone. -/
def rollback (m : Machine σ) : Completed σ → Rollback σ
  | stage s info scope => rollbackStage m s info scope
  | flow info children =>
    let r := rollbackAll m children
    { r with events := r.events ++ [.flowFinish info (Rollback.status r.complete)] }
  | parallel children => rollbackAll m children

/-- Undoes pieces of work in the order of the list, all of them even when one fails. -/
def rollbackAll (m : Machine σ) : List (Completed σ) → Rollback σ
  | [] => .none m
  | c :: rest => (rollback m c).andThen fun m => rollbackAll m rest

end

end Completed

/-! ## Running -/

/-- What comes of running a node. -/
structure NodeRun (σ : Type) where
  /-- The status of the node. -/
  status : ExecutionStatus
  /-- What was done and is not undone; of a failed node only what a parallel group leaves. -/
  completed : Option (Completed σ)
  /-- The entries of the report. -/
  entries : List StageReport
  /-- What happened. -/
  events : List Event
  /-- The machine afterwards. -/
  machine : Machine σ

/-- How a sequence of nodes ends. -/
inductive SequenceEnd (σ : Type) where
  /-- All nodes have run; whether one of them failed, and what was done, last first. -/
  | ran (failed : Bool) (completed : List (Completed σ))
  /-- A node failed and stopped the sequence; whether everything was undone. -/
  | stopped (undone : Bool)

/-- What comes of running a sequence of nodes. -/
structure SequenceRun (σ : Type) where
  /-- How it ends. -/
  ending : SequenceEnd σ
  /-- The entries of the report. -/
  entries : List StageReport
  /-- What happened. -/
  events : List Event
  /-- The machine afterwards. -/
  machine : Machine σ

namespace SequenceRun

/-- The sequence that starts with a node. -/
def cons (first : NodeRun σ) (rest : SequenceRun σ) : SequenceRun σ :=
  { rest with
    entries := first.entries ++ rest.entries
    events := first.events ++ rest.events }

/-- The sequence in which a node has failed. -/
def withFailure (r : SequenceRun σ) : SequenceRun σ :=
  match r.ending with
  | .ran _ completed => { r with ending := .ran true completed }
  | .stopped _ => r

end SequenceRun

/-- What comes of running the children of a parallel group. -/
structure ChildrenRun (σ : Type) where
  /-- The status of the group. -/
  status : ExecutionStatus
  /-- What was done, last first. -/
  completed : List (Completed σ)
  /-- The entries of the report. -/
  entries : List StageReport
  /-- What happened. -/
  events : List Event
  /-- The machine afterwards. -/
  machine : Machine σ

/-- The reason given for nodes after a failed one. -/
def skippedAfterFailure : String := "Flow stopped after a failed stage"

/-- The status of a group to which a child with the status is added. -/
def groupStatus (group child : ExecutionStatus) : ExecutionStatus :=
  if group = .cancellationFailed ∨ child = .cancellationFailed then .cancellationFailed
  else if child.isFailure then .failed
  else group

/-- Runs a stage. -/
def Stage.run (s : Stage σ) (info : FlowInfo) (path : String) (m : Machine σ) : NodeRun σ :=
  let stage := info.stage path s.name
  let step := s.execute (m.context stage info.scope) m.world
  let machine := m.after stage.id step
  match step.outcome with
  | .ok () =>
    { status := .finished
      completed := some (.stage s stage info.scope)
      entries := []
      events := [.stageStart stage, .stageSuccess stage]
      machine }
  | .error e =>
    let detail := s!"FAILED: {e.detail}"
    { status := .failed
      completed := none
      entries := [.ofOutcome stage.id (.failed detail)]
      events := [.stageStart stage, .stageError stage detail]
      machine }

/-- What comes of a flow that is not to be run. -/
def FlowInfo.skipped (info : FlowInfo) (path reason : String) (nodes : List (FlowNode (Stage σ)))
    (m : Machine σ) : NodeRun σ :=
  { status := .skipped
    completed := none
    entries := [.ofOutcome path (.skipped s!"SKIPPED: {reason}")]
    events := FlowNode.skipAll info path reason nodes ++ [.flowFinish info .skipped]
    machine := m }

/-- What comes of a flow whose nodes have run. -/
def FlowInfo.ended (info : FlowInfo) (r : SequenceRun σ) : NodeRun σ :=
  let (status, completed) : ExecutionStatus × Option (Completed σ) :=
    match r.ending with
    | .ran false completed => (.finished, some (.flow info completed))
    | .ran true _ => (.failed, none)
    | .stopped undone => (Rollback.status undone, none)
  { status, completed
    entries := r.entries
    events := .flowStart info :: r.events ++ [.flowFinish info status]
    machine := r.machine }

/-- What comes of a failed node that stops a flow: what it left is undone, then what was done
before it, and the nodes after it are skipped. -/
def FlowInfo.stopped (info : FlowInfo) (path : String) (failed : NodeRun σ)
    (completed : List (Completed σ)) (rest : List (FlowNode (Stage σ))) : SequenceRun σ :=
  let r := Completed.rollbackAll failed.machine (failed.completed.toList ++ completed)
  { ending := .stopped (failed.status != .cancellationFailed && r.complete)
    entries := failed.entries ++ r.entries
    events := failed.events ++ r.events ++ FlowNode.skipAll info path skippedAfterFailure rest
    machine := r.machine }

namespace FlowNode

mutual

/-- Runs a node. -/
def run (info : FlowInfo) (path : String) (m : Machine σ) : FlowNode (Stage σ) → NodeRun σ
  | stage s => s.run info path m
  | flow header nodes =>
    let child := info.child header
    let childPath := childPath path header.id
    match header.skipReason with
    | some reason => child.skipped childPath reason nodes m
    | none => child.ended (runSequence header.strategy child childPath m [] nodes)
  | parallel name children =>
    let r := runChildren info (childPath path name) m .finished [] children
    { status := r.status
      completed := if r.completed.isEmpty then none else some (.parallel r.completed)
      entries := r.entries
      events := r.events
      machine := r.machine }

/-- Runs nodes one after another behind work that is done (last first). -/
def runSequence (strategy : ExecutionStrategy) (info : FlowInfo) (path : String) (m : Machine σ)
    (completed : List (Completed σ)) : List (FlowNode (Stage σ)) → SequenceRun σ
  | [] => { ending := .ran false completed, entries := [], events := [], machine := m }
  | node :: rest =>
    let first := run info path m node
    if first.status.isFailure then
      match strategy with
      | .ignoreOnError =>
        .cons first (runSequence strategy info path first.machine completed rest).withFailure
      | .cancelOnError => info.stopped path first completed rest
    else
      .cons first
        (runSequence strategy info path first.machine (first.completed.toList ++ completed) rest)

/-- Runs the children of a parallel group behind those that have run: the status so far, and what
is done (last first). -/
def runChildren (info : FlowInfo) (path : String) (m : Machine σ) (status : ExecutionStatus)
    (completed : List (Completed σ)) : List (FlowNode (Stage σ)) → ChildrenRun σ
  | [] => { status, completed, entries := [], events := [], machine := m }
  | child :: rest =>
    let first := run info path m child
    let r := runChildren info path first.machine (groupStatus status first.status)
      (first.completed.toList ++ completed) rest
    { r with
      entries := first.entries ++ r.entries
      events := first.events ++ r.events }

end

end FlowNode

/-- What comes of running a whole flow. -/
structure Run (σ : Type) where
  /-- The report. -/
  report : FlowReport
  /-- What happened, from the announcement on. -/
  events : List Event
  /-- The machine afterwards. -/
  machine : Machine σ

namespace Flow

/-- Runs the nodes of a flow, or skips it. -/
def runNodes (f : Flow (Stage σ)) (world : σ) : NodeRun σ :=
  let info := FlowInfo.root f.header
  let m : Machine σ := { world, results := .empty }
  match f.header.skipReason with
  | some reason => info.skipped f.id reason f.nodes m
  | none => info.ended (FlowNode.runSequence f.header.strategy info f.id m [] f.nodes)

/-- Announces and runs a flow. -/
def run (f : Flow (Stage σ)) (world : σ) : Run σ :=
  let r := f.runNodes world
  { report := { flowId := f.id, status := r.status, stages := r.entries }
    events := f.announce ++ r.events
    machine := r.machine }

end Flow

/-- A flow that was handed over to run in the background. -/
structure FlowHandle where
  /-- The flow. -/
  flowId : String
deriving DecidableEq, Repr

namespace FlowHandle

/-- The handle on one line, for diagnosis. -/
def description (h : FlowHandle) : String :=
  "FlowHandle \x7b flow_id: " ++ Text.quoted h.flowId ++ ", .. \x7d"

/-- What is said when a flow broke off without a report. -/
def brokenOff (h : FlowHandle) : String := s!"Flow {h.flowId} finished without reporting a result"

end FlowHandle

end Provisioning
