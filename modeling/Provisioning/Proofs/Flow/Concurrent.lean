import Provisioning.Proofs.Flow.Seats

/-!
# Runs with any number of workers

The children of a parallel group may run at the same time, so what they tell may be mixed in any
way, and they may complete in any order. `Flow.MayRun` relates a flow to all that may come of
running it: each call of a stage may have any outcome, each group any mixture and any order. The run
in which the children of a group come one after another is one of these (`Flow.placed_mayRun`).
-/

namespace Provisioning

variable {σ : Type}

/-! ## Mixtures -/

/-- The third list consists of the first two, each in its order. -/
inductive Interleaves {β : Type} : List β → List β → List β → Prop where
  /-- Both are empty. -/
  | nil : Interleaves [] [] []
  /-- The next element is of the first list. -/
  | left {x : β} {a b c : List β} (rest : Interleaves a b c) : Interleaves (x :: a) b (x :: c)
  /-- The next element is of the second list. -/
  | right {x : β} {a b c : List β} (rest : Interleaves a b c) : Interleaves a (x :: b) (x :: c)

namespace Interleaves

variable {β : Type} {a b c : List β}

/-- One list after the other is a mixture. -/
theorem append (a b : List β) : Interleaves a b (a ++ b) := by
  induction a with
  | nil =>
    induction b with
    | nil => exact .nil
    | cons _ _ ih => exact .right ih
  | cons _ _ ih => exact .left ih

theorem perm (h : Interleaves a b c) : c.Perm (a ++ b) := by
  induction h with
  | nil => exact .refl _
  | left _ ih => exact ih.cons _
  | right _ ih => exact (ih.cons _).trans List.perm_middle.symm

theorem mem (h : Interleaves a b c) {x : β} : x ∈ c ↔ x ∈ a ∨ x ∈ b := by
  rw [h.perm.mem_iff, List.mem_append]

theorem filter (h : Interleaves a b c) (p : β → Bool) :
    Interleaves (a.filter p) (b.filter p) (c.filter p) := by
  induction h with
  | nil => exact .nil
  | @left x _ _ _ _ ih =>
    cases hx : p x
    · simpa [hx] using ih
    · simpa [hx] using ih.left
  | @right x _ _ _ _ ih =>
    cases hx : p x
    · simpa [hx] using ih
    · simpa [hx] using ih.right

theorem eq_left (h : Interleaves a [] c) : c = a := by
  generalize hb : ([] : List β) = b at h
  induction h with
  | nil => rfl
  | left _ ih => rw [ih hb]
  | right => simp at hb

theorem eq_right (h : Interleaves [] b c) : c = b := by
  generalize ha : ([] : List β) = a at h
  induction h with
  | nil => rfl
  | left => simp at ha
  | right _ ih => rw [ih ha]

end Interleaves

/-! ## Undoing work -/

/-- An event with the place of its node. -/
structure Told where
  /-- The place of the node. -/
  place : Place
  /-- What happens. -/
  event : Event

/-- What a moment tells, whatever the machine. -/
def Moment.told (x : Moment σ) : Told := { place := x.place, event := x.event }

@[simp] theorem Moment.told_mk (place : Place) (event : Event) (m : Machine σ) :
    (Moment.mk place event m).told = ⟨place, event⟩ := rfl

/-- Work that is done and may have to be undone. A parallel group is what its children did. -/
inductive Work where
  /-- A stage. -/
  | stage (place : Place) (info : StageInfo) (cancellable : Bool)
  /-- A flow, with what was done in it, last first. -/
  | flow (place : Place) (info : FlowInfo) (work : List Work)

/-- What comes of undoing work. -/
structure Undoing where
  /-- Whether everything was undone. -/
  complete : Bool
  /-- The entries of the report. -/
  entries : List StageReport
  /-- What happened. -/
  told : List Told

namespace Undoing

/-- Nothing is undone. -/
def none : Undoing := { complete := true, entries := [], told := [] }

/-- A stage that can be cancelled is called to undo its work. -/
def ofStage (place : Place) (info : StageInfo) : Except StageError Unit → Undoing
  | .ok () =>
    { complete := true
      entries := [.ofOutcome info.id (.cancelled ExecutionStatus.cancelled.text)]
      told := [⟨place, .stageRollback info .cancelled ExecutionStatus.cancelled.text⟩] }
  | .error e =>
    { complete := false
      entries := [.ofOutcome info.id (.cancellationFailed s!"CANCELLATION_FAILED: {e.detail}")]
      told := [⟨place,
        .stageRollback info .cancellationFailed s!"CANCELLATION_FAILED: {e.detail}"⟩] }

/-- A flow ends once more when its work has been undone. -/
def ofFlow (u : Undoing) (place : Place) (info : FlowInfo) : Undoing :=
  { u with told := u.told ++ [⟨place, .flowFinish info (Rollback.status u.complete)⟩] }

/-- More is undone afterwards. -/
def andThen (u v : Undoing) : Undoing :=
  { complete := u.complete && v.complete
    entries := u.entries ++ v.entries
    told := u.told ++ v.told }

theorem none_andThen (u : Undoing) : none.andThen u = u := by simp [none, andThen]

theorem andThen_none (u : Undoing) : u.andThen none = u := by simp [none, andThen]

theorem andThen_assoc (u v w : Undoing) : (u.andThen v).andThen w = u.andThen (v.andThen w) := by
  simp [andThen, Bool.and_assoc]

end Undoing

mutual

/-- What may come of undoing a piece of work. -/
inductive MayUndo : Work → Undoing → Prop where
  /-- A stage that cannot be cancelled stays as it is. -/
  | stays {place : Place} {info : StageInfo} : MayUndo (.stage place info false) .none
  /-- A stage that can be cancelled is called. -/
  | cancelled {place : Place} {info : StageInfo} (outcome : Except StageError Unit) :
      MayUndo (.stage place info true) (.ofStage place info outcome)
  /-- What was done in a flow is undone. -/
  | flow {place : Place} {info : FlowInfo} {work : List Work} {u : Undoing}
      (undone : MayUndoAll work u) : MayUndo (.flow place info work) (u.ofFlow place info)

/-- What may come of undoing pieces of work one after another. -/
inductive MayUndoAll : List Work → Undoing → Prop where
  /-- Nothing is left. -/
  | nil : MayUndoAll [] .none
  /-- The first piece, then the others. -/
  | cons {c : Work} {rest : List Work} {u v : Undoing} (first : MayUndo c u)
      (later : MayUndoAll rest v) : MayUndoAll (c :: rest) (u.andThen v)

end

namespace MayUndoAll

theorem single {c : Work} {u : Undoing} (h : MayUndo c u) : MayUndoAll [c] u := by
  simpa [Undoing.andThen_none] using MayUndoAll.cons h .nil

theorem append {work : List Work} {u : Undoing} (first : MayUndoAll work u) {work' : List Work}
    {v : Undoing} (second : MayUndoAll work' v) : MayUndoAll (work ++ work') (u.andThen v) := by
  induction work generalizing u with
  | nil =>
    cases first
    rwa [Undoing.none_andThen]
  | cons c rest ih =>
    cases first with
    | cons one others =>
      rw [Undoing.andThen_assoc]
      exact .cons one (ih others)

theorem nil_eq {u : Undoing} (h : MayUndoAll [] u) : u = .none := by
  cases h
  rfl

theorem of_single {c : Work} {u : Undoing} (h : MayUndoAll [c] u) : MayUndo c u := by
  cases h with
  | cons first later => rwa [later.nil_eq, Undoing.andThen_none]

end MayUndoAll

/-! ## Running -/

namespace FlowNode

variable {α : Type} [Named α]

mutual

/-- What is told when the node at a place is skipped. -/
def skipTold (info : FlowInfo) (path reason : String) (place : Place) : FlowNode α → List Told
  | stage s => [⟨place, .stageSkipped (info.stage path (Named.name s)) reason⟩]
  | flow header nodes =>
    skipToldIn (info.child header) (childPath path header.id) reason place 0 nodes
      ++ [⟨place, .flowFinish (info.child header) .skipped⟩]
  | parallel name children => skipToldIn info (childPath path name) reason place 0 children

/-- What is told when nodes are skipped, of which the first one is the child of a place with the
position. -/
def skipToldIn (info : FlowInfo) (path reason : String) (place : Place) (i : Nat) :
    List (FlowNode α) → List Told
  | [] => []
  | node :: rest =>
    skipTold info path reason (place ++ [i]) node ++ skipToldIn info path reason place (i + 1) rest

end

end FlowNode

/-- What comes of running a node. -/
structure NodeResult where
  /-- The status. -/
  status : ExecutionStatus
  /-- What was done and is not undone, last first. -/
  work : List Work
  /-- The entries of the report. -/
  entries : List StageReport
  /-- What happened. -/
  told : List Told

namespace NodeResult

/-- A stage is called to do its work. -/
def ofStage (place : Place) (leaf : Leaf (Stage σ)) : Except StageError Unit → NodeResult
  | .ok () =>
    { status := .finished
      work := [.stage place leaf.info leaf.stage.isCancellable]
      entries := []
      told := [⟨place, .stageStart leaf.info⟩, ⟨place, .stageSuccess leaf.info⟩] }
  | .error e =>
    { status := .failed
      work := []
      entries := [.ofOutcome leaf.info.id (.failed s!"FAILED: {e.detail}")]
      told := [⟨place, .stageStart leaf.info⟩,
        ⟨place, .stageError leaf.info s!"FAILED: {e.detail}"⟩] }

/-- A flow is not to be run. -/
def ofSkipped (info : FlowInfo) (path reason : String) (place : Place)
    (nodes : List (FlowNode (Stage σ))) : NodeResult :=
  { status := .skipped
    work := []
    entries := [.ofOutcome path (.skipped s!"SKIPPED: {reason}")]
    told := FlowNode.skipToldIn info path reason place 0 nodes
      ++ [⟨place, .flowFinish info .skipped⟩] }

/-- A flow starts, its nodes come to something, and the flow ends so. -/
def ofFlow (nodes : NodeResult) (place : Place) (info : FlowInfo) : NodeResult :=
  { status := nodes.status
    work := if nodes.status = .finished then [.flow place info nodes.work] else []
    entries := nodes.entries
    told := ⟨place, .flowStart info⟩ :: nodes.told ++ [⟨place, .flowFinish info nodes.status⟩] }

theorem mem_told_ofFlow {r : NodeResult} {place : Place} {info : FlowInfo} {t : Told} :
    t ∈ (r.ofFlow place info).told ↔
      t = ⟨place, .flowStart info⟩ ∨ t ∈ r.told ∨ t = ⟨place, .flowFinish info r.status⟩ := by
  simp [ofFlow]

/-- The children of a parallel group complete in an order. -/
def ofGroup (order : List NodeResult) (told : List Told) : NodeResult :=
  { status := (order.map (·.status)).foldl groupStatus .finished
    work := order.reverse.flatMap (·.work)
    entries := order.flatMap (·.entries)
    told }

/-- Other nodes come after one. -/
def andThen (first rest : NodeResult) : NodeResult :=
  { rest with entries := first.entries ++ rest.entries, told := first.told ++ rest.told }

/-- A node has failed and is ignored. -/
def withFailure (r : NodeResult) : NodeResult := { r with status := .failed }

/-- A node has failed: work is undone and the nodes after it are skipped. -/
def ofStopped (first : NodeResult) (u : Undoing) (skipped : List Told) : NodeResult :=
  { status := Rollback.status (first.status != .cancellationFailed && u.complete)
    work := []
    entries := first.entries ++ u.entries
    told := first.told ++ u.told ++ skipped }

end NodeResult

mutual

/-- What may come of running the node at a place. -/
inductive MayRun : FlowInfo → String → Place → FlowNode (Stage σ) → NodeResult → Prop where
  /-- A stage may have any outcome. -/
  | stage {info : FlowInfo} {path : String} {place : Place} {s : Stage σ}
      (outcome : Except StageError Unit) :
      MayRun info path place (.stage s) (.ofStage place (info.leaf path s) outcome)
  /-- A nested flow runs. -/
  | flow {info : FlowInfo} {path : String} {place : Place} {header : FlowHeader}
      {nodes : List (FlowNode (Stage σ))} {r : NodeResult}
      (ran : FlowMayRun (info.child header) (FlowNode.childPath path header.id) place header nodes
        r) :
      MayRun info path place (.flow header nodes) r
  /-- The children of a parallel group run at the same time and complete in any order. -/
  | parallel {info : FlowInfo} {path : String} {place : Place} {name : String}
      {children : List (FlowNode (Stage σ))} {results order : List NodeResult} {told : List Told}
      (ran : EachMayRun info (FlowNode.childPath path name) place 0 children results told)
      (completed : order.Perm results) :
      MayRun info path place (.parallel name children) (.ofGroup order told)

/-- What may come of running a flow. -/
inductive FlowMayRun : FlowInfo → String → Place → FlowHeader → List (FlowNode (Stage σ)) →
    NodeResult → Prop where
  /-- It is not to be run. -/
  | skipped {info : FlowInfo} {path : String} {place : Place} {header : FlowHeader}
      {nodes : List (FlowNode (Stage σ))} {reason : String}
      (disqualified : header.skipReason = some reason) :
      FlowMayRun info path place header nodes (.ofSkipped info path reason place nodes)
  /-- Its nodes run. -/
  | ended {info : FlowInfo} {path : String} {place : Place} {header : FlowHeader}
      {nodes : List (FlowNode (Stage σ))} {r : NodeResult} (runs : header.skipReason = none)
      (ran : SequenceMayRun header.strategy info path place 0 [] nodes r) :
      FlowMayRun info path place header nodes (r.ofFlow place info)

/-- What may come of running nodes one after another behind work that is done (last first); the
first one is the child of a place with the position. The status is that of the flow. -/
inductive SequenceMayRun : ExecutionStrategy → FlowInfo → String → Place → Nat → List Work →
    List (FlowNode (Stage σ)) → NodeResult → Prop where
  /-- All nodes have run. -/
  | nil {strategy : ExecutionStrategy} {info : FlowInfo} {path : String} {place : Place} {i : Nat}
      {work : List Work} :
      SequenceMayRun strategy info path place i work []
        { status := .finished, work, entries := [], told := [] }
  /-- A node does not fail. -/
  | next {strategy : ExecutionStrategy} {info : FlowInfo} {path : String} {place : Place} {i : Nat}
      {work : List Work} {node : FlowNode (Stage σ)} {rest : List (FlowNode (Stage σ))}
      {r l : NodeResult} (first : MayRun info path (place ++ [i]) node r)
      (succeeds : r.status.isFailure = false)
      (later : SequenceMayRun strategy info path place (i + 1) (r.work ++ work) rest l) :
      SequenceMayRun strategy info path place i work (node :: rest) (r.andThen l)
  /-- A node fails, and the flow goes on. What the node leaves is left as it is. -/
  | ignored {info : FlowInfo} {path : String} {place : Place} {i : Nat} {work : List Work}
      {node : FlowNode (Stage σ)} {rest : List (FlowNode (Stage σ))} {r l : NodeResult}
      (first : MayRun info path (place ++ [i]) node r) (fails : r.status.isFailure = true)
      (later : SequenceMayRun .ignoreOnError info path place (i + 1) work rest l) :
      SequenceMayRun .ignoreOnError info path place i work (node :: rest) (r.andThen l).withFailure
  /-- A node fails, and the flow stops: what the node leaves is undone, then the work before it. -/
  | stopped {info : FlowInfo} {path : String} {place : Place} {i : Nat} {work : List Work}
      {node : FlowNode (Stage σ)} {rest : List (FlowNode (Stage σ))} {r : NodeResult} {u : Undoing}
      (first : MayRun info path (place ++ [i]) node r) (fails : r.status.isFailure = true)
      (undone : MayUndoAll (r.work ++ work) u) :
      SequenceMayRun .cancelOnError info path place i work (node :: rest)
        (r.ofStopped u (FlowNode.skipToldIn info path skippedAfterFailure place (i + 1) rest))

/-- What may come of running nodes at the same time: their results, and what they tell together. -/
inductive EachMayRun : FlowInfo → String → Place → Nat → List (FlowNode (Stage σ)) →
    List NodeResult → List Told → Prop where
  /-- There is none. -/
  | nil {info : FlowInfo} {path : String} {place : Place} {i : Nat} :
      EachMayRun info path place i [] [] []
  /-- What one tells mixes with what the others tell. -/
  | cons {info : FlowInfo} {path : String} {place : Place} {i : Nat} {child : FlowNode (Stage σ)}
      {rest : List (FlowNode (Stage σ))} {r : NodeResult} {results : List NodeResult}
      {others told : List Told} (first : MayRun info path (place ++ [i]) child r)
      (later : EachMayRun info path place (i + 1) rest results others)
      (mixed : Interleaves r.told others told) :
      EachMayRun info path place i (child :: rest) (r :: results) told

end

namespace Flow

/-- What may come of running a flow. -/
def MayRun (f : Flow (Stage σ)) (r : NodeResult) : Prop :=
  FlowMayRun (FlowInfo.root f.header) f.id [] f.header f.nodes r

/-- The report of a result. -/
def reportOf (f : Flow (Stage σ)) (r : NodeResult) : FlowReport :=
  { flowId := f.id, status := r.status, stages := r.entries }

/-- What is told in all, from the announcement on. -/
def eventsOf (f : Flow (Stage σ)) (r : NodeResult) : List Event :=
  f.announce ++ r.told.map (·.event)

end Flow

/-! ## One child after another -/

namespace Placed

mutual

/-- A piece of work without its groups. -/
def Completed.work : Completed σ → List Work
  | .stage place leaf => [.stage place leaf.info leaf.stage.isCancellable]
  | .flow place info children => [.flow place info (workAll children)]
  | .parallel children => workAll children

/-- Pieces of work without their groups. -/
def Completed.workAll : List (Completed σ) → List Work
  | [] => []
  | c :: rest => work c ++ workAll rest

end

theorem Completed.workAll_append (cs ds : List (Completed σ)) :
    workAll (cs ++ ds) = workAll cs ++ workAll ds := by
  induction cs with
  | nil => rfl
  | cons c rest ih => simp [workAll, ih]

/-- A rollback without the machine. -/
def Rollback.undoing (r : Rollback σ) : Undoing :=
  { complete := r.complete, entries := r.entries, told := r.moments.map (·.told) }

theorem Rollback.undoing_andThen (r : Rollback σ) (next : Machine σ → Rollback σ) :
    (r.andThen next).undoing = r.undoing.andThen (next r.machine).undoing := by
  simp [Rollback.andThen, Rollback.undoing, Undoing.andThen]

theorem rollbackStage_mayUndo (m : Machine σ) (place : Place) (leaf : Leaf (Stage σ)) :
    MayUndo (.stage place leaf.info leaf.stage.isCancellable)
      (Completed.rollbackStage m place leaf).undoing := by
  cases hc : leaf.stage.cancel with
  | none =>
    have stays : MayUndo (.stage place leaf.info false) .none := .stays
    simpa [Completed.rollbackStage, Provisioning.Completed.rollbackStage, hc, Stage.isCancellable,
      Rollback.undoing, Provisioning.Rollback.none, Undoing.none] using stays
  | some cancel =>
    have called : MayUndo (.stage place leaf.info true) _ :=
      .cancelled (cancel (m.context leaf.info leaf.scope) m.world).outcome
    cases ho : (cancel (m.context leaf.info leaf.scope) m.world).outcome <;>
      simpa [Completed.rollbackStage, Provisioning.Completed.rollbackStage, hc, ho,
        Stage.isCancellable, Rollback.undoing, Undoing.ofStage] using called

mutual

/-- A rollback is one of the ways to undo work. -/
theorem rollback_mayUndo (m : Machine σ) (c : Completed σ) :
    MayUndoAll c.work (Completed.rollback m c).undoing := by
  cases c with
  | stage place leaf => exact .single (rollbackStage_mayUndo m place leaf)
  | flow place info children =>
    have undone : MayUndo (.flow place info (Completed.workAll children)) _ :=
      .flow (rollbackAll_mayUndo m children)
    refine .single ?_
    simpa [Completed.rollback, Rollback.undoing, Undoing.ofFlow] using undone
  | parallel children => exact rollbackAll_mayUndo m children

theorem rollbackAll_mayUndo (m : Machine σ) (cs : List (Completed σ)) :
    MayUndoAll (Completed.workAll cs) (Completed.rollbackAll m cs).undoing := by
  cases cs with
  | nil => exact .nil
  | cons c rest =>
    rw [Completed.workAll, Completed.rollbackAll, Rollback.undoing_andThen]
    exact (rollback_mayUndo m c).append (rollbackAll_mayUndo _ rest)

end

mutual

theorem skip_told (info : FlowInfo) (path reason : String) (place : Place) (m : Machine σ)
    (node : FlowNode (Stage σ)) :
    (skip info path reason place m node).map (·.told) = node.skipTold info path reason place := by
  cases node with
  | stage s => rfl
  | flow header nodes =>
    have ih := skipAll_told (info.child header) (FlowNode.childPath path header.id) reason place 0 m
      nodes
    simp [skip, FlowNode.skipTold, ih]
  | parallel name children =>
    simpa [skip, FlowNode.skipTold] using
      skipAll_told info (FlowNode.childPath path name) reason place 0 m children

theorem skipAll_told (info : FlowInfo) (path reason : String) (place : Place) (i : Nat)
    (m : Machine σ) (nodes : List (FlowNode (Stage σ))) :
    (skipAll info path reason place i m nodes).map (·.told)
      = FlowNode.skipToldIn info path reason place i nodes := by
  cases nodes with
  | nil => rfl
  | cons node rest =>
    rw [skipAll, FlowNode.skipToldIn, List.map_append, skip_told, skipAll_told]

end

/-- A run of a node without the machine. -/
def NodeRun.result (r : NodeRun σ) : NodeResult :=
  { status := r.status, work := Completed.workAll r.completed.toList, entries := r.entries
    told := r.moments.map (·.told) }

/-- A run of the nodes of a flow without the machine. -/
def ListRun.result (r : ListRun σ) : NodeResult :=
  { status := r.flowStatus, work := Completed.workAll r.completed, entries := r.entries
    told := r.moments.map (·.told) }

theorem stageRun_result (info : FlowInfo) (path : String) (place : Place) (m : Machine σ)
    (s : Stage σ) :
    (stageRun info path place m s).result = .ofStage place (info.leaf path s)
      (s.execute (m.context (info.stage path s.name) info.scope) m.world).outcome := by
  cases h : (s.execute (m.context (info.stage path s.name) info.scope) m.world).outcome <;>
    simp [stageRun, Stage.run, NodeRun.result, NodeResult.ofStage, h, Completed.workAll,
      Completed.work, FlowInfo.leaf, Named.name]

theorem skippedRun_result (info : FlowInfo) (path reason : String) (place : Place)
    (nodes : List (FlowNode (Stage σ))) (m : Machine σ) :
    (skippedRun info path reason place nodes m).result
      = .ofSkipped info path reason place nodes := by
  simp [skippedRun, NodeRun.result, NodeResult.ofSkipped, Completed.workAll, skipAll_told]

theorem ListRun.flow_result (place : Place) (info : FlowInfo) (m : Machine σ) (r : ListRun σ) :
    (r.flow place info m).result = r.result.ofFlow place info := by
  by_cases h : r.flowStatus = .finished <;>
    simp [ListRun.flow, NodeRun.result, ListRun.result, NodeResult.ofFlow, h, Completed.workAll,
      Completed.work]

theorem ListRun.stop_result (info : FlowInfo) (path : String) (place : Place) (i : Nat)
    (first : NodeRun σ) (completed : List (Completed σ)) (rest : List (FlowNode (Stage σ))) :
    (ListRun.stop info path place i first completed rest).result
      = first.result.ofStopped
          (Completed.rollbackAll first.machine (first.completed.toList ++ completed)).undoing
          (FlowNode.skipToldIn info path skippedAfterFailure place (i + 1) rest) := by
  simp [ListRun.stop, ListRun.result, NodeResult.ofStopped, NodeRun.result, Rollback.undoing,
    ListRun.flowStatus, Completed.workAll, skipAll_told]

theorem ListRun.cons_result {first : NodeRun σ} {rest : ListRun σ}
    (ok : first.status.isFailure = false) :
    (ListRun.cons first rest).result = first.result.andThen rest.result := by
  simp [ListRun.cons, ListRun.result, NodeResult.andThen, NodeRun.result, ListRun.flowStatus,
    ListRun.failed, ok]

theorem ListRun.cons_result_of_failure {first : NodeRun σ} {rest : ListRun σ}
    (failure : first.status.isFailure = true) (ran : rest.stopped = none) :
    (ListRun.cons first rest).result = (first.result.andThen rest.result).withFailure := by
  simp [ListRun.cons, ListRun.result, NodeResult.andThen, NodeResult.withFailure, NodeRun.result,
    ListRun.flowStatus, ListRun.failed, failure, ran]

/-- Nodes whose failures are ignored are never stopped. -/
theorem runAll_leave_stopped (info : FlowInfo) (path : String) (place : Place) (i : Nat)
    (m : Machine σ) (completed : List (Completed σ)) (nodes : List (FlowNode (Stage σ))) :
    (runAll .leave info path place i m completed nodes).stopped = none := by
  induction nodes generalizing i m completed with
  | nil => rfl
  | cons node rest ih =>
    rw [runAll_go (by simp)]
    exact ih _ _ _

theorem group_result {r : ListRun σ} {results : List NodeResult}
    (statuses : r.statuses = results.map (·.status))
    (work : Completed.workAll r.completed = results.reverse.flatMap (·.work))
    (entries : r.entries = results.flatMap (·.entries)) :
    r.group.result = .ofGroup results (r.moments.map (·.told)) := by
  have same : Completed.workAll r.group.completed.toList = Completed.workAll r.completed := by
    cases hc : r.completed <;> simp [ListRun.group, hc, Completed.workAll, Completed.work]
  rw [NodeRun.result, same, work, NodeResult.ofGroup, ListRun.group, statuses, entries]

mutual

/-- A run of a node in which one child of a group comes after another is one that may be. -/
theorem run_mayRun (info : FlowInfo) (path : String) (place : Place) (m : Machine σ)
    (node : FlowNode (Stage σ)) :
    MayRun info path place node (run info path place m node).result := by
  cases node with
  | stage s =>
    rw [run, stageRun_result]
    exact .stage _
  | flow header nodes =>
    rw [run]
    refine .flow ?_
    cases hs : header.skipReason with
    | some reason =>
      simp only [skippedRun_result]
      exact .skipped hs
    | none =>
      simp only [ListRun.flow_result]
      exact .ended hs (runSequence_mayRun header.strategy _ _ place 0 m [] nodes)
  | parallel name children =>
    obtain ⟨results, ran, statuses, work, entries⟩ :=
      runEach_mayRun info (FlowNode.childPath path name) place 0 m [] children
    simp only [Completed.workAll, List.append_nil] at work
    rw [run, group_result statuses work entries]
    exact .parallel ran (.refl _)

theorem runSequence_mayRun (strategy : ExecutionStrategy) (info : FlowInfo) (path : String)
    (place : Place) (i : Nat) (m : Machine σ) (completed : List (Completed σ))
    (nodes : List (FlowNode (Stage σ))) :
    SequenceMayRun strategy info path place i (Completed.workAll completed) nodes
      (runAll (.ofStrategy strategy) info path place i m completed nodes).result := by
  cases nodes with
  | nil => exact .nil
  | cons node rest =>
    have first := run_mayRun info path (place ++ [i]) m node
    cases hf : (run info path (place ++ [i]) m node).status.isFailure with
    | false =>
      have kept : (OnFailure.ofStrategy strategy).kept (run info path (place ++ [i]) m node)
          = (run info path (place ++ [i]) m node).completed.toList := if_neg (by simp [hf])
      have ih := runSequence_mayRun strategy info path place (i + 1)
        (run info path (place ++ [i]) m node).machine
        ((run info path (place ++ [i]) m node).completed.toList ++ completed) rest
      rw [Completed.workAll_append] at ih
      rw [runAll_go (by simp [hf]), ListRun.cons_result hf, kept]
      exact .next first hf ih
    | true =>
      cases strategy with
      | cancelOnError =>
        rw [OnFailure.ofStrategy, runAll_stop hf, ListRun.stop_result]
        refine .stopped first hf ?_
        have undone := rollbackAll_mayUndo (run info path (place ++ [i]) m node).machine
          ((run info path (place ++ [i]) m node).completed.toList ++ completed)
        rwa [Completed.workAll_append] at undone
      | ignoreOnError =>
        rw [OnFailure.ofStrategy, runAll_go (by simp),
          ListRun.cons_result_of_failure hf (runAll_leave_stopped ..)]
        refine .ignored first hf ?_
        have ih := runSequence_mayRun .ignoreOnError info path place (i + 1)
          (run info path (place ++ [i]) m node).machine completed rest
        simpa [OnFailure.kept, hf, OnFailure.ofStrategy] using ih

theorem runEach_mayRun (info : FlowInfo) (path : String) (place : Place) (i : Nat) (m : Machine σ)
    (completed : List (Completed σ)) (children : List (FlowNode (Stage σ))) :
    ∃ results,
      EachMayRun info path place i children results
        ((runAll .keep info path place i m completed children).moments.map (·.told)) ∧
      (runAll .keep info path place i m completed children).statuses = results.map (·.status) ∧
      Completed.workAll (runAll .keep info path place i m completed children).completed
        = results.reverse.flatMap (·.work) ++ Completed.workAll completed ∧
      (runAll .keep info path place i m completed children).entries
        = results.flatMap (·.entries) := by
  cases children with
  | nil => exact ⟨[], .nil, rfl, rfl, rfl⟩
  | cons child rest =>
    have first := run_mayRun info path (place ++ [i]) m child
    obtain ⟨results, later, statuses, work, entries⟩ := runEach_mayRun info path place (i + 1)
      (run info path (place ++ [i]) m child).machine
      ((run info path (place ++ [i]) m child).completed.toList ++ completed) rest
    have kept : OnFailure.keep.kept (run info path (place ++ [i]) m child)
        = (run info path (place ++ [i]) m child).completed.toList := if_neg (by simp)
    rw [runAll_go (by simp), kept]
    refine ⟨(run info path (place ++ [i]) m child).result :: results, .cons first later ?_, ?_, ?_,
      ?_⟩
    · rw [ListRun.cons, List.map_append]
      exact .append _ _
    · simp [ListRun.cons, statuses, NodeRun.result]
    · simp [ListRun.cons, work, NodeRun.result, Completed.workAll_append]
    · simp [ListRun.cons, entries, NodeRun.result]

end

end Placed

namespace Flow

/-- The run in which the children of a group come one after another is one that may be. -/
theorem placed_mayRun (f : Flow (Stage σ)) (world : σ) : f.MayRun (f.placed world).result := by
  rw [MayRun, placed, Placed.runFlow]
  cases hs : f.header.skipReason with
  | some reason =>
    simp only [Placed.skippedRun_result]
    exact .skipped hs
  | none =>
    simp only [Placed.ListRun.flow_result]
    exact .ended hs (Placed.runSequence_mayRun f.header.strategy _ _ [] 0 _ [] f.nodes)

theorem run_report (f : Flow (Stage σ)) (world : σ) :
    (f.run world).report = f.reportOf (f.placed world).result := by
  rw [run, reportOf, ← placed_forget]
  rfl

theorem run_eventsOf (f : Flow (Stage σ)) (world : σ) :
    (f.run world).events = f.eventsOf (f.placed world).result := by
  simp [run_events, eventsOf, moments, Placed.NodeRun.result, Moment.told, Function.comp_def]

end Flow

end Provisioning
