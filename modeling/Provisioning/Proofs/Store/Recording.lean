import Provisioning.Proofs.Flow.Compensation
import Provisioning.Proofs.Flow.Reported
import Provisioning.Proofs.Store.Tables

/-!
# The records of a run

A store that records the events of a run, and that knows nothing of its flows and stages before,
agrees with the report of the run afterwards, however the run went. What it tells of the flow is the
tree itself, and once the flow has ended, nothing changes any more.
-/

namespace Provisioning

variable {σ : Type}

/-- No flow and no stage in the store has the identifier or belongs to a flow with it. -/
structure Store.Lacks (s : Store) (id : String) : Prop where
  /-- No flow. -/
  flows : ∀ r ∈ s.flows, r.id ≠ id
  /-- No flow of an application. -/
  applicationFlows : ∀ r ∈ s.applicationFlows, r.id ≠ id ∧ r.data.flowId ≠ id
  /-- No stage. -/
  stages : ∀ r ∈ s.stages, r.id ≠ id ∧ r.data.flowId ≠ id

/-- The flows of a tree have identifiers of their own and its flows and stages have paths of their
own, and the store has none of the identifiers and none of the paths of the stages. -/
structure Flow.NewIn (f : Flow (Stage σ)) (s : Store) : Prop where
  /-- No two flows share an identifier. -/
  ids : (f.id :: f.nestedFlows.map (·.1)).Nodup
  /-- No two flows or stages share a path. -/
  paths : (f.seats.map Seat.path).Nodup
  /-- The store has none of the flows. -/
  flows : ∀ id ∈ f.id :: f.nestedFlows.map (·.1), s.Lacks id
  /-- The store has none of the stages. -/
  stages : ∀ path ∈ f.stagePaths, s.Lacks path

/-- The end of a flow that the event tells of. -/
def Event.end? : Event → Option (String × ExecutionStatus)
  | flowFinish flow status => some (flow.id, status)
  | _ => none

/-- The status with which a flow ended last. -/
def lastEnd? (events : List Event) (id : String) : Option ExecutionStatus :=
  ((events.filterMap Event.end?).filter (·.1 = id)).getLast?.map (·.2)

/-- The status of a stage and what is said about it, given the last entry of the report with its
path. -/
inductive StageEnds : Option StageReport → ExecutionStatus → Option String → Prop where
  /-- They are those of the entry. -/
  | reported (entry : StageReport) : StageEnds (some entry) entry.status (some entry.detail)
  /-- Without an entry, the stage is finished and nothing is said. -/
  | finished : StageEnds none .finished none
  /-- Without an entry, the stage was skipped for a reason. -/
  | skipped (reason : String) : StageEnds none .skipped (some s!"SKIPPED: {reason}")

/-- The events of a run, recorded in a store, agree with the report. -/
structure Flow.Recorded (f : Flow (Stage σ)) (report : FlowReport) (events : List Event)
    (s : Store) : Prop where
  /-- The flow has one row, with the status of the report. -/
  root : ∃ row, (s.recordAll events).flows.filter (·.id = f.id) = [row] ∧
    row.status = .status report.status
  /-- Each flow in it has one row, with the status with which the flow ended last. -/
  nested : ∀ flow ∈ f.nestedFlows, ∃ row status,
    (s.recordAll events).applicationFlows.filter (·.id = flow.1) = [row] ∧
      lastEnd? events flow.1 = some status ∧ row.status = .status status
  /-- Each stage has one row, which has ended as the last entry with its path tells. -/
  stages : ∀ path ∈ f.stagePaths, ∃ row status,
    (s.recordAll events).stages.filter (·.id = path) = [row] ∧ row.status = .status status ∧
      status.isTerminal ∧ StageEnds (entriesOf path report.stages).getLast? status row.detail
  /-- The flow is found with the flows in it, in order, each with its own stages, in order. -/
  tree : ∃ record, (s.recordAll events).findFlow f.id true = .ok (some record) ∧
    record.status = report.status ∧
    record.applicationFlows.map (fun a => (a.id, a.stages.map (·.id))) = f.nestedFlows
  /-- Once the row of the flow has ended, no row changes. -/
  settled : ∀ earlier later, events = earlier ++ later →
    (∃ row ∈ (s.recordAll earlier).flows, row.id = f.id ∧
      ∃ status, row.status = .status status ∧ status.isTerminal) →
    (s.recordAll events).flows = (s.recordAll earlier).flows ∧
      (s.recordAll events).applicationFlows = (s.recordAll earlier).applicationFlows ∧
      (s.recordAll events).stages = (s.recordAll earlier).stages

/-! ## The rows of one stage or flow -/

theorem StageLife.row {info : StageInfo} {events : List Event} (h : StageLife info events)
    (now : Timestamp) (data : StageData) :
    ∃ status,
      ((events.filterMap Event.stageMove).foldl (Record.move now)
        (Table.queued (info.id, data))).status = .status status ∧ status.isTerminal ∧
      StageEnds (events.filterMap Event.report?).getLast? status
        ((events.filterMap Event.stageMove).foldl (Record.move now)
          (Table.queued (info.id, data))).detail := by
  cases h with
  | failed detail =>
    exact ⟨.failed, rfl, rfl, .reported { stageId := info.id, status := .failed, detail }⟩
  | succeeded => exact ⟨.finished, rfl, rfl, .finished⟩
  | rolledBack detail ends =>
    rcases ends with rfl | rfl
    · exact ⟨.cancelled, rfl, rfl, .reported { stageId := info.id, status := .cancelled, detail }⟩
    · exact ⟨.cancellationFailed, rfl, rfl,
        .reported { stageId := info.id, status := .cancellationFailed, detail }⟩
  | skipped reason => exact ⟨.skipped, rfl, rfl, .skipped reason⟩

theorem FlowLife.row {α : Type} {info : FlowInfo} {events : List Event} (h : FlowLife info events)
    {root : Bool} (here : info.isRoot = root) (now : Timestamp) (data : α) :
    ∃ status, ((events.filterMap (Event.flowMove root)).foldl (Record.move now)
        (Table.queued (info.id, data))).status = .status status ∧
      (events.filterMap Event.end?).getLast? = some (info.id, status) := by
  have starts :
      (Event.flowStart info).flowMove root = some { id := info.id, status := .inProgress } :=
    if_pos here
  have ends (status : ExecutionStatus) :
      (Event.flowFinish info status).flowMove root = some { id := info.id, status } := if_pos here
  cases h with
  | skipped =>
    simp only [List.filterMap_cons, ends]
    exact ⟨.skipped, rfl, rfl⟩
  | ended cases =>
    simp only [List.filterMap_cons, starts, ends]
    rcases cases with rfl | rfl | rfl | rfl <;> exact ⟨_, rfl, rfl⟩
  | undone cases =>
    simp only [List.filterMap_cons, starts, ends]
    rcases cases with rfl | rfl <;> exact ⟨_, rfl, rfl⟩

/-! ## The tables after a run -/

theorem Event.stageMove_stage {e : Event} {m : Move} (h : e.stageMove = some m) :
    ∃ stage, e.stage? = some stage ∧ m.id = stage.id := by
  cases e <;> simp only [stageMove, Option.some.injEq, reduceCtorEq] at h <;>
    exact ⟨_, rfl, h ▸ rfl⟩

theorem Event.flowMove_flow {root : Bool} {e : Event} {m : Move} (h : e.flowMove root = some m) :
    ∃ flow, e.flow? = some flow ∧ flow.isRoot = root ∧ m.id = flow.id := by
  cases e <;> simp only [flowMove, reduceCtorEq, Option.ite_none_right_eq_some,
    Option.some.injEq] at h
  all_goals exact ⟨_, rfl, h.1, h.2 ▸ rfl⟩

theorem Event.end?_flow {e : Event} {b : String × ExecutionStatus} (h : e.end? = some b) :
    ∃ flow, e.flow? = some flow ∧ b.1 = flow.id := by
  cases e <;> simp only [end?, Option.some.injEq, reduceCtorEq] at h
  exact ⟨_, rfl, h ▸ rfl⟩

/-- The data of the row of a stage. -/
def StageInfo.data (stage : StageInfo) : StageData := { flowId := stage.flowId, name := stage.name }

/-- The data of the row of a flow in another one. -/
def FlowInfo.data (flow : FlowInfo) : ApplicationFlowData :=
  { flowId := flow.rootId
    tenantId := (flow.scope.text? tenantParam).getD ""
    applicationId := (flow.scope.text? applicationIdParam).getD ""
    type := (flow.scope.text? typeParam).getD "" }

namespace Flow

variable {f : Flow (Stage σ)}

/-- The rows of the stages of a tree. -/
def stageRows (f : Flow (Stage σ)) : List (String × StageData) :=
  f.stages.map fun stage => (stage.id, stage.data)

/-- The rows of the flows in a flow. -/
def innerRows (f : Flow (Stage σ)) : List (String × ApplicationFlowData) :=
  f.inner.map fun flow => (flow.id, flow.data)

theorem stageRows_ids (f : Flow (Stage σ)) : f.stageRows.map (·.1) = f.stagePaths := by
  rw [stageRows, List.map_map, ← stages_ids]
  rfl

theorem innerRows_ids (f : Flow (Stage σ)) : f.innerRows.map (·.1) = f.nestedFlows.map (·.1) := by
  rw [innerRows, List.map_map, ← inner_ids]
  rfl

theorem announce_stageRow (f : Flow (Stage σ)) :
    f.announce.filterMap Event.stageRow = f.stageRows := by
  rw [stageRows, announce_eq, stages, List.filterMap_map, List.map_filterMap]
  refine List.filterMap_congr fun s _ => ?_
  cases s <;> rfl

theorem announce_flows (f : Flow (Stage σ)) {β : Type} {row : Event → Option β}
    (only : ∀ stage, row (.stageQueued stage) = none) :
    f.announce.filterMap row = f.flows.filterMap fun flow => row (.flowQueued flow) := by
  rw [announce_eq, flows_eq, List.filterMap_map, List.filterMap_filterMap]
  refine List.filterMap_congr fun s _ => ?_
  cases s with
  | stage p leaf => exact only leaf.info
  | flow => rfl

theorem announce_flowRow (f : Flow (Stage σ)) :
    ∃ data, f.announce.filterMap Event.flowRow = [(f.id, data)] := by
  have inner : f.inner.filterMap (fun flow => Event.flowRow (.flowQueued flow)) = [] := by
    refine List.filterMap_eq_nil_iff.mpr fun flow hflow => ?_
    simp [Event.flowRow, (FlowNode.flow_of_seatsIn flow hflow).1]
  rw [f.announce_flows fun _ => rfl, flows, List.filterMap_cons, inner]
  exact ⟨_, rfl⟩

theorem announce_applicationFlowRow (f : Flow (Stage σ)) :
    f.announce.filterMap Event.applicationFlowRow = f.innerRows := by
  have inner : f.inner.filterMap (fun flow => Event.applicationFlowRow (.flowQueued flow))
      = f.inner.map fun flow => (flow.id, flow.data) := by
    rw [← List.filterMap_eq_map]
    refine List.filterMap_congr fun flow hflow => ?_
    simp [Event.applicationFlowRow, (FlowNode.flow_of_seatsIn flow hflow).1, FlowInfo.data]
  rw [f.announce_flows fun _ => rfl, flows, List.filterMap_cons, inner]
  rfl

theorem announce_still (f : Flow (Stage σ)) :
    ∀ e ∈ f.announce, (∀ root, e.flowMove root = none) ∧ e.stageMove = none ∧ e.end? = none := by
  rw [announce_eq]
  intro e he
  obtain ⟨s, -, rfl⟩ := List.mem_map.mp he
  cases s <;> exact ⟨fun _ => rfl, rfl, rfl⟩

namespace Lifecycle

variable {told : List Told}

theorem no_rows (life : f.Lifecycle told) :
    ∀ e ∈ told.map (·.event),
      e.flowRow = none ∧ e.applicationFlowRow = none ∧ e.stageRow = none := by
  intro e he
  obtain ⟨t, ht, rfl⟩ := List.mem_map.mp he
  have started := life.started t ht
  cases h : t.event <;> simp [h, Event.isQueued] at started <;> exact ⟨rfl, rfl, rfl⟩

theorem stageMove_mem (life : f.Lifecycle told) {m : Move}
    (hm : m ∈ (told.map (·.event)).filterMap Event.stageMove) :
    ∃ stage ∈ f.stages, m.id = stage.id := by
  obtain ⟨e, he, hm⟩ := List.mem_filterMap.mp hm
  obtain ⟨t, ht, rfl⟩ := List.mem_map.mp he
  obtain ⟨stage, here, same⟩ := Event.stageMove_stage hm
  obtain ⟨leaf, hs, rfl⟩ := life.stage_of ht here
  exact ⟨_, List.mem_filterMap.mpr ⟨_, hs, rfl⟩, same⟩

theorem flowMove_mem (life : f.Lifecycle told) {root : Bool} {m : Move}
    (hm : m ∈ (told.map (·.event)).filterMap (Event.flowMove root)) :
    ∃ flow ∈ f.flows, flow.isRoot = root ∧ m.id = flow.id := by
  obtain ⟨e, he, hm⟩ := List.mem_filterMap.mp hm
  obtain ⟨t, ht, rfl⟩ := List.mem_map.mp he
  obtain ⟨flow, here, outer, same⟩ := Event.flowMove_flow hm
  obtain ⟨path, header, nodes, hs⟩ := life.flow_of ht here
  refine ⟨flow, ?_, outer, same⟩
  rw [flows_eq]
  exact List.mem_filterMap.mpr ⟨_, hs, rfl⟩

end Lifecycle

namespace NewIn

variable {s : Store} {told : List Told}

theorem flows_nodup (new : f.NewIn s) : (f.flows.map (·.id)).Nodup := f.flows_ids ▸ new.ids

theorem stages_nodup (new : f.NewIn s) : f.stagePaths.Nodup := by
  have path {s : Seat (Stage σ)} {id : String} (h : s.stage?.map (·.id) = some id) :
      s.path = id := by
    cases s with
    | stage p leaf => exact Option.some.inj h
    | flow => simp [Seat.stage?] at h
  rw [← stages_ids, Flow.stages, List.map_filterMap, List.Nodup, List.pairwise_filterMap]
  exact (List.pairwise_map.mp new.paths).imp fun ne id hid id' hid' =>
    path hid ▸ path hid' ▸ ne

theorem fresh_stages (new : f.NewIn s) : s.stages.Fresh f.stageRows where
  distinct := f.stageRows_ids ▸ new.stages_nodup
  absent _ hrow r hr :=
    ((new.stages _ (f.stageRows_ids ▸ List.mem_map_of_mem hrow)).stages r hr).1

theorem fresh_inner (new : f.NewIn s) : s.applicationFlows.Fresh f.innerRows where
  distinct := f.innerRows_ids ▸ (List.nodup_cons.mp new.ids).2
  absent row hrow r hr := by
    have there : row.1 ∈ f.nestedFlows.map (·.1) := f.innerRows_ids ▸ List.mem_map_of_mem hrow
    exact ((new.flows _ (List.mem_cons_of_mem _ there)).applicationFlows r hr).1

theorem fresh_flow (new : f.NewIn s) (data : FlowData) : s.flows.Fresh [(f.id, data)] where
  distinct := List.nodup_singleton _
  absent row hrow r hr := by
    rw [List.mem_singleton.mp hrow]
    exact (new.flows _ List.mem_cons_self).flows r hr

/-- The stages are recorded after those that were there. -/
theorem stages_after (new : f.NewIn s) (life : f.Lifecycle told) :
    (s.recordAll (f.announce ++ told.map (·.event))).stages
      = s.stages ++ f.stageRows.map fun row =>
          (Table.queued row).follow s.clock ((told.map (·.event)).filterMap Event.stageMove) := by
  obtain ⟨-, -, tables⟩ := s.recordAll_tables (f.announce ++ told.map (·.event))
  rw [tables, Table.foldl_changes (fun e he => (f.announce_still e he).2.1)
    (fun e he => (life.no_rows e he).2.2), announce_stageRow]
  · exact f.announce_stageRow ▸ new.fresh_stages
  · intro m hm
    obtain ⟨stage, there, same⟩ := life.stageMove_mem hm
    rw [announce_stageRow, stageRows_ids, ← stages_ids, same]
    exact List.mem_map_of_mem there

theorem inner_after (new : f.NewIn s) (life : f.Lifecycle told) :
    (s.recordAll (f.announce ++ told.map (·.event))).applicationFlows
      = s.applicationFlows ++ f.innerRows.map fun row =>
          (Table.queued row).follow s.clock
            ((told.map (·.event)).filterMap (Event.flowMove false)) := by
  obtain ⟨-, tables, -⟩ := s.recordAll_tables (f.announce ++ told.map (·.event))
  rw [tables, Table.foldl_changes (fun e he => (f.announce_still e he).1 false)
    (fun e he => (life.no_rows e he).2.1), announce_applicationFlowRow]
  · exact f.announce_applicationFlowRow ▸ new.fresh_inner
  · intro m hm
    obtain ⟨flow, there, inner, same⟩ := life.flowMove_mem hm
    rw [announce_applicationFlowRow, innerRows_ids, ← inner_ids, same]
    rcases List.mem_cons.mp there with rfl | there
    · simp [FlowInfo.root, FlowInfo.isRoot] at inner
    · exact List.mem_map_of_mem there

theorem flow_after (new : f.NewIn s) (life : f.Lifecycle told) :
    ∃ data, (s.recordAll (f.announce ++ told.map (·.event))).flows
      = s.flows ++ [(f.id, data)].map fun row =>
          (Table.queued row).follow s.clock
            ((told.map (·.event)).filterMap (Event.flowMove true)) := by
  obtain ⟨tables, -, -⟩ := s.recordAll_tables (f.announce ++ told.map (·.event))
  obtain ⟨data, announced⟩ := f.announce_flowRow
  refine ⟨data, ?_⟩
  rw [tables, Table.foldl_changes (fun e he => (f.announce_still e he).1 true)
    (fun e he => (life.no_rows e he).1), announced]
  · exact announced ▸ new.fresh_flow data
  · intro m hm
    obtain ⟨flow, there, outer, same⟩ := life.flowMove_mem hm
    rcases List.mem_cons.mp there with rfl | there
    · simp [announced, same, FlowInfo.root, id]
    · simp [(FlowNode.flow_of_seatsIn flow there).1] at outer

/-- The row of a stage follows what is told of the stage. -/
theorem stage_follow (new : f.NewIn s) (life : f.Lifecycle told) {p : Place}
    {leaf : Leaf (Stage σ)} (hs : .stage p leaf ∈ f.seats) (now : Timestamp) (data : StageData) :
    (Table.queued (leaf.info.id, data)).follow now ((told.map (·.event)).filterMap Event.stageMove)
      = ((toldAt p told).filterMap Event.stageMove).foldl (Record.move now)
          (Table.queued (leaf.info.id, data)) :=
  congrArg (List.foldl _ _) (life.filterMap_stage new.paths hs fun _ _ h => Event.stageMove_stage h)

theorem flow_follow {β : Type} (new : f.NewIn s) (life : f.Lifecycle told) {p : Place}
    {path : String} {info : FlowInfo} {header : FlowHeader} {nodes : List (FlowNode (Stage σ))}
    (hs : .flow p path info header nodes ∈ f.seats) (root : Bool) (now : Timestamp) (data : β) :
    (Table.queued (info.id, data)).follow now ((told.map (·.event)).filterMap (Event.flowMove root))
      = ((toldAt p told).filterMap (Event.flowMove root)).foldl (Record.move now)
          (Table.queued (info.id, data)) := by
  refine congrArg (List.foldl _ _) (life.filterMap_flow new.flows_nodup hs fun _ _ h => ?_)
  obtain ⟨flow, there, -, same⟩ := Event.flowMove_flow h
  exact ⟨flow, there, same⟩

theorem lastEnd?_eq (new : f.NewIn s) (life : f.Lifecycle told) {p : Place} {path : String}
    {info : FlowInfo} {header : FlowHeader} {nodes : List (FlowNode (Stage σ))}
    (hs : .flow p path info header nodes ∈ f.seats) :
    lastEnd? (f.announce ++ told.map (·.event)) info.id
      = ((toldAt p told).filterMap Event.end?).getLast?.map (·.2) := by
  have announced : f.announce.filterMap Event.end? = [] :=
    List.filterMap_eq_nil_iff.mpr fun e he => (f.announce_still e he).2.2
  rw [lastEnd?, List.filterMap_append, announced, List.nil_append,
    life.filterMap_flow new.flows_nodup hs fun _ _ h => Event.end?_flow h]

/-- Each stage has one row, which has ended as the last entry with its path tells. -/
theorem stage_row (new : f.NewIn s) {r : NodeResult} (ran : f.MayRun r) :
    ∀ path ∈ f.stagePaths, ∃ row status,
      (s.recordAll (f.eventsOf r)).stages.filter (·.id = path) = [row] ∧
        row.status = .status status ∧ status.isTerminal ∧
        StageEnds (entriesOf path r.entries).getLast? status row.detail := by
  intro path hpath
  rw [← stages_ids, List.mem_map] at hpath
  obtain ⟨stage, hstage, rfl⟩ := hpath
  obtain ⟨seat, hs, hseat⟩ := List.mem_filterMap.mp hstage
  cases seat with
  | flow => simp [Seat.stage?] at hseat
  | stage p leaf =>
    obtain rfl : leaf.info = stage := Option.some.inj hseat
    have hrow : (leaf.info.id, leaf.info.data) ∈ f.stageRows := List.mem_map.mpr ⟨_, hstage, rfl⟩
    have only := Table.filter_rows (Record.follow_id s.clock
      ((r.told.map (·.event)).filterMap Event.stageMove)) new.fresh_stages hrow
    obtain ⟨status, ends, terminal, tells⟩ :=
      (ran.lifecycle.stages p leaf hs).row s.clock leaf.info.data
    rw [← new.stage_follow ran.lifecycle hs] at ends tells
    rw [← ran.reported new.paths hs] at tells
    refine ⟨_, status, ?_, ends, terminal, tells⟩
    rw [eventsOf, new.stages_after ran.lifecycle]
    exact only

theorem inner_row (new : f.NewIn s) {r : NodeResult} (ran : f.MayRun r) :
    ∀ flow ∈ f.nestedFlows, ∃ row status,
      (s.recordAll (f.eventsOf r)).applicationFlows.filter (·.id = flow.1) = [row] ∧
        lastEnd? (f.eventsOf r) flow.1 = some status ∧ row.status = .status status := by
  intro flow hflow
  have hid : flow.1 ∈ f.inner.map (·.id) := f.inner_ids ▸ List.mem_map_of_mem hflow
  obtain ⟨info, hinner, same⟩ := List.mem_map.mp hid
  obtain ⟨seat, hs, hseat⟩ := List.mem_filterMap.mp hinner
  cases seat with
  | stage => simp [Seat.flow?] at hseat
  | flow p path info' header nodes =>
    obtain rfl : info' = info := Option.some.inj hseat
    have hs : .flow p path info' header nodes ∈ f.seats := List.mem_cons_of_mem _ hs
    have hrow : (info'.id, info'.data) ∈ f.innerRows := List.mem_map.mpr ⟨_, hinner, rfl⟩
    have only := Table.filter_rows (Record.follow_id s.clock
      ((r.told.map (·.event)).filterMap (Event.flowMove false))) new.fresh_inner hrow
    obtain ⟨status, ends, last⟩ := (ran.lifecycle.flows p path info' header nodes hs).row
      (FlowNode.flow_of_seatsIn info' hinner).1 s.clock info'.data
    rw [← new.flow_follow ran.lifecycle hs] at ends
    rw [← same]
    refine ⟨_, status, ?_, ?_, ends⟩
    · rw [eventsOf, new.inner_after ran.lifecycle]
      exact only
    · rw [eventsOf, new.lastEnd?_eq ran.lifecycle hs, last]
      rfl

theorem flow_row (new : f.NewIn s) {r : NodeResult} (ran : f.MayRun r) :
    ∃ row, (s.recordAll (f.eventsOf r)).flows.filter (·.id = f.id) = [row] ∧
      row.status = .status r.status ∧ row.Readable := by
  have hs : f.seat ∈ f.seats := List.mem_cons_self
  obtain ⟨data, after⟩ := new.flow_after ran.lifecycle
  obtain ⟨status, ends, last⟩ := (ran.lifecycle.flows [] f.id (FlowInfo.root f.header) f.header
    f.nodes hs).row (show (FlowInfo.root f.header).isRoot = true from rfl) s.clock data
  have same : status = r.status := by
    obtain ⟨earlier, told, -⟩ := FlowMayRun.ends_last ran
    rw [told, toldAt_append, toldAt_cons_self, toldAt_nil, List.filterMap_append] at last
    simpa [Event.end?, eq_comm] using last
  rw [← new.flow_follow ran.lifecycle hs, same] at ends
  have only := Table.filter_rows (Record.follow_id s.clock
    ((r.told.map (·.event)).filterMap (Event.flowMove true))) (new.fresh_flow data)
      List.mem_cons_self
  refine ⟨_, ?_, ends, (Record.Readable.queued _).follow⟩
  rw [eventsOf, after]
  exact only

theorem stages_found (new : f.NewIn s) {r : NodeResult} (ran : f.MayRun r) {id : String}
    (lacks : s.Lacks id) :
    ∃ found, (s.recordAll (f.eventsOf r)).findStages id = .ok found ∧
      found.map (·.id) = stagesOf id f.seats := by
  have here : (s.recordAll (f.eventsOf r)).stages.filter (·.data.flowId = id)
      = (f.stages.filter (·.flowId = id)).map fun stage =>
          (Table.queued (stage.id, stage.data)).follow s.clock
            ((r.told.map (·.event)).filterMap Event.stageMove) := by
    rw [eventsOf, new.stages_after ran.lifecycle, List.filter_append,
      List.filter_eq_nil_iff.mpr fun r hr => by simpa using (lacks.stages r hr).2, List.nil_append,
      stageRows, List.map_map, List.filter_map]
    congr 1
    exact List.filter_congr fun stage _ => by simp [Table.queued, StageInfo.data]
  have each : ∀ row ∈ (s.recordAll (f.eventsOf r)).stages.filter (·.data.flowId = id),
      ∃ record, Store.readStage row = .ok record ∧ record.id = row.id := by
    intro row hrow
    rw [here] at hrow
    obtain ⟨stage, -, rfl⟩ := List.mem_map.mp hrow
    exact Store.readStage_ok (Record.Readable.queued _).follow
  obtain ⟨found, reads, same⟩ := Except.mapM_ok each
  refine ⟨found, reads, ?_⟩
  rw [same, here, List.map_map, stagesOf]
  exact List.map_congr_left fun stage _ => by simp [Table.queued]

/-- The flow is found with the flows in it, in order, each with its own stages, in order. -/
theorem flow_found (new : f.NewIn s) {r : NodeResult} (ran : f.MayRun r) :
    ∃ record, (s.recordAll (f.eventsOf r)).findFlow f.id true = .ok (some record) ∧
      record.status = r.status ∧
      record.applicationFlows.map (fun a => (a.id, a.stages.map (·.id))) = f.nestedFlows := by
  have here : (s.recordAll (f.eventsOf r)).applicationFlows.filter (·.data.flowId = f.id)
      = f.innerRows.map fun row => (Table.queued row).follow s.clock
          ((r.told.map (·.event)).filterMap (Event.flowMove false)) := by
    have lacks := new.flows f.id List.mem_cons_self
    rw [eventsOf, new.inner_after ran.lifecycle, List.filter_append,
      List.filter_eq_nil_iff.mpr fun r hr => by simpa using (lacks.applicationFlows r hr).2,
      List.nil_append]
    refine List.filter_eq_self.mpr fun _ hrow => ?_
    obtain ⟨_, hinner, rfl⟩ := List.mem_map.mp hrow
    obtain ⟨flow, hflow, rfl⟩ := List.mem_map.mp hinner
    rw [decide_eq_true_eq, Record.follow_data]
    exact (FlowNode.flow_of_seatsIn flow hflow).2
  have each : ∀ row ∈ (s.recordAll (f.eventsOf r)).applicationFlows.filter (·.data.flowId = f.id),
      ∃ record, Store.readApplicationFlow row = .ok record ∧ record.id = row.id := by
    intro row hrow
    rw [here] at hrow
    obtain ⟨row, -, rfl⟩ := List.mem_map.mp hrow
    exact Store.readApplicationFlow_ok (Record.Readable.queued row).follow
  obtain ⟨records, reads, ids⟩ := Except.mapM_ok each
  have ids : records.map (·.id) = f.nestedFlows.map (·.1) := by
    rw [ids, here, List.map_map, ← innerRows_ids]
    exact List.map_congr_left fun row _ => by simp [Table.queued]
  -- Reading the stages of each flow keeps the order of the flows.
  have withStages : ∀ a ∈ records, ∃ b, (s.recordAll (f.eventsOf r)).withStages true a = .ok b ∧
      (b.id, b.stages.map (·.id)) = (a.id, stagesOf a.id f.seats) := by
    intro a ha
    have hid : a.id ∈ f.nestedFlows.map (·.1) := ids ▸ List.mem_map_of_mem ha
    obtain ⟨found, finds, same⟩ :=
      new.stages_found ran (new.flows a.id (List.mem_cons_of_mem _ hid))
    refine ⟨{ a with stages := found }, ?_, ?_⟩
    · rw [Store.withStages, if_pos rfl, finds]
      rfl
    · rw [← same]
  obtain ⟨full, readsAll, stages⟩ := Except.mapM_ok withStages
  obtain ⟨row, only, ends, readable⟩ := new.flow_row ran
  obtain ⟨record, readsRow, status⟩ := Store.readFlow_ok readable
  have finds : (s.recordAll (f.eventsOf r)).flows.find? f.id = some row := by
    rw [Table.find?, ← List.head?_filter, only]
    rfl
  refine ⟨{ record with applicationFlows := full }, ?_, ?_, ?_⟩
  · have children :
        (s.recordAll (f.eventsOf r)).findApplicationFlowsByFlow f.id true = .ok full := by
      rw [Store.findApplicationFlowsByFlow, reads]
      exact readsAll
    simp only [Store.findFlow, finds, readsRow, children]
    rfl
  · exact StatusCell.status.inj (status.symm.trans ends)
  · rw [nestedFlows_eq new.flows_nodup, ← ids, List.map_map]
    exact stages

/-- Before the last event, the row of the flow has not ended. -/
theorem flow_open (new : f.NewIn s) {r : NodeResult} (ran : f.MayRun r) {earlier later : List Event}
    {last : Event} (split : f.eventsOf r = earlier ++ (later ++ [last])) :
    Table.Open (s.recordAll earlier).flows f.id := by
  obtain ⟨before, told, starts⟩ := FlowMayRun.ends_last ran
  rw [eventsOf, told, List.map_append, ← List.append_assoc, ← List.append_assoc] at split
  have front : f.announce ++ before.map (·.event) = earlier ++ later :=
    List.append_inj_left' split rfl
  rw [(s.recordAll_tables earlier).1]
  have vacuous : Table.Open s.flows f.id := fun row hrow here =>
    absurd here ((new.flows f.id List.mem_cons_self).flows row hrow)
  -- Up to then only the start of the flow moves its row: the other flows have other identifiers.
  refine vacuous.foldl (fun m hm here => ?_) s.clock
  obtain ⟨e, he, hm⟩ := List.mem_flatMap.mp hm
  have moves : e.flowMove true = some m := by simpa [Event.changes] using hm
  have there : e ∈ f.announce ++ before.map (·.event) := front ▸ List.mem_append_left _ he
  rcases List.mem_append.mp there with there | there
  · simp [(f.announce_still e there).1 true] at moves
  · obtain ⟨t, ht, rfl⟩ := List.mem_map.mp there
    obtain ⟨flow, of_flow, -, same⟩ := Event.flowMove_flow moves
    obtain ⟨path, header, nodes, hs⟩ :=
      ran.lifecycle.flow_of (told ▸ List.mem_append_left _ ht) of_flow
    have root : t.place = [] := flow_unique new.flows_nodup hs
      (List.mem_cons_self : f.seat ∈ f.seats) (same.symm.trans here)
    rw [starts t ht root] at moves
    obtain rfl := Option.some.inj moves
    rfl

end NewIn

/-- The events of a run with any number of workers, recorded in a store that has none of its flows
and stages, agree with the report; and so with those of the run in which the children of a group
come one after another. -/
theorem records_agree {s : Store} (new : f.NewIn s) :
    (∀ r, f.MayRun r → f.Recorded (f.reportOf r) (f.eventsOf r) s) ∧
      ∀ world, f.Recorded (f.run world).report (f.run world).events s := by
  have agree (r : NodeResult) (ran : f.MayRun r) : f.Recorded (f.reportOf r) (f.eventsOf r) s := by
    obtain ⟨row, only, ends, -⟩ := new.flow_row ran
    refine
      { root := ⟨row, only, ends⟩
        nested := new.inner_row ran
        stages := new.stage_row ran
        tree := new.flow_found ran
        settled := ?_ }
    -- The last event is the end of the flow, so its row has not ended before all has been recorded.
    rintro earlier later split ⟨row, there, here, status, ended, terminal⟩
    rcases List.eq_nil_or_concat later with rfl | ⟨rest, last, rfl⟩
    · rw [split, List.append_nil]
      exact ⟨rfl, rfl, rfl⟩
    · rw [List.concat_eq_append] at split
      obtain ⟨status', unended, running⟩ := new.flow_open ran split row there here
      obtain rfl := StatusCell.status.inj (ended.symm.trans unended)
      simp [terminal] at running
  refine ⟨agree, fun world => ?_⟩
  rw [f.run_report, f.run_eventsOf]
  exact agree _ (f.placed_mayRun world)

/-- A flow that goes on on errors, with a stage, and with two flows side by side, of which the first
one is cancelled and the second one is not to be run. -/
def branching : Flow (Stage (List String)) :=
  { header := { id := "f", strategy := .ignoreOnError }
    nodes :=
      [.stage (writing "a" true true),
        .parallel "g"
          [.flow { id := "x" } [.stage (writing "b" true true), .stage (writing "c" false true)],
            .flow { id := "y", skipReason := some "twice" } [.stage (writing "d" true true)]]] }

/-- A store with a flow of a tenant. -/
def otherFlow : Store :=
  { flows := [{ id := "other", data := { tenantId := "t", type := "ENTITLE" } }] }

theorem records_agree_branching :
    branching.nestedFlows = [("x", ["f/g/x/b", "f/g/x/c"]), ("y", ["f/g/y/d"])] ∧
      (branching.run []).report.status = .failed ∧
      (branching.run []).report.stages.map (fun e => (e.stageId, e.status))
        = [("f/g/x/c", .failed), ("f/g/x/b", .cancelled), ("f/g/y", .skipped)] ∧
      branching.NewIn otherFlow ∧
      branching.Recorded (branching.run []).report (branching.run []).events otherFlow := by
  have lacks {id : String} (ne : "other" ≠ id) : otherFlow.Lacks id :=
    ⟨by simpa [otherFlow] using ne, by simp [otherFlow], by simp [otherFlow]⟩
  have new : branching.NewIn otherFlow := by
    refine ⟨by decide +kernel, by decide +kernel, fun id hid => lacks ?_,
      fun path hpath => lacks ?_⟩
    · exact (ne_of_mem_of_not_mem hid (by decide +kernel)).symm
    · exact (ne_of_mem_of_not_mem hpath (by decide +kernel)).symm
  exact ⟨rfl, rfl, rfl, new, (records_agree new).2 []⟩

end Flow

end Provisioning
