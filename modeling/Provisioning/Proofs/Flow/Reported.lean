import Mathlib.Data.List.Pairwise
import Provisioning.Proofs.Flow.Lifecycle
import Provisioning.Proofs.Flow.Nesting
import Provisioning.Proofs.Flow.Outcome

/-!
# What a report tells of a stage

A report and the events of a run are put together independently. For each stage they agree: the
entries of the report with the path of the stage are what is told of its failure or of undoing its
work.
-/

namespace Provisioning

variable {σ : Type}

namespace Event

/-- The entry of a report that tells of the event, if there is one. -/
def report? : Event → Option StageReport
  | stageError stage detail => some { stageId := stage.id, status := .failed, detail }
  | stageRollback stage status detail => some { stageId := stage.id, status, detail }
  | _ => none

/-- The stage to which something happens after its announcement. -/
def stage? : Event → Option StageInfo
  | stageStart stage | stageSuccess stage | stageError stage _ | stageRollback stage _ _
  | stageSkipped stage _ => some stage
  | _ => none

/-- The flow to which something happens after its announcement. -/
def flow? : Event → Option FlowInfo
  | flowStart flow | flowFinish flow _ => some flow
  | _ => none

theorem report?_stage {e : Event} {entry : StageReport} (h : e.report? = some entry) :
    ∃ stage, e.stage? = some stage ∧ entry.stageId = stage.id := by
  cases e <;> simp only [report?, Option.some.injEq, reduceCtorEq] at h <;>
    exact ⟨_, rfl, h ▸ rfl⟩

end Event

/-- The entries of a report that tell of events. -/
def entriesTold (told : List Told) : List StageReport := told.filterMap (·.event.report?)

@[simp]
theorem entriesTold_append (told told' : List Told) :
    entriesTold (told ++ told') = entriesTold told ++ entriesTold told' := List.filterMap_append

mutual

theorem MayUndo.entries_eq {c : Work} {u : Undoing} (h : MayUndo c u) :
    u.entries = entriesTold u.told := by
  cases h with
  | stays => rfl
  | cancelled outcome => cases outcome <;> rfl
  | flow undone => simp [Undoing.ofFlow, undone.entries_eq, entriesTold, Event.report?]

theorem MayUndoAll.entries_eq {work : List Work} {u : Undoing} (h : MayUndoAll work u) :
    u.entries = entriesTold u.told := by
  cases h with
  | nil => rfl
  | cons first later => simp [Undoing.andThen, first.entries_eq, later.entries_eq]

end

theorem FlowNode.entriesTold_skipToldIn {info : FlowInfo} {path reason : String} {place : Place}
    {i : Nat} {nodes : List (FlowNode (Stage σ))} :
    entriesTold (FlowNode.skipToldIn info path reason place i nodes) = [] := by
  refine List.filterMap_eq_nil_iff.mpr fun t ht => ?_
  rcases FlowNode.skipToldIn_event t ht with ⟨stage, he⟩ | ⟨flow, he⟩ <;> rw [he] <;> rfl

/-- The entries with an identifier. -/
def entriesOf (id : String) (entries : List StageReport) : List StageReport :=
  entries.filter (·.stageId = id)

section

variable {pick : StageReport → Bool}

mutual

/-- A run of a node reports what it tells, apart from the flows that are not to be run. -/
theorem MayRun.entries_perm {info : FlowInfo} {path : String} {place : Place}
    {node : FlowNode (Stage σ)} {r : NodeResult} (ran : MayRun info path place node r)
    (other : ∀ p path' info' header nodes,
      .flow p path' info' header nodes ∈ node.seats info path place →
        ∀ detail, pick (.ofOutcome path' (.skipped detail)) = false) :
    (r.entries.filter pick).Perm ((entriesTold r.told).filter pick) := by
  match ran with
  | .stage outcome => cases outcome <;> exact .refl _
  | .flow ran =>
    exact ran.entries_perm (other _ _ _ _ _ List.mem_cons_self)
      fun _ _ _ _ _ hs => other _ _ _ _ _ (List.mem_cons_of_mem _ hs)
  | .parallel ran completed =>
    exact ((completed.flatMap_right _).filter _).trans (ran.entries_perm other)

theorem FlowMayRun.entries_perm {info : FlowInfo} {path : String} {place : Place}
    {header : FlowHeader} {nodes : List (FlowNode (Stage σ))} {r : NodeResult}
    (ran : FlowMayRun info path place header nodes r)
    (own : ∀ detail, pick (.ofOutcome path (.skipped detail)) = false)
    (other : ∀ p path' info' header nodes',
      .flow p path' info' header nodes' ∈ FlowNode.seatsIn info path place 0 nodes →
        ∀ detail, pick (.ofOutcome path' (.skipped detail)) = false) :
    (r.entries.filter pick).Perm ((entriesTold r.told).filter pick) := by
  match ran with
  | @FlowMayRun.skipped _ _ _ _ _ _ reason _ =>
    have reported : (NodeResult.ofSkipped info path reason place nodes).entries.filter pick = [] :=
      List.filter_eq_nil_iff.mpr (by simp [NodeResult.ofSkipped, own])
    rw [reported, NodeResult.ofSkipped, entriesTold_append, FlowNode.entriesTold_skipToldIn]
    exact .refl _
  | .ended _ ran =>
    simpa [NodeResult.ofFlow, entriesTold, Event.report?] using ran.entries_perm other

theorem SequenceMayRun.entries_perm {strategy : ExecutionStrategy} {info : FlowInfo}
    {path : String} {place : Place} {i : Nat} {work : List Work}
    {nodes : List (FlowNode (Stage σ))} {l : NodeResult}
    (ran : SequenceMayRun strategy info path place i work nodes l)
    (other : ∀ p path' info' header nodes',
      .flow p path' info' header nodes' ∈ FlowNode.seatsIn info path place i nodes →
        ∀ detail, pick (.ofOutcome path' (.skipped detail)) = false) :
    (l.entries.filter pick).Perm ((entriesTold l.told).filter pick) := by
  match ran with
  | .nil => exact .refl _
  | .next first _ later | .ignored first _ later =>
    rw [FlowNode.seatsIn] at other
    have first := first.entries_perm fun _ _ _ _ _ hs =>
      other _ _ _ _ _ (List.mem_append_left _ hs)
    have later := later.entries_perm fun _ _ _ _ _ hs =>
      other _ _ _ _ _ (List.mem_append_right _ hs)
    simpa [NodeResult.andThen, NodeResult.withFailure] using first.append later
  | .stopped first _ undone =>
    rw [FlowNode.seatsIn] at other
    have first := first.entries_perm fun _ _ _ _ _ hs =>
      other _ _ _ _ _ (List.mem_append_left _ hs)
    simpa [NodeResult.ofStopped, FlowNode.entriesTold_skipToldIn, undone.entries_eq] using
      first.append_right _

theorem EachMayRun.entries_perm {info : FlowInfo} {path : String} {place : Place} {i : Nat}
    {children : List (FlowNode (Stage σ))} {results : List NodeResult} {told : List Told}
    (ran : EachMayRun info path place i children results told)
    (other : ∀ p path' info' header nodes',
      .flow p path' info' header nodes' ∈ FlowNode.seatsIn info path place i children →
        ∀ detail, pick (.ofOutcome path' (.skipped detail)) = false) :
    ((results.flatMap (·.entries)).filter pick).Perm ((entriesTold told).filter pick) := by
  match ran with
  | .nil => exact .refl _
  | .cons first later mixed =>
    rw [FlowNode.seatsIn] at other
    have first := first.entries_perm fun _ _ _ _ _ hs =>
      other _ _ _ _ _ (List.mem_append_left _ hs)
    have later := later.entries_perm fun _ _ _ _ _ hs =>
      other _ _ _ _ _ (List.mem_append_right _ hs)
    rw [List.flatMap_cons, List.filter_append]
    refine (first.append later).trans ?_
    rw [← List.filter_append, ← entriesTold_append]
    exact ((mixed.perm.symm.filterMap _).filter _)

end

end

/-! ## What is told of one node -/

theorem StageLife.of_stage {info : StageInfo} {events : List Event} (h : StageLife info events) :
    ∀ e ∈ events, e.stage? = some info ∧ e.flow? = none := by
  cases h <;> simp [Event.stage?, Event.flow?]

theorem FlowLife.of_flow {info : FlowInfo} {events : List Event} (h : FlowLife info events) :
    ∀ e ∈ events, e.flow? = some info ∧ e.stage? = none := by
  cases h <;> simp [Event.stage?, Event.flow?]

/-- What is told of a place is what is told with its key. -/
theorem filterMap_toldAt {β : Type} {view : Event → Option β} {key : β → Bool} {p : Place}
    {told : List Told}
    (h : ∀ t ∈ told, ∀ b, view t.event = some b → (key b = true ↔ t.place = p)) :
    ((told.map (·.event)).filterMap view).filter key = (toldAt p told).filterMap view := by
  induction told with
  | nil => rfl
  | cons t rest ih =>
    rw [List.forall_mem_cons] at h
    obtain ⟨q, e⟩ := t
    have rest_eq := ih h.2
    cases hv : view e with
    | none =>
      by_cases here : q = p <;> simpa [toldAt, here, hv] using rest_eq
    | some b =>
      have first : key b = true ↔ q = p := h.1 b hv
      by_cases here : q = p
      · simpa [toldAt, here, hv, first.mpr here] using rest_eq
      · simpa [toldAt, here, hv, Bool.eq_false_iff.mpr (mt first.mp here)] using rest_eq

namespace Flow

variable {f : Flow (Stage σ)} {told : List Told}

theorem flow_unique (ids : (f.flows.map (·.id)).Nodup) {p q : Place} {path path' : String}
    {info info' : FlowInfo} {header header' : FlowHeader} {nodes nodes' : List (FlowNode (Stage σ))}
    (hp : .flow p path info header nodes ∈ f.seats)
    (hq : .flow q path' info' header' nodes' ∈ f.seats) (same : info.id = info'.id) : p = q := by
  by_contra ne
  rw [flows_eq, List.map_filterMap, List.Nodup, List.pairwise_filterMap] at ids
  have : Std.Symm fun s t : Seat (Stage σ) => ∀ id, s.flow?.map (·.id) = some id →
      ∀ id', t.flow?.map (·.id) = some id' → id ≠ id' :=
    ⟨fun _ _ h id hid id' hid' => (h id' hid' id hid).symm⟩
  exact ids.forall hp hq (fun h => ne (Seat.flow.inj h).1) _ rfl _ rfl same

namespace Lifecycle

theorem stage_of (life : f.Lifecycle told) {t : Told} (ht : t ∈ told) {stage : StageInfo}
    (h : t.event.stage? = some stage) :
    ∃ leaf, .stage t.place leaf ∈ f.seats ∧ leaf.info = stage := by
  obtain ⟨s, hs, same⟩ := life.seated t ht
  have there : t.event ∈ toldAt s.place told := mem_toldAt.mpr (same ▸ ht)
  cases s with
  | stage p leaf =>
    obtain rfl : p = t.place := same
    refine ⟨leaf, hs, ?_⟩
    simpa [h, eq_comm] using ((life.stages _ leaf hs).of_stage _ there).1
  | flow p path info header nodes =>
    simpa [h] using ((life.flows p path info header nodes hs).of_flow _ there).2

theorem flow_of (life : f.Lifecycle told) {t : Told} (ht : t ∈ told) {info : FlowInfo}
    (h : t.event.flow? = some info) :
    ∃ path header nodes, .flow t.place path info header nodes ∈ f.seats := by
  obtain ⟨s, hs, same⟩ := life.seated t ht
  have there : t.event ∈ toldAt s.place told := mem_toldAt.mpr (same ▸ ht)
  cases s with
  | stage p leaf => simpa [h] using ((life.stages p leaf hs).of_stage _ there).2
  | flow p path info' header nodes =>
    obtain rfl : p = t.place := same
    have := ((life.flows _ path info' header nodes hs).of_flow _ there).1
    rw [h, Option.some.injEq] at this
    exact ⟨path, header, nodes, this ▸ hs⟩

/-- If no two nodes share a path, what is told with the path of a stage is told of the stage. -/
theorem filterMap_stage (life : f.Lifecycle told) (paths : (f.seats.map Seat.path).Nodup)
    {p : Place} {leaf : Leaf (Stage σ)} (hs : .stage p leaf ∈ f.seats) {β : Type}
    {view : Event → Option β} {key : β → String}
    (reads : ∀ e b, view e = some b → ∃ stage, e.stage? = some stage ∧ key b = stage.id) :
    ((told.map (·.event)).filterMap view).filter (fun b => decide (key b = leaf.info.id))
      = (toldAt p told).filterMap view := by
  refine filterMap_toldAt fun t ht b hb => ?_
  obtain ⟨stage, of_stage, hkey⟩ := reads _ b hb
  obtain ⟨leaf', hs', rfl⟩ := life.stage_of ht of_stage
  rw [decide_eq_true_eq, hkey]
  constructor
  · intro same
    have := List.inj_on_of_nodup_map paths hs' hs same
    exact (Seat.stage.inj this).1
  · rintro rfl
    rw [(Seat.stage.inj (Flow.seat_unique hs' hs rfl)).2]

/-- If no two flows share an identifier, what is told with the identifier of a flow is told of the
flow. -/
theorem filterMap_flow (life : f.Lifecycle told) (ids : (f.flows.map (·.id)).Nodup)
    {p : Place} {path : String} {info : FlowInfo} {header : FlowHeader}
    {nodes : List (FlowNode (Stage σ))} (hs : .flow p path info header nodes ∈ f.seats) {β : Type}
    {view : Event → Option β} {key : β → String}
    (reads : ∀ e b, view e = some b → ∃ flow, e.flow? = some flow ∧ key b = flow.id) :
    ((told.map (·.event)).filterMap view).filter (fun b => decide (key b = info.id))
      = (toldAt p told).filterMap view := by
  refine filterMap_toldAt fun t ht b hb => ?_
  obtain ⟨info', of_flow, hkey⟩ := reads _ b hb
  obtain ⟨path', header', nodes', hs'⟩ := life.flow_of ht of_flow
  rw [decide_eq_true_eq, hkey]
  constructor
  · exact flow_unique ids hs' hs
  · rintro rfl
    rw [(Seat.flow.inj (Flow.seat_unique hs' hs rfl)).2.2.1]

end Lifecycle

/-- If no two nodes share a path, the entries with the path of a stage are what is told of it. -/
theorem MayRun.reported {r : NodeResult} (ran : f.MayRun r)
    (paths : (f.seats.map Seat.path).Nodup) {p : Place} {leaf : Leaf (Stage σ)}
    (hs : .stage p leaf ∈ f.seats) :
    entriesOf leaf.info.id r.entries = (toldAt p r.told).filterMap Event.report? := by
  have other {q : Place} {path : String} {info : FlowInfo} {header : FlowHeader}
      {nodes : List (FlowNode (Stage σ))} (hf : .flow q path info header nodes ∈ f.seats) :
      path ≠ leaf.info.id := fun same => by
    have := List.inj_on_of_nodup_map paths hf hs same
    simp at this
  have unpicked {path : String} (h : path ≠ leaf.info.id) (detail : String) :
      decide ((StageReport.ofOutcome path (.skipped detail)).stageId = leaf.info.id) = false :=
    decide_eq_false h
  have perm : (entriesOf leaf.info.id r.entries).Perm (entriesOf leaf.info.id (entriesTold r.told)) :=
    FlowMayRun.entries_perm ran (unpicked (other List.mem_cons_self))
      fun _ _ _ _ _ hf => unpicked (other (List.mem_cons_of_mem _ hf))
  have told : entriesOf leaf.info.id (entriesTold r.told)
      = (toldAt p r.told).filterMap Event.report? := by
    have views := ran.lifecycle.filterMap_stage paths hs fun _ _ h => Event.report?_stage h
    rwa [List.filterMap_map] at views
  rw [told] at perm
  refine perm_eq_of_length perm ?_
  have life := ran.lifecycle.stages p leaf hs
  generalize toldAt p r.told = events at life
  cases life <;> simp [List.filterMap_cons, Event.report?]

/-- A stage that fails to undo its work is reported so. -/
theorem run_reports_failedRollback {f : Flow (Stage σ)} {world : σ} {x : Moment σ}
    (hx : x ∈ f.moments world) (failed : x.event.isFailedRollback) :
    (f.run world).report.withStatus .cancellationFailed ≠ [] := by
  have ran := f.placed_mayRun world
  have perm : ((f.placed world).result.entries.filter (·.status = .cancellationFailed)).Perm
      ((entriesTold (f.placed world).result.told).filter (·.status = .cancellationFailed)) :=
    FlowMayRun.entries_perm ran (fun _ => rfl) fun _ _ _ _ _ _ _ => rfl
  obtain ⟨entry, told, status⟩ : ∃ entry, x.event.report? = some entry ∧
      entry.status = .cancellationFailed := by
    cases he : x.event <;> simp_all [Event.isFailedRollback, Event.report?]
  have there : entry ∈ (entriesTold (f.placed world).result.told).filter
      (·.status = .cancellationFailed) := by
    refine List.mem_filter.mpr ⟨List.mem_filterMap.mpr ⟨x.told, ?_, told⟩, by simp [status]⟩
    exact List.mem_map_of_mem hx
  rw [run_report]
  exact List.ne_nil_of_mem (perm.mem_iff.mpr there)

end Flow

end Provisioning
