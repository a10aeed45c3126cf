import Provisioning.Proofs.Flow.Fates

/-!
# The lifecycle of flows and stages

Everything is announced before anything happens. Then each stage fails, or succeeds and may later be
called once to undo its work, or is skipped; each flow is skipped, or starts and ends, and may end
once more when its work is undone. A flow ends last of all that is in it, and the outermost flow
last of all. This holds with any number of workers.
-/

namespace Provisioning

variable {σ : Type}

/-- Whether the event is an announcement. -/
def Event.isQueued : Event → Bool
  | flowQueued _ | stageQueued _ => true
  | _ => false

/-- What is told of the node at a place. -/
def toldAt (p : Place) (told : List Told) : List Event :=
  (told.filter fun t => decide (t.place = p)).map (·.event)

/-- What may be told of a stage after its announcement. -/
inductive StageLife (info : StageInfo) : List Event → Prop where
  /-- It fails. -/
  | failed (detail : String) : StageLife info [.stageStart info, .stageError info detail]
  /-- It succeeds. -/
  | succeeded : StageLife info [.stageStart info, .stageSuccess info]
  /-- It succeeds and is called to undo its work. -/
  | rolledBack {status : ExecutionStatus} (detail : String)
    (ends : status = .cancelled ∨ status = .cancellationFailed) :
    StageLife info [.stageStart info, .stageSuccess info, .stageRollback info status detail]
  /-- It is skipped. -/
  | skipped (reason : String) : StageLife info [.stageSkipped info reason]

/-- What may be told of a flow after its announcement. -/
inductive FlowLife (info : FlowInfo) : List Event → Prop where
  /-- It is skipped. -/
  | skipped : FlowLife info [.flowFinish info .skipped]
  /-- It starts and ends. -/
  | ended {status : ExecutionStatus} (ends : status = .finished ∨ status = .failed ∨
      status = .cancelled ∨ status = .cancellationFailed) :
    FlowLife info [.flowStart info, .flowFinish info status]
  /-- It finishes, and its work is undone. -/
  | undone {status : ExecutionStatus} (ends : status = .cancelled ∨ status = .cancellationFailed) :
    FlowLife info [.flowStart info, .flowFinish info .finished, .flowFinish info status]

/-- What is told after the announcement of a flow follows the lifecycle of its flows and stages. -/
structure Flow.Lifecycle (f : Flow (Stage σ)) (told : List Told) : Prop where
  /-- Nothing is announced later. -/
  started : ∀ t ∈ told, t.event.isQueued = false
  /-- Everything is told of a flow or a stage. -/
  seated : ∀ t ∈ told, ∃ s ∈ f.seats, s.place = t.place
  /-- Each stage fails, succeeds, is rolled back or is skipped. -/
  stages : ∀ p leaf, .stage p leaf ∈ f.seats → StageLife leaf.info (toldAt p told)
  /-- Each flow is skipped, or ends, or ends and is undone. -/
  flows : ∀ p path info header nodes, .flow p path info header nodes ∈ f.seats →
    FlowLife info (toldAt p told)
  /-- Whatever is told of what is in a flow, the flow ends after it. -/
  inner : ∀ p path info header nodes, .flow p path info header nodes ∈ f.seats →
    ∀ earlier t later, told = earlier ++ t :: later → p <+: t.place → t.place ≠ p →
      ∃ status, ⟨p, .flowFinish info status⟩ ∈ later
  /-- The last thing that is told is the end of the flow itself, which ends only once. -/
  last : ∃ earlier status, told = earlier ++ [⟨[], .flowFinish (FlowInfo.root f.header) status⟩] ∧
    ∀ t ∈ earlier, t.place = [] → t.event = .flowStart (FlowInfo.root f.header)

/-! ## What is told of a node -/

theorem toldAt_toldBelow {p q : Place} (below : p <+: q) (told : List Told) :
    toldAt q (toldBelow p told) = toldAt q told := by
  rw [toldAt, toldAt, toldBelow, List.filter_filter]
  congr 1
  refine List.filter_congr fun t _ => ?_
  by_cases h : t.place = q <;> simp [h, below]

theorem toldAt_append (p : Place) (told told' : List Told) :
    toldAt p (told ++ told') = toldAt p told ++ toldAt p told' := by simp [toldAt]

@[simp] theorem toldAt_nil (p : Place) : toldAt p [] = [] := rfl

@[simp]
theorem toldAt_cons_self (p : Place) (e : Event) (told : List Told) :
    toldAt p (⟨p, e⟩ :: told) = e :: toldAt p told := by simp [toldAt]

theorem Place.ne_of_child {p q : Place} {k : Nat} (inside : p ++ [k] <+: q) : q ≠ p := by
  rintro rfl
  have longer := inside.length_le
  rw [List.length_append, List.length_singleton] at longer
  omega

theorem toldAt_children {p : Place} {told : List Told}
    (h : ∀ t ∈ told, ∃ k, p ++ [k] <+: t.place) : toldAt p told = [] := by
  rw [toldAt, List.filter_eq_nil_iff.mpr, List.map_nil]
  intro t ht
  obtain ⟨k, inside⟩ := h t ht
  simpa using Place.ne_of_child inside

theorem mem_toldAt {p : Place} {e : Event} {told : List Told} :
    e ∈ toldAt p told ↔ ⟨p, e⟩ ∈ told := by
  simp only [toldAt, List.mem_map, List.mem_filter, decide_eq_true_eq]
  constructor
  · rintro ⟨⟨q, e⟩, ⟨ht, rfl⟩, rfl⟩
    exact ht
  · exact fun ht => ⟨_, ⟨ht, rfl⟩, rfl⟩

/-! ## Stages -/

theorem Fate.stageLife {p : Place} {leaf : Leaf (Stage σ)} {told : List Told} {work : List Work}
    {lost : Prop} (fate : Fate (.stage p leaf) told work lost) :
    StageLife leaf.info (toldAt p told) := by
  have alone (outcome : Except StageError Unit) :
      StageLife leaf.info (toldAt p (NodeResult.ofStage p leaf outcome).told) := by
    cases outcome with
    | ok => simpa [NodeResult.ofStage] using StageLife.succeeded
    | error e => simpa [NodeResult.ofStage] using StageLife.failed _
  cases fate with
  | skipped tells =>
    subst tells
    simpa [Seat.skipTold] using StageLife.skipped _
  | ran ran tells | dropped ran tells =>
    obtain ⟨outcome, rfl⟩ := ran
    exact tells ▸ alone outcome
  | undone ran undone tells =>
    obtain ⟨outcome, rfl⟩ := ran
    subst tells
    rw [toldAt_append]
    -- Only a stage that succeeded has left something to undo, and that is one piece of work.
    cases outcome with
    | error e =>
      rw [undone.nil_eq, Undoing.none, toldAt_nil, List.append_nil]
      exact alone _
    | ok =>
      rw [NodeResult.ofStage] at undone
      generalize leaf.stage.isCancellable = cancellable at undone
      cases undone.of_single with
      | stays => simpa [Undoing.none] using alone (.ok ())
      | cancelled outcome =>
        cases outcome with
        | ok =>
          simpa [NodeResult.ofStage, Undoing.ofStage] using StageLife.rolledBack _ (.inl rfl)
        | error e =>
          simpa [NodeResult.ofStage, Undoing.ofStage] using StageLife.rolledBack _ (.inr rfl)

/-! ## Flows -/

/-- What is told of the flow at a place and of what is in it. -/
inductive FlowTold (p : Place) (info : FlowInfo) : List Told → Prop where
  /-- It is skipped after all that is in it. -/
  | skipped {inner : List Told} (inside : ∀ t ∈ inner, ∃ k, p ++ [k] <+: t.place) :
    FlowTold p info (inner ++ [⟨p, .flowFinish info .skipped⟩])
  /-- It starts, things happen in it, and it ends. -/
  | ended {inner : List Told} {status : ExecutionStatus}
    (inside : ∀ t ∈ inner, ∃ k, p ++ [k] <+: t.place)
    (ends : status = .finished ∨ status = .failed ∨ status = .cancelled ∨
      status = .cancellationFailed) :
    FlowTold p info (⟨p, .flowStart info⟩ :: inner ++ [⟨p, .flowFinish info status⟩])
  /-- It starts, things happen in it, and it finishes; then its work is undone, and it ends
  again. -/
  | undone {inner undoing : List Told} {status : ExecutionStatus}
    (inside : ∀ t ∈ inner, ∃ k, p ++ [k] <+: t.place)
    (inside' : ∀ t ∈ undoing, ∃ k, p ++ [k] <+: t.place)
    (ends : status = .cancelled ∨ status = .cancellationFailed) :
    FlowTold p info (⟨p, .flowStart info⟩ :: inner ++ [⟨p, .flowFinish info .finished⟩]
      ++ (undoing ++ [⟨p, .flowFinish info status⟩]))

namespace FlowTold

variable {p : Place} {info : FlowInfo} {told : List Told}

theorem life (h : FlowTold p info told) : FlowLife info (toldAt p told) := by
  cases h with
  | skipped inside => simpa [toldAt_append, toldAt_children inside] using FlowLife.skipped
  | ended inside ends =>
    simpa [toldAt_append, toldAt_children inside] using FlowLife.ended ends
  | undone inside inside' ends =>
    simpa [toldAt_append, toldAt_children inside, toldAt_children inside'] using
      FlowLife.undone ends

theorem last (h : FlowTold p info told) :
    ∃ earlier status, told = earlier ++ [⟨p, .flowFinish info status⟩] := by
  cases h with
  | skipped | ended => exact ⟨_, _, rfl⟩
  | undone => exact ⟨_, _, (List.append_assoc _ _ _).symm⟩

end FlowTold

theorem Rollback.status_cases (complete : Bool) :
    Rollback.status complete = .cancelled ∨ Rollback.status complete = .cancellationFailed := by
  cases complete <;> simp [Rollback.status]

/-- A flow that runs by itself ends last, with its status, and before that at most its start is told
of it. -/
theorem FlowMayRun.ends_last {info : FlowInfo} {path : String} {p : Place} {header : FlowHeader}
    {nodes : List (FlowNode (Stage σ))} {r : NodeResult}
    (ran : FlowMayRun info path p header nodes r) :
    ∃ earlier, r.told = earlier ++ [⟨p, .flowFinish info r.status⟩] ∧
      ∀ t ∈ earlier, t.place = p → t.event = .flowStart info := by
  cases ran with
  | skipped =>
    refine ⟨_, rfl, fun t ht here => ?_⟩
    obtain ⟨k, inside⟩ := FlowNode.skipToldIn_inside t ht
    exact absurd here (Place.ne_of_child inside)
  | ended runs ran =>
    refine ⟨_, rfl, fun t ht here => ?_⟩
    rcases List.mem_cons.mp ht with rfl | ht
    · rfl
    · obtain ⟨k, inside⟩ := ran.tells_inside.1 t ht
      exact absurd here (Place.ne_of_child inside)

theorem FlowMayRun.flowTold {info : FlowInfo} {path : String} {p : Place} {header : FlowHeader}
    {nodes : List (FlowNode (Stage σ))} {r : NodeResult}
    (ran : FlowMayRun info path p header nodes r) : FlowTold p info r.told := by
  cases ran with
  | skipped => exact .skipped FlowNode.skipToldIn_inside
  | ended runs ran =>
    refine .ended ran.tells_inside.1 ?_
    rcases ran.ends with h | ⟨h, -⟩ | ⟨⟨complete, h⟩, -⟩
    · exact .inl h
    · exact .inr (.inl h)
    · exact .inr (.inr (h ▸ Rollback.status_cases complete))

/-- Undoing the work of a flow does nothing unless the flow finished; then it undoes the work of its
nodes and ends the flow once more. -/
theorem FlowMayRun.undone_cases {info : FlowInfo} {path : String} {p : Place}
    {header : FlowHeader} {nodes : List (FlowNode (Stage σ))} {r : NodeResult}
    (ran : FlowMayRun info path p header nodes r) {u : Undoing} (undone : MayUndoAll r.work u) :
    u = .none ∨ ∃ l v, l.status = .finished ∧
      SequenceMayRun header.strategy info path p 0 [] nodes l ∧ MayUndoAll l.work v ∧
      r = l.ofFlow p info ∧ u = v.ofFlow p info := by
  cases ran with
  | skipped => exact .inl undone.nil_eq
  | @ended _ _ _ _ _ l runs ran =>
    by_cases finished : l.status = .finished
    · rw [NodeResult.ofFlow, if_pos finished] at undone
      cases undone.of_single with
      | @flow _ _ _ v within => exact .inr ⟨l, v, finished, ran, within, rfl, rfl⟩
    · rw [NodeResult.ofFlow, if_neg finished] at undone
      exact .inl undone.nil_eq

theorem FlowMayRun.flowTold_undone {info : FlowInfo} {path : String} {p : Place}
    {header : FlowHeader} {nodes : List (FlowNode (Stage σ))} {r : NodeResult}
    (ran : FlowMayRun info path p header nodes r) {u : Undoing} (undone : MayUndoAll r.work u) :
    FlowTold p info (r.told ++ u.told) := by
  rcases ran.undone_cases undone with rfl | ⟨l, v, finished, nodesRan, within, rfl, rfl⟩
  · rw [Undoing.none, List.append_nil]
    exact ran.flowTold
  · obtain ⟨told, work⟩ := nodesRan.tells_inside
    simp only [NodeResult.ofFlow, finished]
    exact .undone told (fun t ht => work _ (within.tells t ht)) (Rollback.status_cases _)

theorem Fate.flowTold {p : Place} {path : String} {info : FlowInfo} {header : FlowHeader}
    {nodes : List (FlowNode (Stage σ))} {told : List Told} {work : List Work} {lost : Prop}
    (fate : Fate (.flow p path info header nodes) told work lost) : FlowTold p info told := by
  cases fate with
  | skipped tells =>
    rw [tells]
    exact .skipped FlowNode.skipToldIn_inside
  | ran ran tells | dropped ran tells => exact tells ▸ FlowMayRun.flowTold ran
  | undone ran undone tells => exact tells ▸ FlowMayRun.flowTold_undone ran undone

/-! ## Runs -/

theorem StageLife.not_queued {info : StageInfo} {events : List Event} (h : StageLife info events) :
    ∀ e ∈ events, e.isQueued = false := by
  cases h <;> simp [Event.isQueued]

theorem FlowLife.not_queued {info : FlowInfo} {events : List Event} (h : FlowLife info events) :
    ∀ e ∈ events, e.isQueued = false := by
  cases h <;> simp [Event.isQueued]

theorem mem_of_append_eq_concat {β : Type} {earlier later init : List β} {x last : β}
    (h : earlier ++ x :: later = init ++ [last]) (ne : x ≠ last) : last ∈ later := by
  rcases List.eq_nil_or_concat later with rfl | ⟨rest, final, rfl⟩
  · exact absurd (List.cons.inj (List.append_inj_right' h rfl)).1 ne
  · rw [List.concat_eq_append, ← List.cons_append, ← List.append_assoc] at h
    obtain rfl := (List.cons.inj (List.append_inj_right' h rfl)).1
    simp

namespace Flow

theorem MayRun.lifecycle {f : Flow (Stage σ)} {r : NodeResult} (ran : f.MayRun r) :
    f.Lifecycle r.told := by
  have stages (p : Place) (leaf : Leaf (Stage σ)) (hs : .stage p leaf ∈ f.seats) :
      StageLife leaf.info (toldAt p r.told) := by
    rw [← toldAt_toldBelow (List.prefix_refl _)]
    exact (ran.fate hs).stageLife
  have flows {p : Place} {path : String} {info : FlowInfo} {header : FlowHeader}
      {nodes : List (FlowNode (Stage σ))} (hs : .flow p path info header nodes ∈ f.seats) :
      FlowTold p info (toldBelow p r.told) := (ran.fate hs).flowTold
  have seated : ∀ t ∈ r.told, ∃ s ∈ f.seats, s.place = t.place :=
    (FlowMayRun.tells (S := fun p => ∃ s ∈ f.seats, s.place = p) ran
      ⟨f.seat, List.mem_cons_self, rfl⟩ fun s hs => ⟨s, List.mem_cons_of_mem _ hs, rfl⟩).1
  refine
    { started := fun t ht => ?_, seated, stages
      flows := fun p _ _ _ _ hs => toldAt_toldBelow (List.prefix_refl _) _ ▸ (flows hs).life
      inner := fun p _ _ _ _ hs earlier t later split below other => ?_
      last := ?_ }
  · obtain ⟨s, hs, same⟩ := seated t ht
    have there : t.event ∈ toldAt s.place r.told := mem_toldAt.mpr (same ▸ ht)
    cases s with
    | stage p leaf => exact (stages p leaf hs).not_queued _ there
    | flow p path info header nodes =>
      rw [Seat.place_flow, ← toldAt_toldBelow (List.prefix_refl _)] at there
      exact (flows hs).life.not_queued _ there
  · -- The flow ends last of what is told at or below it, and that keeps the order of the whole.
    obtain ⟨init, status, ends⟩ := (flows hs).last
    rw [split, toldBelow_append, toldBelow, toldBelow,
      List.filter_cons_of_pos (by simpa using below)] at ends
    have after := mem_of_append_eq_concat ends fun same => other (same ▸ rfl)
    exact ⟨status, (mem_toldBelow.mp after).1⟩
  · obtain ⟨earlier, ends, start⟩ := FlowMayRun.ends_last ran
    exact ⟨earlier, r.status, ends, start⟩

/-- Everything is announced first, each flow and each stage once; what follows keeps to the
lifecycle, with any number of workers and so also when the children of a group come one after
another. -/
theorem follows_lifecycle (f : Flow (Stage σ)) :
    f.announce = f.seats.map Seat.queued ∧ (f.seats.map Seat.place).Nodup ∧
      (∀ r, f.MayRun r → f.Lifecycle r.told) ∧
      ∀ world, ∃ told, (f.run world).events = f.announce ++ told.map (·.event) ∧
        f.Lifecycle told :=
  ⟨f.announce_eq, f.seats_nodup, fun _ ran => ran.lifecycle,
    fun world => ⟨_, f.run_eventsOf world, (f.placed_mayRun world).lifecycle⟩⟩

end Flow

end Provisioning
