import Provisioning.Proofs.Flow.Completion
import Provisioning.Proofs.Flow.Reported

/-!
# What a report tells of a run

A report and the events of a run are put together independently, through every nested flow, group
and rollback. The entries of the report are exactly what is told of stages that fail or are called
to undo their work and of flows that the run gets to and that are not to be run, in the order in
which it is told; the run succeeds unless one of them tells of a failure.
-/

namespace Provisioning

variable {α σ : Type}

/-! ## Failures -/

/-- Whether a stage is told to have failed at or below a place. -/
def failsBelow (told : List Told) (p : Place) : Bool :=
  told.any fun t => t.event.isError && p.isPrefixOf t.place

theorem failsBelow_append (told told' : List Told) (p : Place) :
    failsBelow (told ++ told') p = (failsBelow told p || failsBelow told' p) :=
  List.any_append

theorem failsBelow_eq_false {told : List Told} {p : Place}
    (h : ∀ t ∈ told, t.event.isError → ¬ p <+: t.place) : failsBelow told p = false := by
  rw [failsBelow, List.any_eq_false]
  intro t ht fails
  rw [Bool.and_eq_true, List.isPrefixOf_iff_prefix] at fails
  exact h t ht fails.1 fails.2

/-- A node that tells only of places at or below its own fails there if any of them does. -/
theorem failsBelow_eq_any {told : List Told} {p : Place} (below : ∀ t ∈ told, p <+: t.place) :
    failsBelow told p = told.any (·.event.isError) := by
  rw [failsBelow, Bool.eq_iff_iff, List.any_eq_true, List.any_eq_true]
  refine exists_congr fun t => and_congr_right fun ht => ?_
  rw [Bool.and_eq_true, List.isPrefixOf_iff_prefix]
  exact and_iff_left (below t ht)

/-- The first child of a list fails by what it tells itself. -/
theorem failsBelow_head {told later : List Told} {place q : Place} {i : Nat}
    (apart : ∀ t ∈ later, t.event.isError → ∃ k ≥ i + 1, place ++ [k] <+: t.place)
    (hq : place ++ [i] <+: q) : failsBelow (told ++ later) q = failsBelow told q := by
  have others : failsBelow later q = false := by
    refine failsBelow_eq_false fun t ht fails below => ?_
    obtain ⟨k, hk, there⟩ := apart t ht fails
    have same := Place.child_unique (hq.trans below) there
    omega
  rw [failsBelow_append, others, Bool.or_false]

/-- The later children of a list fail by what they tell. -/
theorem failsBelow_tail {told later : List Told} {place q : Place} {i k : Nat}
    (below : ∀ t ∈ told, place ++ [i] <+: t.place) (hk : k ≥ i + 1) (hq : place ++ [k] <+: q) :
    failsBelow (told ++ later) q = failsBelow later q := by
  have others : failsBelow told q = false := by
    refine failsBelow_eq_false fun t ht _ there => ?_
    have same := Place.child_unique (below t ht) (hq.trans there)
    omega
  rw [failsBelow_append, others, Bool.false_or]

theorem any_isError_eq_false {ms : List (Moment σ)}
    (backward : ∀ x ∈ ms, x.event.isForward = false) :
    (ms.map (·.told)).any (·.event.isError) = false := by
  rw [List.any_eq_false]
  intro t ht fails
  obtain ⟨x, hx, rfl⟩ := List.mem_map.mp ht
  have forward := Event.isForward_of_isError fails
  simp [Moment.told, backward x hx] at forward

namespace Placed

/-- A list that stops has failed. -/
theorem runAll_failed_of_stopped (onFailure : OnFailure) (info : FlowInfo) (path : String)
    (place : Place) (i : Nat) (m : Machine σ) (completed : List (Completed σ))
    (nodes : List (FlowNode (Stage σ)))
    (stopped : (runAll onFailure info path place i m completed nodes).stopped.isSome) :
    (runAll onFailure info path place i m completed nodes).failed = true := by
  induction nodes generalizing i m completed with
  | nil => simp [runAll] at stopped
  | cons node rest ih =>
    rcases stops_or_goes onFailure (run info path (place ++ [i]) m node) with ⟨rfl, hf⟩ | goes
    · rw [runAll_stop hf]
      simp [ListRun.stop, ListRun.failed, hf]
    · rw [runAll_go goes] at stopped ⊢
      have later := ih _ _ _ stopped
      simp only [ListRun.failed] at later
      simp [ListRun.cons, ListRun.failed, later]

theorem flowStatus_isFailure_eq {r : ListRun σ} (stopped : r.stopped.isSome → r.failed = true) :
    r.flowStatus.isFailure = r.failed := by
  unfold ListRun.flowStatus
  cases hs : r.stopped with
  | some undone => rw [Rollback.status_isFailure, stopped (by simp [hs])]
  | none => cases r.failed <;> rfl

/-- A flow fails exactly if a stage in it does, if that is so of its nodes. -/
theorem runFlow_isFailure (info : FlowInfo) (path : String) (place : Place) (m : Machine σ)
    (header : FlowHeader) (nodes : List (FlowNode (Stage σ)))
    (ih : (runAll (.ofStrategy header.strategy) info path place 0 m [] nodes).failed
      = ((runAll (.ofStrategy header.strategy) info path place 0 m [] nodes).moments.map
          (·.told)).any (·.event.isError)) :
    (runFlow info path place m header nodes).status.isFailure
      = ((runFlow info path place m header nodes).moments.map (·.told)).any (·.event.isError) := by
  unfold runFlow
  cases header.skipReason with
  | some reason =>
    rw [any_isError_eq_false fun x hx => (skippedRun_skips hx).backward]
    rfl
  | none =>
    have status := flowStatus_isFailure_eq
      (runAll_failed_of_stopped (.ofStrategy header.strategy) info path place 0 m [] nodes)
    simp only [ListRun.flow, status, ih]
    simp [Event.isError]

mutual

/-- A node fails exactly if a stage in it does, whatever the strategies of its flows. -/
theorem run_isFailure (info : FlowInfo) (path : String) (place : Place) (m : Machine σ)
    (node : FlowNode (Stage σ)) :
    (run info path place m node).status.isFailure
      = ((run info path place m node).moments.map (·.told)).any (·.event.isError) := by
  cases node with
  | stage s =>
    cases ho : (s.execute (m.context (info.stage path s.name) info.scope) m.world).outcome <;>
      simp [run, stageRun, Stage.run, ho, Event.isError, ExecutionStatus.isFailure]
  | flow header nodes =>
    rw [run_flow]
    exact runFlow_isFailure _ _ place m header nodes
      (runAll_failed (.ofStrategy header.strategy) _ _ place 0 m [] nodes)
  | parallel name children =>
    have ih := runAll_failed .keep info (FlowNode.childPath path name) place 0 m [] children
    rw [run, ListRun.group, foldl_groupStatus_isFailure]
    exact ih

theorem runAll_failed (onFailure : OnFailure) (info : FlowInfo) (path : String) (place : Place)
    (i : Nat) (m : Machine σ) (completed : List (Completed σ)) (nodes : List (FlowNode (Stage σ))) :
    (runAll onFailure info path place i m completed nodes).failed
      = ((runAll onFailure info path place i m completed nodes).moments.map (·.told)).any
          (·.event.isError) := by
  cases nodes with
  | nil => rfl
  | cons node rest =>
    have first := run_isFailure info path (place ++ [i]) m node
    rcases stops_or_goes onFailure (run info path (place ++ [i]) m node) with ⟨rfl, hf⟩ | goes
    · rw [runAll_stop hf]
      rw [hf] at first
      simp only [ListRun.stop, ListRun.failed, List.map_append, List.any_append, ← first]
      simp [hf]
    · have later := runAll_failed onFailure info path place (i + 1)
        (run info path (place ++ [i]) m node).machine
        (onFailure.kept (run info path (place ++ [i]) m node) ++ completed) rest
      rw [runAll_go goes]
      simp only [ListRun.cons, ListRun.failed, List.any_cons, List.map_append, List.any_append]
      rw [first, ← later]
      rfl

end

end Placed

/-! ## Flows that are not to be run -/

/-- The entry about a flow with a path, if it is not to be run. -/
def FlowHeader.disqualified? (header : FlowHeader) (path : String) : Option StageReport :=
  header.skipReason.map fun reason => .ofOutcome path (.skipped s!"SKIPPED: {reason}")

namespace FlowNode

mutual

/-- The entry about the flow at a place of a node, if the run gets to it and it is not to be run.
Which nodes fail is given by their places. -/
def disqualified? (fails : Place → Bool) (path : String) (place : Place) :
    FlowNode α → Place → Option StageReport
  | flow header _, [] => header.disqualified? (childPath path header.id)
  | flow header nodes, k :: rest =>
    if header.skipReason.isSome then none
    else
      disqualifiedIn? fails (.ofStrategy header.strategy) (childPath path header.id) place 0 nodes k
        rest
  | parallel name children, k :: rest =>
    disqualifiedIn? fails .keep (childPath path name) place 0 children k rest
  | _, _ => none

/-- The entry about the flow at a place below one of several nodes, of which the first one is the
child of a place with the position: the run gets there unless a node before it has stopped it. -/
def disqualifiedIn? (fails : Place → Bool) (onFailure : Placed.OnFailure) (path : String)
    (place : Place) (i : Nat) : List (FlowNode α) → Nat → Place → Option StageReport
  | [], _, _ => none
  | node :: _, 0, rest => disqualified? fails path (place ++ [i]) node rest
  | _ :: nodes, k + 1, rest =>
    if onFailure = .stop ∧ fails (place ++ [i]) = true then none
    else disqualifiedIn? fails onFailure path place (i + 1) nodes k rest

end

end FlowNode

/-- The entry about the flow at a place, if the run gets to it and it is not to be run. Which nodes
fail is given by their places. -/
def Flow.disqualified? (f : Flow α) (fails : Place → Bool) : Place → Option StageReport
  | [] => f.header.disqualified? f.id
  | k :: rest =>
    if f.header.skipReason.isSome then none
    else FlowNode.disqualifiedIn? fails (.ofStrategy f.header.strategy) f.id [] 0 f.nodes k rest

/-- The entry that something told gives, where it is given which flows are reached and not to be
run. -/
def Told.reported? (skipEntry : Place → Option StageReport) (t : Told) : Option StageReport :=
  match t.event with
  | .flowFinish _ .skipped => skipEntry t.place
  | e => e.report?

/-! ## Entries -/

/-- The entries are those that the told events give, and each flow inside that the run gets to and
that is not to be run is told to end as skipped. -/
structure Chronicles (skipEntry : Place → Option StageReport) (inside : Place → Prop)
    (entries : List StageReport) (told : List Told) : Prop where
  /-- The entries, in the order of the events. -/
  entries_eq : entries = told.filterMap (Told.reported? skipEntry)
  /-- No flow is left out. -/
  reached : ∀ p, inside p → (skipEntry p).isSome → ∃ info, ⟨p, .flowFinish info .skipped⟩ ∈ told

section

variable {skipEntry : Place → Option StageReport}

theorem Chronicles.append {inside inside' inside'' : Place → Prop}
    {entries entries' : List StageReport} {told told' : List Told}
    (first : Chronicles skipEntry inside entries told)
    (second : Chronicles skipEntry inside' entries' told')
    (either : ∀ p, inside'' p → inside p ∨ inside' p) :
    Chronicles skipEntry inside'' (entries ++ entries') (told ++ told') where
  entries_eq := by rw [List.filterMap_append, ← first.entries_eq, ← second.entries_eq]
  reached p hp he := by
    rcases either p hp with hp | hp
    · obtain ⟨info, there⟩ := first.reached p hp he
      exact ⟨info, List.mem_append_left _ there⟩
    · obtain ⟨info, there⟩ := second.reached p hp he
      exact ⟨info, List.mem_append_right _ there⟩

theorem Told.reported?_finish {p : Place} {info : FlowInfo} {status : ExecutionStatus}
    (ran : status ≠ .skipped) :
    (Told.mk p (.flowFinish info status)).reported? skipEntry = none := by
  cases status <;> first | rfl | exact absurd rfl ran

theorem Rollback.status_ne_skipped (complete : Bool) : Rollback.status complete ≠ .skipped := by
  cases complete <;> simp [Rollback.status]

namespace Placed

theorem flowStatus_ne_skipped (r : ListRun σ) : r.flowStatus ≠ .skipped := by
  unfold ListRun.flowStatus
  cases r.stopped with
  | some undone => exact Rollback.status_ne_skipped undone
  | none => cases r.failed <;> simp

mutual

/-- What is reported of undoing work is what is told of it. -/
theorem Completed.rollback_entries (m : Machine σ) (c : Completed σ) :
    (Completed.rollback m c).entries
      = ((Completed.rollback m c).moments.map (·.told)).filterMap (Told.reported? skipEntry) := by
  cases c with
  | stage place leaf =>
    unfold Completed.rollback Completed.rollbackStage Provisioning.Completed.rollbackStage
    cases leaf.stage.cancel with
    | none => rfl
    | some cancel =>
      cases ho : (cancel (m.context leaf.info leaf.scope) m.world).outcome <;>
        simp [ho, Moment.told, Told.reported?, Event.report?, StageReport.ofOutcome,
          StageOutcome.status, StageOutcome.detail]
  | flow place info children =>
    have within := rollbackAll_entries m children
    have ends : (Told.mk place (.flowFinish info
        (Rollback.status (Completed.rollbackAll m children).complete))).reported? skipEntry = none :=
      Told.reported?_finish (Rollback.status_ne_skipped _)
    simp [Completed.rollback, within, Moment.told, ends]
  | parallel children => exact rollbackAll_entries m children

theorem Completed.rollbackAll_entries (m : Machine σ) (cs : List (Completed σ)) :
    (Completed.rollbackAll m cs).entries
      = ((Completed.rollbackAll m cs).moments.map (·.told)).filterMap (Told.reported? skipEntry) := by
  cases cs with
  | nil => rfl
  | cons c rest =>
    have first := rollback_entries m c
    have later := rollbackAll_entries (Completed.rollback m c).machine rest
    simp only [Completed.rollbackAll, Rollback.andThen, List.map_append, List.filterMap_append]
    rw [first, later]

end

variable {fails : Place → Bool} {info : FlowInfo} {path : String} {place : Place} {m : Machine σ}

theorem skipAll_child {reason : String} {i : Nat} {nodes : List (FlowNode (Stage σ))}
    {x : Moment σ} (hx : x ∈ skipAll info path reason place i m nodes) :
    ∃ k ≥ i, place ++ [k] <+: x.place := by
  induction nodes generalizing i with
  | nil => simp [skipAll] at hx
  | cons node rest ih =>
    rw [skipAll, List.mem_append] at hx
    rcases hx with hx | hx
    · exact ⟨i, le_rfl, (skip_skips hx).below⟩
    · obtain ⟨k, hk, below⟩ := ih hx
      exact ⟨k, by omega, below⟩

/-- Nothing is reported of nodes that the run does not get to. -/
theorem skipAll_entries {reason : String} {i : Nat} {nodes : List (FlowNode (Stage σ))}
    (unreached : ∀ k ≥ i, ∀ q, skipEntry (place ++ k :: q) = none) :
    ((skipAll info path reason place i m nodes).map (·.told)).filterMap (Told.reported? skipEntry)
      = [] := by
  rw [List.filterMap_eq_nil_iff]
  intro t ht
  obtain ⟨x, hx, rfl⟩ := List.mem_map.mp ht
  rcases (skipAll_skips hx).event with ⟨stage, reason, he⟩ | ⟨flow, he⟩
  · simp [Moment.told, he, Told.reported?, Event.report?]
  · obtain ⟨k, hk, rest, below⟩ := skipAll_child hx
    have nothing := unreached k hk rest
    rw [List.append_cons, below] at nothing
    simpa [Moment.told, he, Told.reported?] using nothing

/-- A flow that is not to be run is reported, and nothing in it. -/
theorem skippedRun_chronicles {reason : String} {nodes : List (FlowNode (Stage σ))}
    (here : skipEntry place = some (.ofOutcome path (.skipped s!"SKIPPED: {reason}")))
    (unreached : ∀ k q, skipEntry (place ++ k :: q) = none) :
    Chronicles skipEntry (place <+: ·) (skippedRun info path reason place nodes m).entries
      ((skippedRun info path reason place nodes m).moments.map (·.told)) := by
  constructor
  · have below : ((skipAll info path reason place 0 m nodes).map (·.told)).filterMap
        (Told.reported? skipEntry) = [] := skipAll_entries fun k _ q => unreached k q
    simp only [skippedRun, List.map_append, List.filterMap_append, below]
    simp [Moment.told, Told.reported?, here]
  · intro p hp he
    obtain ⟨rest, rfl⟩ := hp
    cases rest with
    | nil => exact ⟨info, by simp [skippedRun]⟩
    | cons k q => simp [unreached k q] at he

/-- A flow that runs reports what its nodes report. -/
theorem ListRun.flow_chronicles {r : ListRun σ} (here : skipEntry place = none)
    (within : Chronicles skipEntry (fun p => ∃ k ≥ 0, place ++ [k] <+: p) r.entries
      (r.moments.map (·.told))) :
    Chronicles skipEntry (place <+: ·) (r.flow place info m).entries
      ((r.flow place info m).moments.map (·.told)) := by
  constructor
  · have starts : (Told.mk place (.flowStart info)).reported? skipEntry = none := rfl
    have ends : (Told.mk place (.flowFinish info r.flowStatus)).reported? skipEntry = none :=
      Told.reported?_finish (flowStatus_ne_skipped r)
    simp only [ListRun.flow, List.map_append, List.map_cons, List.map_nil, Moment.told_mk,
      List.cons_append, List.filterMap_cons, starts, List.filterMap_append, ends,
      List.filterMap_nil, List.append_nil]
    exact within.entries_eq
  · intro p hp he
    obtain ⟨rest, rfl⟩ := hp
    cases rest with
    | nil => simp [here] at he
    | cons k q =>
      obtain ⟨flow, there⟩ := within.reached (place ++ k :: q) ⟨k, Nat.zero_le k, q, by simp⟩ he
      refine ⟨flow, ?_⟩
      simp only [ListRun.flow, List.cons_append, List.map_cons, List.map_append]
      exact List.mem_cons_of_mem _ (List.mem_append_left _ there)

/-- The run of a flow reports what it tells if the run of its nodes does. -/
theorem runFlow_chronicles {header : FlowHeader} {nodes : List (FlowNode (Stage σ))}
    (failing : ∀ q, place <+: q →
      fails q = failsBelow ((runFlow info path place m header nodes).moments.map (·.told)) q)
    (here : skipEntry place = header.disqualified? path)
    (inner : ∀ k q, skipEntry (place ++ k :: q)
      = if header.skipReason.isSome then none
        else FlowNode.disqualifiedIn? fails (.ofStrategy header.strategy) path place 0 nodes k q)
    (ih : (∀ k ≥ 0, ∀ q, place ++ [k] <+: q → fails q = failsBelow
        ((runAll (.ofStrategy header.strategy) info path place 0 m [] nodes).moments.map
          (·.told)) q) →
      (∀ k q, skipEntry (place ++ (0 + k) :: q)
        = FlowNode.disqualifiedIn? fails (.ofStrategy header.strategy) path place 0 nodes k q) →
      Chronicles skipEntry (fun p => ∃ k ≥ 0, place ++ [k] <+: p)
        (runAll (.ofStrategy header.strategy) info path place 0 m [] nodes).entries
        ((runAll (.ofStrategy header.strategy) info path place 0 m [] nodes).moments.map
          (·.told))) :
    Chronicles skipEntry (place <+: ·) (runFlow info path place m header nodes).entries
      ((runFlow info path place m header nodes).moments.map (·.told)) := by
  unfold runFlow at failing ⊢
  cases hs : header.skipReason with
  | some reason =>
    simp only [FlowHeader.disqualified?, hs, Option.map_some, Option.isSome_some, ↓reduceIte]
      at here inner ⊢
    exact skippedRun_chronicles here inner
  | none =>
    simp only [FlowHeader.disqualified?, hs, Option.map_none, Option.isSome_none, Bool.false_eq_true,
      ↓reduceIte] at failing here inner ⊢
    refine ListRun.flow_chronicles here (ih (fun k _ q hq => ?_) fun k q => ?_)
    · rw [failing q (Place.below_of_child hq)]
      simp [ListRun.flow, failsBelow, Event.isError]
    · rw [Nat.zero_add, inner k q]

theorem child_or_later {i : Nat} {p : Place} (inside : ∃ k ≥ i, place ++ [k] <+: p) :
    place ++ [i] <+: p ∨ ∃ k ≥ i + 1, place ++ [k] <+: p := by
  obtain ⟨k, hk, below⟩ := inside
  rcases Nat.eq_or_lt_of_le hk with rfl | later
  · exact .inl below
  · exact .inr ⟨k, later, below⟩

/-- A node that stops a list is the last one of which anything is reported, apart from undoing
work. -/
theorem ListRun.stop_chronicles {i : Nat} {first : NodeRun σ} {completed : List (Completed σ)}
    {rest : List (FlowNode (Stage σ))}
    (ran : Chronicles skipEntry (place ++ [i] <+: ·) first.entries (first.moments.map (·.told)))
    (unreached : ∀ k ≥ i + 1, ∀ q, skipEntry (place ++ k :: q) = none) :
    Chronicles skipEntry (fun p => ∃ k ≥ i, place ++ [k] <+: p)
      (ListRun.stop info path place i first completed rest).entries
      ((ListRun.stop info path place i first completed rest).moments.map (·.told)) := by
  simp only [ListRun.stop, List.map_append, List.append_assoc]
  refine ran.append ⟨?_, fun p hp he => ?_⟩ fun p => child_or_later
  · rw [List.filterMap_append, skipAll_entries unreached, List.append_nil,
      Completed.rollbackAll_entries]
  · obtain ⟨k, hk, q, rfl⟩ := hp
    rw [← List.append_cons, unreached k hk q] at he
    simp at he

mutual

/-- The run of a node reports what it tells. -/
theorem run_chronicles {fails : Place → Bool} {info : FlowInfo} {path : String} {place : Place}
    {m : Machine σ} {node : FlowNode (Stage σ)}
    (failing : ∀ q, place <+: q →
      fails q = failsBelow ((run info path place m node).moments.map (·.told)) q)
    (located : ∀ q, skipEntry (place ++ q) = node.disqualified? fails path place q) :
    Chronicles skipEntry (place <+: ·) (run info path place m node).entries
      ((run info path place m node).moments.map (·.told)) := by
  cases node with
  | stage s =>
    constructor
    · cases ho : (s.execute (m.context (info.stage path s.name) info.scope) m.world).outcome <;>
        simp [run, stageRun, Stage.run, ho, List.filterMap_cons, Told.reported?, Event.report?,
          StageReport.ofOutcome, StageOutcome.status, StageOutcome.detail]
    · intro p hp he
      obtain ⟨rest, rfl⟩ := hp
      simp [located rest, FlowNode.disqualified?] at he
  | flow header nodes =>
    rw [run_flow] at failing ⊢
    refine runFlow_chronicles failing ?_ ?_ fun failing located => runAll_chronicles failing located
    · simpa [FlowNode.disqualified?] using located []
    · intro k q
      simpa [FlowNode.disqualified?] using located (k :: q)
  | parallel name children =>
    rw [run] at failing ⊢
    have within := runAll_chronicles
      (fun k _ q hq => failing q (Place.below_of_child hq))
      (fun k q => by simpa [FlowNode.disqualified?] using located (k :: q))
    refine ⟨within.entries_eq, fun p hp he => ?_⟩
    obtain ⟨rest, rfl⟩ := hp
    cases rest with
    | nil =>
      rw [located [], FlowNode.disqualified?.eq_def] at he
      simp at he
    | cons k q => exact within.reached _ ⟨k, Nat.zero_le k, q, by simp⟩ he

theorem runAll_chronicles {fails : Place → Bool} {onFailure : OnFailure} {info : FlowInfo}
    {path : String} {place : Place} {i : Nat} {m : Machine σ} {completed : List (Completed σ)}
    {nodes : List (FlowNode (Stage σ))}
    (failing : ∀ k ≥ i, ∀ q, place ++ [k] <+: q → fails q = failsBelow
      ((runAll onFailure info path place i m completed nodes).moments.map (·.told)) q)
    (located : ∀ k q, skipEntry (place ++ (i + k) :: q)
      = FlowNode.disqualifiedIn? fails onFailure path place i nodes k q) :
    Chronicles skipEntry (fun p => ∃ k ≥ i, place ++ [k] <+: p)
      (runAll onFailure info path place i m completed nodes).entries
      ((runAll onFailure info path place i m completed nodes).moments.map (·.told)) := by
  cases nodes with
  | nil =>
    refine ⟨rfl, fun p ⟨k, hk, q, hp⟩ he => ?_⟩
    obtain ⟨j, rfl⟩ := Nat.exists_eq_add_of_le hk
    rw [← hp, ← List.append_cons, located j q] at he
    simp [FlowNode.disqualifiedIn?] at he
  | cons node rest =>
    have here (q : Place) :
        skipEntry (place ++ [i] ++ q) = node.disqualified? fails path (place ++ [i]) q := by
      simpa [FlowNode.disqualifiedIn?] using located 0 q
    have firstBelow : ∀ t ∈ (run info path (place ++ [i]) m node).moments.map (·.told),
        place ++ [i] <+: t.place := by
      intro t ht
      obtain ⟨x, hx, rfl⟩ := List.mem_map.mp ht
      exact (run_below info path (place ++ [i]) m node).1 x hx
    have firstFails := run_isFailure info path (place ++ [i]) m node
    rw [← failsBelow_eq_any firstBelow] at firstFails
    have later (k : Nat) (q : Place) : skipEntry (place ++ (i + 1 + k) :: q)
        = if onFailure = .stop ∧ fails (place ++ [i]) = true then none
          else FlowNode.disqualifiedIn? fails onFailure path place (i + 1) rest k q := by
      have there := located (k + 1) q
      rwa [FlowNode.disqualifiedIn?, Nat.add_comm k 1, ← Nat.add_assoc] at there
    rcases stops_or_goes onFailure (run info path (place ++ [i]) m node) with ⟨rfl, hf⟩ | goes
    · rw [runAll_stop hf] at failing ⊢
      have failingHere (q : Place) (hq : place ++ [i] <+: q) : fails q
          = failsBelow ((run info path (place ++ [i]) m node).moments.map (·.told)) q := by
        obtain ⟨later, split, backward⟩ := stop_moments info path place i
          (run info path (place ++ [i]) m node) completed rest
        rw [failing i le_rfl q hq, split, List.map_append]
        refine failsBelow_head (fun t ht fails => ?_) hq
        obtain ⟨x, hx, rfl⟩ := List.mem_map.mp ht
        have forward := Event.isForward_of_isError fails
        simp [Moment.told, backward x hx] at forward
      refine ListRun.stop_chronicles (run_chronicles failingHere here) fun k hk q => ?_
      obtain ⟨j, rfl⟩ := Nat.exists_eq_add_of_le hk
      rw [failingHere _ (List.prefix_refl _), ← firstFails, hf] at later
      rw [later j q, if_pos ⟨rfl, rfl⟩]
    · rw [runAll_go goes] at failing ⊢
      have failingHere (q : Place) (hq : place ++ [i] <+: q) : fails q
          = failsBelow ((run info path (place ++ [i]) m node).moments.map (·.told)) q := by
        rw [failing i le_rfl q hq, ListRun.cons, List.map_append]
        refine failsBelow_head (fun t ht fails => ?_) hq
        obtain ⟨x, hx, rfl⟩ := List.mem_map.mp ht
        exact runAll_child hx (.inl (Event.isForward_of_isError fails))
      have locatedLater (k : Nat) (q : Place) : skipEntry (place ++ (i + 1 + k) :: q)
          = FlowNode.disqualifiedIn? fails onFailure path place (i + 1) rest k q := by
        rw [later k q, if_neg]
        rintro ⟨rfl, hf⟩
        rw [failingHere _ (List.prefix_refl _), ← firstFails, goes rfl] at hf
        simp at hf
      simp only [ListRun.cons, List.map_append] at failing ⊢
      refine (run_chronicles failingHere here).append (runAll_chronicles (fun k hk q hq => ?_)
        locatedLater) fun p => child_or_later
      rw [failing k (by omega) q hq, failsBelow_tail firstBelow hk hq]

end

end Placed

end

theorem StageLife.rollback_not_failed {info : StageInfo} {events : List Event}
    (life : StageLife info events) {stage : StageInfo} {detail : String} :
    .stageRollback stage .failed detail ∉ events := by
  cases life with
  | rolledBack _ ends => rcases ends with rfl | rfl <;> simp
  | _ => simp

theorem FlowLife.eq_skipped {info : FlowInfo} {events : List Event} (life : FlowLife info events)
    (skipped : .flowFinish info .skipped ∈ events) : events = [.flowFinish info .skipped] := by
  cases life with
  | skipped => rfl
  | ended ends => rcases ends with rfl | rfl | rfl | rfl <;> simp at skipped
  | undone ends => rcases ends with rfl | rfl <;> simp at skipped

/-! ## Success -/

theorem FlowReport.failure?_eq_none_iff {r : FlowReport} (terminal : r.status.isTerminal) :
    r.failure? = none ↔ r.isSuccess = true := by
  unfold failure? isSuccess
  cases hs : r.status <;> simp_all [ExecutionStatus.isTerminal, ExecutionStatus.isFailure]

theorem Placed.runFlow_isTerminal (info : FlowInfo) (path : String) (place : Place) (m : Machine σ)
    (header : FlowHeader) (nodes : List (FlowNode (Stage σ))) :
    (runFlow info path place m header nodes).status.isTerminal = true := by
  unfold runFlow
  cases header.skipReason with
  | some reason => rfl
  | none =>
    generalize runAll (.ofStrategy header.strategy) info path place 0 m [] nodes = r
    simp only [ListRun.flow, ListRun.flowStatus]
    cases r.stopped with
    | some undone => cases undone <;> rfl
    | none => cases r.failed <;> rfl

namespace Flow

variable (f : Flow (Stage σ)) (world : σ)

/-- What a run tells after the announcement. -/
def told : List Told := (f.moments world).map (·.told)

theorem run_isSuccess :
    (f.run world).report.isSuccess = !(f.told world).any (·.event.isError) := by
  rw [run_report, FlowReport.isSuccess]
  congr 1
  exact Placed.runFlow_isFailure _ _ [] _ f.header f.nodes
    (Placed.runAll_failed (.ofStrategy f.header.strategy) _ _ [] 0 _ [] f.nodes)

/-- A report has an entry of a failure exactly if a stage is told to have failed. -/
theorem reports_failure_iff :
    (∃ entry ∈ (f.run world).report.stages, entry.status = .failed) ↔
      (f.told world).any (·.event.isError) = true := by
  have ran := f.placed_mayRun world
  have perm : ((f.placed world).result.entries.filter (·.status = .failed)).Perm
      ((entriesTold (f.told world)).filter (·.status = .failed)) :=
    FlowMayRun.entries_perm ran (fun _ => rfl) fun _ _ _ _ _ _ _ => rfl
  have reported (entry : StageReport) :
      entry ∈ (f.run world).report.stages ∧ entry.status = .failed ↔
        entry ∈ entriesTold (f.told world) ∧ entry.status = .failed := by
    have same : entry ∈ _ ↔ entry ∈ _ := perm.mem_iff
    simp only [List.mem_filter, decide_eq_true_eq] at same
    rw [run_report]
    exact same
  simp only [reported, entriesTold, List.mem_filterMap, List.any_eq_true]
  constructor
  · rintro ⟨entry, ⟨t, ht, tells⟩, failed⟩
    refine ⟨t, ht, ?_⟩
    -- A stage that is called to undo its work is not told to have failed.
    cases he : t.event with
    | stageError => rfl
    | stageRollback stage status detail =>
      obtain ⟨leaf, hs, rfl⟩ := ran.lifecycle.stage_of ht (by rw [he, Event.stage?])
      have life := ran.lifecycle.stages _ leaf hs
      have here : t.event ∈ toldAt t.place (f.told world) := mem_toldAt.mpr ht
      obtain rfl : status = .failed := by
        rw [he, Event.report?, Option.some.injEq] at tells
        rw [← failed, ← tells]
      rw [he] at here
      exact absurd here life.rollback_not_failed
    | _ => simp [he, Event.report?] at tells
  · rintro ⟨t, ht, fails⟩
    cases he : t.event with
    | stageError stage detail =>
      exact ⟨{ stageId := stage.id, status := .failed, detail },
        ⟨t, ht, by rw [he, Event.report?]⟩, rfl⟩
    | _ => simp [he, Event.isError] at fails

/-- The report of a run lists what the run tells of failures, of undoing work and of the flows that
it gets to and that are not to be run, in the order in which it is told, and no such flow is left
out; the run succeeds exactly if the report tells of no failure. -/
theorem report_chronicles :
    (f.run world).events = f.announce ++ (f.told world).map (·.event) ∧
      (f.run world).report.stages = (f.told world).filterMap
        (Told.reported? (f.disqualified? (failsBelow (f.told world)))) ∧
      (∀ p, (f.disqualified? (failsBelow (f.told world)) p).isSome →
        ∃ info, toldAt p (f.told world) = [.flowFinish info .skipped]) ∧
      ((f.run world).report.isSuccess = true ↔
        ∀ entry ∈ (f.run world).report.stages, entry.status ≠ .failed) ∧
      ((f.run world).report.failure? = none ↔
        ∀ entry ∈ (f.run world).report.stages, entry.status ≠ .failed) := by
  have life := (f.placed_mayRun world).lifecycle
  have chronicles : Chronicles (f.disqualified? (failsBelow (f.told world))) ([] <+: ·)
      (f.placed world).entries (f.told world) :=
    Placed.runFlow_chronicles (fun _ _ => rfl) rfl (fun _ _ => rfl)
      fun failing located => Placed.runAll_chronicles failing located
  have success : (f.run world).report.isSuccess = true ↔
      ∀ entry ∈ (f.run world).report.stages, entry.status ≠ .failed := by
    rw [run_isSuccess, Bool.not_eq_true', ← Bool.not_eq_true, ← reports_failure_iff]
    simp
  have terminal : (f.run world).report.status.isTerminal := by
    rw [run_report]
    exact Placed.runFlow_isTerminal _ _ [] _ f.header f.nodes
  refine ⟨f.run_eventsOf world, ?_, fun p hp => ?_, success,
    (FlowReport.failure?_eq_none_iff terminal).trans success⟩
  · rw [run_report]
    exact chronicles.entries_eq
  · obtain ⟨info, there⟩ := chronicles.reached p List.nil_prefix hp
    obtain ⟨path, header, nodes, hs⟩ := life.flow_of there rfl
    have here := life.flows p path info header nodes hs
    exact ⟨info, here.eq_skipped (mem_toldAt.mpr there)⟩

end Flow

end Provisioning
