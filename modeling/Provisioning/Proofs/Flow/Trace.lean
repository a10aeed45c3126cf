import Mathlib.Data.List.Infix
import Mathlib.Data.List.Nodup
import Provisioning.Proofs.Flow.Places

/-!
# Where things happen

A run of a node tells only of places at or below its own, and the children of a node are told of
separately. What drives a run forward (a start, a success or an error of a node) never comes from
undoing work or from skipping nodes, and no stage is executed twice.
-/

namespace Provisioning

variable {σ : Type}

namespace Event

/-- Whether the event tells that a flow or a stage starts. -/
def isStart : Event → Bool
  | flowStart _ | stageStart _ => true
  | _ => false

/-- Whether the event tells that a stage has done its work. -/
def isSuccess : Event → Bool
  | stageSuccess _ => true
  | _ => false

/-- Whether the event tells that a stage has failed. -/
def isError : Event → Bool
  | stageError .. => true
  | _ => false

/-- Whether the event tells that a stage was called to undo its work. -/
def isRollback : Event → Bool
  | stageRollback .. => true
  | _ => false

/-- Whether the event tells that a stage was called to do its work. -/
def isExecution (e : Event) : Bool := e.isSuccess || e.isError

/-- Whether the event drives the run forward. -/
def isForward (e : Event) : Bool := e.isStart || e.isExecution

/-- Whether the event tells that a flow ends with all of its work done. -/
def isFinishedFlow : Event → Bool
  | flowFinish _ status => status == .finished
  | _ => false

/-- Whether the event tells that a flow ends because it was cancelled, in full or not. -/
def isCancelledFlow : Event → Bool
  | flowFinish _ status => status == .cancelled || status == .cancellationFailed
  | _ => false

theorem isForward_of_isStart {e : Event} (h : e.isStart) : e.isForward := by
  simp [isForward, h]

theorem isForward_of_isExecution {e : Event} (h : e.isExecution) : e.isForward := by
  simp [isForward, h]

theorem isForward_of_isError {e : Event} (h : e.isError) : e.isForward :=
  isForward_of_isExecution (by simp [isExecution, h])

end Event

/-- The places of the stages that are executed, in order. -/
def executions (ms : List (Moment σ)) : List Place :=
  (ms.filter (·.event.isExecution)).map (·.place)

@[simp]
theorem executions_append (ms ns : List (Moment σ)) :
    executions (ms ++ ns) = executions ms ++ executions ns := by simp [executions]

theorem mem_executions {ms : List (Moment σ)} {p : Place} :
    p ∈ executions ms ↔ ∃ x ∈ ms, x.event.isExecution ∧ x.place = p := by
  simp [executions, and_assoc]

theorem executions_eq_nil {ms : List (Moment σ)} (h : ∀ x ∈ ms, x.event.isForward = false) :
    executions ms = [] := by
  simp only [executions, List.map_eq_nil_iff, List.filter_eq_nil_iff]
  intro x hx he
  have forward := Event.isForward_of_isExecution he
  simp [h x hx] at forward

/-! ## Places -/

/-- The places below different children of a place are different, and none is below the other. -/
theorem Place.child_unique {place p : Place} {i j : Nat} (hi : place ++ [i] <+: p)
    (hj : place ++ [j] <+: p) : i = j := by
  have h := List.prefix_of_prefix_length_le hi hj (by simp)
  simpa using List.IsPrefix.eq_of_length h (by simp)

theorem Place.below_of_child {place p : Place} {i : Nat} (h : place ++ [i] <+: p) : place <+: p :=
  (List.prefix_append place [i]).trans h

namespace Placed

namespace Completed

mutual

/-- The places of the flows and stages of a piece of work. -/
def places : Completed σ → List Place
  | stage place _ => [place]
  | flow place _ children => place :: placesAll children
  | parallel children => placesAll children

/-- The places of the flows and stages of pieces of work. -/
def placesAll : List (Completed σ) → List Place
  | [] => []
  | c :: rest => places c ++ placesAll rest

end

@[simp]
theorem placesAll_append (cs ds : List (Completed σ)) :
    placesAll (cs ++ ds) = placesAll cs ++ placesAll ds := by
  induction cs with
  | nil => rfl
  | cons c rest ih => simp [placesAll, ih]

/-- A stage is called to undo its work at its place, or it is not called. -/
theorem rollbackStage_moments {m : Machine σ} {place : Place} {leaf : Leaf (Stage σ)}
    {x : Moment σ} (hx : x ∈ (rollbackStage m place leaf).moments) :
    x.place = place ∧ x.event.isRollback = true := by
  unfold rollbackStage Provisioning.Completed.rollbackStage at hx
  cases hc : leaf.stage.cancel with
  | none => simp [hc, Provisioning.Rollback.none] at hx
  | some cancel =>
    cases ho : (cancel (m.context leaf.info leaf.scope) m.world).outcome <;>
      (simp [hc, ho] at hx; simp [hx, Event.isRollback])

mutual

/-- Undoing work tells of the places of the work. -/
theorem rollback_places {m : Machine σ} {c : Completed σ} {x : Moment σ}
    (hx : x ∈ (rollback m c).moments) : x.place ∈ places c := by
  cases c with
  | stage place leaf => simpa [places] using (rollbackStage_moments hx).1
  | flow place info children =>
    simp only [rollback, List.mem_append, List.mem_singleton] at hx
    rcases hx with hx | rfl
    · exact List.mem_cons_of_mem _ (rollbackAll_places hx)
    · simp [places]
  | parallel children => exact rollbackAll_places hx

theorem rollbackAll_places {m : Machine σ} {cs : List (Completed σ)} {x : Moment σ}
    (hx : x ∈ (rollbackAll m cs).moments) : x.place ∈ placesAll cs := by
  cases cs with
  | nil => simp [rollbackAll, Rollback.none] at hx
  | cons c rest =>
    simp only [rollbackAll, Rollback.andThen, List.mem_append] at hx
    rw [placesAll, List.mem_append]
    rcases hx with hx | hx
    · exact .inl (rollback_places hx)
    · exact .inr (rollbackAll_places hx)

end

mutual

/-- Undoing work does not drive the run forward. -/
theorem rollback_backward {m : Machine σ} {c : Completed σ} {x : Moment σ}
    (hx : x ∈ (rollback m c).moments) : x.event.isForward = false := by
  cases c with
  | stage place leaf =>
    have h := (rollbackStage_moments hx).2
    cases he : x.event <;> simp_all [Event.isRollback, Event.isForward, Event.isStart,
      Event.isExecution, Event.isSuccess, Event.isError]
  | flow place info children =>
    simp only [rollback, List.mem_append, List.mem_singleton] at hx
    rcases hx with hx | rfl
    · exact rollbackAll_backward hx
    · rfl
  | parallel children => exact rollbackAll_backward hx

theorem rollbackAll_backward {m : Machine σ} {cs : List (Completed σ)} {x : Moment σ}
    (hx : x ∈ (rollbackAll m cs).moments) : x.event.isForward = false := by
  cases cs with
  | nil => simp [rollbackAll, Rollback.none] at hx
  | cons c rest =>
    simp only [rollbackAll, Rollback.andThen, List.mem_append] at hx
    rcases hx with hx | hx
    · exact rollback_backward hx
    · exact rollbackAll_backward hx

end

end Completed

/-! ## Skipped nodes -/

/-- A moment that belongs to nodes that are skipped below a place, on a machine that stays. -/
structure Skips (place : Place) (m : Machine σ) (x : Moment σ) : Prop where
  /-- It is at or below the place. -/
  below : place <+: x.place
  /-- The machine stays as it is. -/
  machine : x.machine = m
  /-- A stage is skipped or a flow ends as skipped. -/
  event : (∃ info reason, x.event = .stageSkipped info reason) ∨
    ∃ info, x.event = .flowFinish info .skipped

namespace Skips

theorem above {place : Place} {i : Nat} {m : Machine σ} {x : Moment σ}
    (h : Skips (place ++ [i]) m x) : Skips place m x :=
  ⟨Place.below_of_child h.below, h.machine, h.event⟩

theorem backward {place : Place} {m : Machine σ} {x : Moment σ} (h : Skips place m x) :
    x.event.isForward = false := by
  rcases h.event with ⟨info, reason, he⟩ | ⟨info, he⟩ <;> rw [he] <;> rfl

theorem not_execution {place : Place} {m : Machine σ} {x : Moment σ} (h : Skips place m x) :
    x.event.isExecution = false := by
  rcases h.event with ⟨info, reason, he⟩ | ⟨info, he⟩ <;> rw [he] <;> rfl

theorem not_rollback {place : Place} {m : Machine σ} {x : Moment σ} (h : Skips place m x) :
    x.event.isRollback = false := by
  rcases h.event with ⟨info, reason, he⟩ | ⟨info, he⟩ <;> rw [he] <;> rfl

end Skips

mutual

theorem skip_skips {info : FlowInfo} {path reason : String} {place : Place} {m : Machine σ}
    {node : FlowNode (Stage σ)} {x : Moment σ} (hx : x ∈ skip info path reason place m node) :
    Skips place m x := by
  cases node with
  | stage s =>
    rw [skip, List.mem_singleton] at hx
    subst hx
    exact ⟨List.prefix_refl _, rfl, .inl ⟨_, _, rfl⟩⟩
  | flow header nodes =>
    rw [skip, List.mem_append, List.mem_singleton] at hx
    rcases hx with hx | rfl
    · exact skipAll_skips hx
    · exact ⟨List.prefix_refl _, rfl, .inr ⟨_, rfl⟩⟩
  | parallel name children =>
    rw [skip] at hx
    exact skipAll_skips hx

theorem skipAll_skips {info : FlowInfo} {path reason : String} {place : Place} {i : Nat}
    {m : Machine σ} {nodes : List (FlowNode (Stage σ))} {x : Moment σ}
    (hx : x ∈ skipAll info path reason place i m nodes) : Skips place m x := by
  cases nodes with
  | nil => simp [skipAll] at hx
  | cons node rest =>
    rw [skipAll, List.mem_append] at hx
    rcases hx with hx | hx
    · exact (skip_skips hx).above
    · exact skipAll_skips hx

end

/-- A disqualified flow tells only of skipped nodes. -/
theorem skippedRun_skips {info : FlowInfo} {path reason : String} {place : Place}
    {nodes : List (FlowNode (Stage σ))} {m : Machine σ} {x : Moment σ}
    (hx : x ∈ (skippedRun info path reason place nodes m).moments) : Skips place m x := by
  simp only [skippedRun, List.mem_append, List.mem_singleton] at hx
  rcases hx with hx | rfl
  · exact skipAll_skips hx
  · exact ⟨List.prefix_refl _, rfl, .inr ⟨_, rfl⟩⟩

/-- A node that stops a list is the last thing that drives the list forward: then work is undone and
the other nodes are skipped. -/
theorem stop_moments (info : FlowInfo) (path : String) (place : Place) (i : Nat) (first : NodeRun σ)
    (completed : List (Completed σ)) (rest : List (FlowNode (Stage σ))) :
    ∃ later, (ListRun.stop info path place i first completed rest).moments = first.moments ++ later ∧
      ∀ x ∈ later, x.event.isForward = false := by
  refine ⟨_, List.append_assoc _ _ _, fun x hx => ?_⟩
  rcases List.mem_append.mp hx with hx | hx
  · exact Completed.rollbackAll_backward hx
  · exact (skipAll_skips hx).backward

theorem mem_of_stop {info : FlowInfo} {path : String} {place : Place} {i : Nat} {first : NodeRun σ}
    {completed : List (Completed σ)} {rest : List (FlowNode (Stage σ))} {x : Moment σ}
    (hx : x ∈ (ListRun.stop info path place i first completed rest).moments)
    (forward : x.event.isForward) : x ∈ first.moments := by
  obtain ⟨later, split, backward⟩ := stop_moments info path place i first completed rest
  rw [split, List.mem_append] at hx
  exact hx.resolve_right fun hx => by simp [backward x hx] at forward

/-! ## Runs -/

variable {info : FlowInfo} {path : String} {place : Place} {m : Machine σ}

theorem runAll_stop {i : Nat} {completed : List (Completed σ)} {node : FlowNode (Stage σ)}
    {rest : List (FlowNode (Stage σ))}
    (failure : (run info path (place ++ [i]) m node).status.isFailure) :
    runAll .stop info path place i m completed (node :: rest)
      = .stop info path place i (run info path (place ++ [i]) m node) completed rest := by
  rw [runAll, if_pos ⟨failure, rfl⟩]

theorem runAll_go {onFailure : OnFailure} {i : Nat} {completed : List (Completed σ)}
    {node : FlowNode (Stage σ)} {rest : List (FlowNode (Stage σ))}
    (goes : onFailure = .stop →
      (run info path (place ++ [i]) m node).status.isFailure = false) :
    runAll onFailure info path place i m completed (node :: rest)
      = .cons (run info path (place ++ [i]) m node)
          (runAll onFailure info path place (i + 1) (run info path (place ++ [i]) m node).machine
            (onFailure.kept (run info path (place ++ [i]) m node) ++ completed) rest) := by
  rw [runAll, if_neg]
  rintro ⟨failure, stops⟩
  simp [goes stops] at failure

/-- A list of nodes stops at its first node, or goes on. -/
theorem stops_or_goes (onFailure : OnFailure) (r : NodeRun σ) :
    (onFailure = .stop ∧ r.status.isFailure = true) ∨
      (onFailure = .stop → r.status.isFailure = false) := by
  cases hf : r.status.isFailure <;> simp [Decidable.em]

theorem placesAll_kept {onFailure : OnFailure} {r : NodeRun σ} {p : Place}
    (hp : p ∈ Completed.placesAll (onFailure.kept r)) :
    p ∈ Completed.placesAll r.completed.toList := by
  unfold OnFailure.kept at hp
  split at hp
  · simp [Completed.placesAll] at hp
  · exact hp

/-- A run of a flow tells of places at or below its own, and leaves work there, if that of its nodes
does. -/
theorem runFlow_below (info : FlowInfo) (path : String) (place : Place) (m : Machine σ)
    (header : FlowHeader) (nodes : List (FlowNode (Stage σ)))
    (ih : (∀ x ∈ (runAll (.ofStrategy header.strategy) info path place 0 m [] nodes).moments,
        place <+: x.place) ∧
      ∀ p ∈ Completed.placesAll
        (runAll (.ofStrategy header.strategy) info path place 0 m [] nodes).completed, place <+: p) :
    (∀ x ∈ (runFlow info path place m header nodes).moments, place <+: x.place) ∧
      ∀ p ∈ Completed.placesAll (runFlow info path place m header nodes).completed.toList,
        place <+: p := by
  unfold runFlow
  cases header.skipReason with
  | some reason =>
    refine ⟨fun x hx => (skippedRun_skips hx).below, fun p hp => ?_⟩
    simp [skippedRun, Completed.placesAll] at hp
  | none =>
    constructor
    · intro x hx
      simp only [ListRun.flow, List.cons_append, List.mem_cons, List.mem_append,
        List.not_mem_nil, or_false] at hx
      rcases hx with rfl | hx | rfl
      · exact List.prefix_refl _
      · exact ih.1 x hx
      · exact List.prefix_refl _
    · intro p hp
      simp only [ListRun.flow] at hp
      split at hp
      · simp only [Option.toList, Completed.placesAll, Completed.places, List.append_nil,
          List.mem_cons] at hp
        rcases hp with rfl | hp
        · exact List.prefix_refl _
        · exact ih.2 p hp
      · simp [Completed.placesAll] at hp

mutual

/-- A run of a node tells of places at or below its own, and leaves work there. -/
theorem run_below (info : FlowInfo) (path : String) (place : Place) (m : Machine σ)
    (node : FlowNode (Stage σ)) :
    (∀ x ∈ (run info path place m node).moments, place <+: x.place) ∧
      ∀ p ∈ Completed.placesAll (run info path place m node).completed.toList, place <+: p := by
  cases node with
  | stage s =>
    constructor
    · intro x hx
      simp only [run, stageRun, List.mem_map] at hx
      obtain ⟨e, -, rfl⟩ := hx
      exact List.prefix_refl _
    · intro p hp
      rw [run, stageRun] at hp
      cases hc : (s.run info path m).completed <;>
        simp_all [Completed.placesAll, Completed.places]
  | flow header nodes =>
    rw [run_flow]
    exact runFlow_below _ _ place m header nodes
      (runAll_below _ _ _ place 0 m [] nodes (by simp [Completed.placesAll]))
  | parallel name children =>
    have ih := runAll_below .keep info (FlowNode.childPath path name) place 0 m [] children
      (by simp [Completed.placesAll])
    rw [run]
    refine ⟨ih.1, fun p hp => ?_⟩
    simp only [ListRun.group] at hp
    split at hp
    · simp [Completed.placesAll] at hp
    · simp only [Option.toList, Completed.placesAll, Completed.places, List.append_nil] at hp
      exact ih.2 p hp

theorem runAll_below (onFailure : OnFailure) (info : FlowInfo) (path : String) (place : Place)
    (i : Nat) (m : Machine σ) (completed : List (Completed σ))
    (nodes : List (FlowNode (Stage σ)))
    (done : ∀ p ∈ Completed.placesAll completed, place <+: p) :
    (∀ x ∈ (runAll onFailure info path place i m completed nodes).moments, place <+: x.place) ∧
      ∀ p ∈ Completed.placesAll (runAll onFailure info path place i m completed nodes).completed,
        place <+: p := by
  cases nodes with
  | nil => simpa [runAll] using done
  | cons node rest =>
    have first := run_below info path (place ++ [i]) m node
    rcases stops_or_goes onFailure (run info path (place ++ [i]) m node) with ⟨rfl, hf⟩ | goes
    · rw [runAll_stop hf]
      refine ⟨fun x hx => ?_, by simp [ListRun.stop, Completed.placesAll]⟩
      simp only [ListRun.stop, List.mem_append] at hx
      rcases hx with (hx | hx) | hx
      · exact Place.below_of_child (first.1 x hx)
      · have hp := Completed.rollbackAll_places hx
        rw [Completed.placesAll_append, List.mem_append] at hp
        rcases hp with hp | hp
        · exact Place.below_of_child (first.2 _ hp)
        · exact done _ hp
      · exact (skipAll_skips hx).below
    · have keeps : ∀ p ∈ Completed.placesAll
          (onFailure.kept (run info path (place ++ [i]) m node) ++ completed), place <+: p := by
        intro p hp
        rw [Completed.placesAll_append, List.mem_append] at hp
        rcases hp with hp | hp
        · exact Place.below_of_child (first.2 _ (placesAll_kept hp))
        · exact done p hp
      have ih := runAll_below onFailure info path place (i + 1)
        (run info path (place ++ [i]) m node).machine
        (onFailure.kept (run info path (place ++ [i]) m node) ++ completed) rest keeps
      rw [runAll_go goes]
      refine ⟨fun x hx => ?_, ih.2⟩
      simp only [ListRun.cons, List.mem_append] at hx
      rcases hx with hx | hx
      · exact Place.below_of_child (first.1 x hx)
      · exact ih.1 x hx

end

/-- What drives a list of nodes forward, and anything at all if no node stops it, is told of a
child that is still to be run. -/
theorem runAll_child {onFailure : OnFailure} {i : Nat} {completed : List (Completed σ)}
    {nodes : List (FlowNode (Stage σ))} {x : Moment σ}
    (hx : x ∈ (runAll onFailure info path place i m completed nodes).moments)
    (forward : x.event.isForward ∨ onFailure ≠ .stop) : ∃ k ≥ i, place ++ [k] <+: x.place := by
  induction nodes generalizing i m completed with
  | nil => simp [runAll] at hx
  | cons node rest ih =>
    have first := (run_below info path (place ++ [i]) m node).1
    rcases stops_or_goes onFailure (run info path (place ++ [i]) m node) with ⟨rfl, hf⟩ | goes
    · rw [runAll_stop hf] at hx
      simp only [ne_eq, not_true_eq_false, or_false] at forward
      exact ⟨i, le_rfl, first x (mem_of_stop hx forward)⟩
    · rw [runAll_go goes] at hx
      simp only [ListRun.cons, List.mem_append] at hx
      rcases hx with hx | hx
      · exact ⟨i, le_rfl, first x hx⟩
      · obtain ⟨k, hk, hp⟩ := ih hx
        exact ⟨k, by omega, hp⟩

/-- A run of a flow executes the stages that the run of its nodes executes, or none. -/
theorem executions_runFlow (info : FlowInfo) (path : String) (place : Place) (m : Machine σ)
    (header : FlowHeader) (nodes : List (FlowNode (Stage σ))) :
    executions (runFlow info path place m header nodes).moments
      = if header.skipReason.isSome then []
        else executions
          (runAll (.ofStrategy header.strategy) info path place 0 m [] nodes).moments := by
  unfold runFlow
  cases header.skipReason with
  | some reason => exact executions_eq_nil fun x hx => (skippedRun_skips hx).backward
  | none =>
    simp [ListRun.flow, executions, Event.isExecution, Event.isSuccess, Event.isError]

mutual

/-- No stage is executed twice in a run of a node. -/
theorem executions_run_nodup (info : FlowInfo) (path : String) (place : Place) (m : Machine σ)
    (node : FlowNode (Stage σ)) : (executions (run info path place m node).moments).Nodup := by
  cases node with
  | stage s =>
    cases h : (s.execute (m.context (info.stage path s.name) info.scope) m.world).outcome <;>
      simp [run, stageRun, Stage.run, h, executions, Event.isExecution, Event.isSuccess,
        Event.isError]
  | flow header nodes =>
    rw [run_flow, executions_runFlow]
    split
    · exact List.nodup_nil
    · exact executions_runAll_nodup _ _ _ place 0 m [] nodes
  | parallel name children =>
    rw [run]
    exact executions_runAll_nodup .keep info (FlowNode.childPath path name) place 0 m [] children

theorem executions_runAll_nodup (onFailure : OnFailure) (info : FlowInfo) (path : String)
    (place : Place) (i : Nat) (m : Machine σ) (completed : List (Completed σ))
    (nodes : List (FlowNode (Stage σ))) :
    (executions (runAll onFailure info path place i m completed nodes).moments).Nodup := by
  cases nodes with
  | nil => exact List.nodup_nil
  | cons node rest =>
    have first := executions_run_nodup info path (place ++ [i]) m node
    rcases stops_or_goes onFailure (run info path (place ++ [i]) m node) with ⟨rfl, hf⟩ | goes
    · obtain ⟨later, split, backward⟩ := stop_moments info path place i
        (run info path (place ++ [i]) m node) completed rest
      rw [runAll_stop hf, split, executions_append, executions_eq_nil backward, List.append_nil]
      exact first
    · rw [runAll_go goes]
      simp only [ListRun.cons, executions_append]
      refine List.Nodup.append first
        (executions_runAll_nodup onFailure info path place (i + 1) _ _ rest) ?_
      intro p hp hq
      obtain ⟨x, hx, -, rfl⟩ := mem_executions.mp hp
      obtain ⟨y, hy, he, heq⟩ := mem_executions.mp hq
      obtain ⟨k, hk, hy⟩ := runAll_child hy (.inl (Event.isForward_of_isExecution he))
      have below := (run_below info path (place ++ [i]) m node).1 x hx
      have same := Place.child_unique below (heq ▸ hy)
      omega

end

end Placed

end Provisioning
