import Provisioning.Proofs.Flow.Walk

/-!
# What a status tells

Below a node in which every flow cancels on errors, a stage that fails makes the node fail, and a
stage that fails to undo its work makes it fail as not cancelled.
-/

namespace Provisioning

variable {σ : Type}

/-- Whether the event tells that a stage failed to undo its work. -/
def Event.isFailedRollback : Event → Bool
  | stageRollback _ status _ => status == .cancellationFailed
  | _ => false

theorem Rollback.status_isFailure (complete : Bool) : (Rollback.status complete).isFailure := by
  cases complete <;> rfl

/-! ## Statuses of parallel groups -/

theorem groupStatus_isFailure (group child : ExecutionStatus) :
    (groupStatus group child).isFailure = (group.isFailure || child.isFailure) := by
  cases group <;> cases child <;> rfl

theorem foldl_groupStatus_isFailure (statuses : List ExecutionStatus) (group : ExecutionStatus) :
    (statuses.foldl groupStatus group).isFailure
      = (group.isFailure || statuses.any (·.isFailure)) := by
  induction statuses generalizing group with
  | nil => simp
  | cons s rest ih => simp [ih, groupStatus_isFailure, Bool.or_assoc]

theorem foldl_groupStatus_cancellationFailed (statuses : List ExecutionStatus) :
    statuses.foldl groupStatus .cancellationFailed = .cancellationFailed := by
  induction statuses with
  | nil => rfl
  | cons s rest ih => simpa [groupStatus] using ih

theorem foldl_groupStatus_of_mem {statuses : List ExecutionStatus}
    (h : ExecutionStatus.cancellationFailed ∈ statuses) (group : ExecutionStatus) :
    statuses.foldl groupStatus group = .cancellationFailed := by
  induction statuses generalizing group with
  | nil => simp at h
  | cons s rest ih =>
    rcases List.mem_cons.mp h with rfl | h
    · simpa [groupStatus] using foldl_groupStatus_cancellationFailed rest
    · exact ih h _

namespace Placed

namespace Completed

mutual

/-- Work is undone in full if no stage tells of a failure. -/
theorem rollback_complete {m : Machine σ} {c : Completed σ} {x : Moment σ}
    (hx : x ∈ (rollback m c).moments) (failed : x.event.isFailedRollback) :
    (rollback m c).complete = false := by
  cases c with
  | stage place leaf =>
    unfold rollback rollbackStage Provisioning.Completed.rollbackStage at hx ⊢
    cases hc : leaf.stage.cancel with
    | none => simp [hc, Provisioning.Rollback.none] at hx
    | some cancel =>
      cases ho : (cancel (m.context leaf.info leaf.scope) m.world).outcome with
      | ok u =>
        simp only [hc, ho, List.map_cons, List.map_nil, List.mem_singleton] at hx
        simp [hx, Event.isFailedRollback] at failed
      | error e => simp [ho]
  | flow place info children =>
    simp only [rollback, List.mem_append, List.mem_singleton] at hx ⊢
    rcases hx with hx | rfl
    · exact rollbackAll_complete hx failed
    · simp [Event.isFailedRollback] at failed
  | parallel children => exact rollbackAll_complete hx failed

theorem rollbackAll_complete {m : Machine σ} {cs : List (Completed σ)} {x : Moment σ}
    (hx : x ∈ (rollbackAll m cs).moments) (failed : x.event.isFailedRollback) :
    (rollbackAll m cs).complete = false := by
  cases cs with
  | nil => simp [rollbackAll, Rollback.none] at hx
  | cons c rest =>
    simp only [rollbackAll, Rollback.andThen, List.mem_append, Bool.and_eq_false_iff] at hx ⊢
    rcases hx with hx | hx
    · exact .inl (rollback_complete hx failed)
    · exact .inr (rollbackAll_complete hx failed)

end

end Completed

theorem Skips.not_failedRollback {place : Place} {m : Machine σ} {x : Moment σ}
    (h : Skips place m x) : x.event.isFailedRollback = false := by
  rcases h.event with ⟨info, reason, he⟩ | ⟨info, he⟩ <;> rw [he] <;> rfl

theorem Skips.not_error {place : Place} {m : Machine σ} {x : Moment σ} (h : Skips place m x) :
    x.event.isError = false := by
  rcases h.event with ⟨info, reason, he⟩ | ⟨info, he⟩ <;> rw [he] <;> rfl

/-- Of a flow that cancels on errors: it tells of what its nodes tell of. -/
theorem runFlow_tells {info : FlowInfo} {path : String} {place : Place} {m : Machine σ}
    {header : FlowHeader} {nodes : List (FlowNode (Stage σ))}
    (cancels : header.strategy = .cancelOnError) {x : Moment σ}
    (hx : x ∈ (runFlow info path place m header nodes).moments)
    (ih : x ∈ (runAll .stop info path place 0 m [] nodes).moments →
      (x.event.isError →
          OnFailure.stop = .stop ∧ (runAll .stop info path place 0 m [] nodes).stopped.isSome ∨
            (runAll .stop info path place 0 m [] nodes).failed) ∧
        (x.event.isFailedRollback →
          OnFailure.stop = .stop ∧
              (runAll .stop info path place 0 m [] nodes).stopped = some false ∨
            OnFailure.stop = .keep ∧ .cancellationFailed ∈
              (runAll .stop info path place 0 m [] nodes).statuses)) :
    (x.event.isError → (runFlow info path place m header nodes).status.isFailure) ∧
      (x.event.isFailedRollback →
        (runFlow info path place m header nodes).status = .cancellationFailed) := by
  unfold runFlow at hx ⊢
  cases hs : header.skipReason with
  | some reason =>
    simp only [hs] at hx
    have skips := skippedRun_skips hx
    simp [skips.not_error, skips.not_failedRollback]
  | none =>
    simp only [hs, cancels, OnFailure.ofStrategy, ListRun.flow, List.cons_append,
      List.mem_cons, List.mem_append, List.not_mem_nil, or_false] at hx ⊢
    rcases hx with rfl | hx | rfl
    · simp [Event.isError, Event.isFailedRollback]
    · obtain ⟨tells, tellsRollback⟩ := ih hx
      refine ⟨fun he => ?_, fun he => ?_⟩
      · unfold ListRun.flowStatus
        cases hr : (runAll .stop info path place 0 m [] nodes).stopped with
        | some undone => exact Rollback.status_isFailure undone
        | none =>
          have failed := (tells he).resolve_left (by simp [hr])
          simp [failed, ExecutionStatus.isFailure]
      · obtain ⟨-, stopped⟩ := (tellsRollback he).resolve_right (by simp)
        simp [ListRun.flowStatus, stopped, Rollback.status]
    · simp [Event.isError, Event.isFailedRollback]

mutual

/-- Of a node in which every flow cancels on errors: it fails if a stage fails, and it fails as not
cancelled if a stage fails to undo its work. -/
theorem run_tells {info : FlowInfo} {path : String} {place : Place} {m : Machine σ}
    {node : FlowNode (Stage σ)} (cancels : node.allCancel) {x : Moment σ}
    (hx : x ∈ (run info path place m node).moments) :
    (x.event.isError → (run info path place m node).status.isFailure) ∧
      (x.event.isFailedRollback →
        (run info path place m node).status = .cancellationFailed) := by
  cases node with
  | stage s =>
    cases ho : (s.execute (m.context (info.stage path s.name) info.scope) m.world).outcome <;>
      (simp [run, stageRun, Stage.run, ho] at hx
       rcases hx with rfl | rfl <;>
        simp [run, stageRun, Stage.run, ho, Event.isError, Event.isFailedRollback,
          ExecutionStatus.isFailure])
  | flow header nodes =>
    simp only [FlowNode.allCancel, Bool.and_eq_true, decide_eq_true_eq] at cancels
    rw [run_flow] at hx ⊢
    refine runFlow_tells cancels.1 hx fun hx => ?_
    exact runAll_tells (by simp) cancels.2 hx
  | parallel name children =>
    rw [run] at hx ⊢
    have ih := runAll_tells (by simp) cancels hx
    refine ⟨fun he => ?_, fun he => ?_⟩
    · simp only [ListRun.group, foldl_groupStatus_isFailure]
      have failed := (ih.1 he).resolve_left (by simp)
      rw [ListRun.failed] at failed
      rw [failed, Bool.or_true]
    · have there := ((ih.2 he).resolve_left (by simp)).2
      exact foldl_groupStatus_of_mem there _

theorem runAll_tells {onFailure : OnFailure} (keeps : onFailure ≠ .leave) {info : FlowInfo}
    {path : String} {place : Place} {i : Nat} {m : Machine σ} {completed : List (Completed σ)}
    {nodes : List (FlowNode (Stage σ))} (cancels : FlowNode.allCancelIn nodes) {x : Moment σ}
    (hx : x ∈ (runAll onFailure info path place i m completed nodes).moments) :
    (x.event.isError →
        onFailure = .stop ∧
            (runAll onFailure info path place i m completed nodes).stopped.isSome ∨
          (runAll onFailure info path place i m completed nodes).failed) ∧
      (x.event.isFailedRollback →
        onFailure = .stop ∧
            (runAll onFailure info path place i m completed nodes).stopped = some false ∨
          onFailure = .keep ∧ .cancellationFailed ∈
            (runAll onFailure info path place i m completed nodes).statuses) := by
  cases nodes with
  | nil => simp [runAll] at hx
  | cons node rest =>
    rw [FlowNode.allCancelIn, Bool.and_eq_true] at cancels
    rcases stops_or_goes onFailure (run info path (place ++ [i]) m node) with ⟨rfl, hf⟩ | goes
    · rw [runAll_stop hf] at hx ⊢
      refine ⟨fun _ => .inl ⟨rfl, rfl⟩, fun he => .inl ⟨rfl, ?_⟩⟩
      simp only [ListRun.stop, List.mem_append] at hx ⊢
      rcases hx with (hx | hx) | hx
      · simp [(run_tells cancels.1 hx).2 he]
      · simp [Completed.rollbackAll_complete hx he]
      · simp [(skipAll_skips hx).not_failedRollback] at he
    · rw [runAll_go goes] at hx ⊢
      simp only [ListRun.cons, List.mem_append] at hx
      rcases hx with hx | hx
      · have first := run_tells cancels.1 hx
        refine ⟨fun he => .inr ?_, fun he => .inr ⟨?_, ?_⟩⟩
        · simp [ListRun.failed, ListRun.cons, first.1 he]
        · cases onFailure with
          | stop => simpa [first.2 he, ExecutionStatus.isFailure] using goes rfl
          | leave => exact absurd rfl keeps
          | keep => rfl
        · simp [ListRun.cons, first.2 he]
      · obtain ⟨tells, tellsRollback⟩ := runAll_tells keeps cancels.2 hx
        constructor
        · intro he
          rcases tells he with stopped | failed
          · exact .inl stopped
          · simp only [ListRun.failed] at failed
            simp [ListRun.failed, ListRun.cons, failed]
        · intro he
          rcases tellsRollback he with stopped | ⟨keep, there⟩
          · exact .inl stopped
          · exact .inr ⟨keep, List.mem_cons_of_mem _ there⟩

end

end Placed

end Provisioning
