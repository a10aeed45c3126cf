import Provisioning.Proofs.Flow.Compensation
import Provisioning.Proofs.Flow.Lifecycle

/-!
# What it means that a flow was cancelled

A flow that ends as cancelled tells that nothing is left of it: every stage in it that can be
cancelled and has done its work was called to undo it, and none failed to. A flow that goes on on
errors keeps what its stages did when it ends as failed, and hands up neither that nor whether a
stage in it failed to undo its work. So a flow around it that cancels on errors may tell what is not
true, and this is the only way in which that can be.
-/

namespace Provisioning

variable {σ : Type}

/-- Something of a kind is told of the node at a place. -/
def Tells (told : List Told) (p : Place) (kind : Event → Bool) : Prop :=
  ∃ e, ⟨p, e⟩ ∈ told ∧ kind e = true

/-- The ends of the flow at a place are true of a stage in it. -/
structure EndsTruthfully (told : List Told) (p q : Place) (leaf : Leaf (Stage σ)) : Prop where
  /-- If the flow was cancelled, the stage did not fail to undo its work. -/
  undone : EndsAs told p .cancelled → ¬ Tells told q Event.isFailedRollback
  /-- If the flow was cancelled and the stage can be cancelled and did its work, it was called to
  undo it. -/
  called : EndsAs told p .cancelled → leaf.stage.isCancellable → Tells told q Event.isSuccess →
    Tells told q Event.isRollback
  /-- If the flow failed in any way and the stage failed to undo its work, the flow tells so. -/
  reported : ∀ status, EndsAs told p status → status.isFailure →
    Tells told q Event.isFailedRollback → status = .cancellationFailed

/-- A flow from one place to another that is below it ends with a status. -/
def EndsBetween (told : List Told) (p q : Place) (status : ExecutionStatus) : Prop :=
  ∃ q', p <+: q' ∧ q' <+: q ∧ EndsAs told q' status

/-- The work of the stage at a place is let go in the flow at another one: of the flows from the one
to the other that failed or were cancelled, the innermost failed. -/
def LetGo (told : List Told) (p q : Place) : Prop :=
  ∃ inner, p <+: inner ∧ inner <+: q ∧ EndsAs told inner .failed ∧
    ∀ complete, ¬ EndsBetween told inner q (Rollback.status complete)

/-- There is an innermost one among the flows that end with a status. -/
theorem EndsBetween.innermost {told : List Told} {p q : Place} {status : ExecutionStatus}
    (h : EndsBetween told p q status) :
    ∃ inner, p <+: inner ∧ inner <+: q ∧ EndsAs told inner status ∧
      ∀ q', inner <+: q' → q' <+: q → EndsAs told q' status → q' = inner := by
  obtain ⟨q', below, above, ended⟩ := h
  -- Induction on how far the flow is above the stage.
  induction hn : q.length - q'.length using Nat.strong_induction_on generalizing q' with
  | _ n ih =>
    by_cases further : ∃ q'', q' <+: q'' ∧ q'' <+: q ∧ EndsAs told q'' status ∧ q'' ≠ q'
    · obtain ⟨q'', inside, above', ended', ne⟩ := further
      have longer : q'.length < q''.length := lt_of_le_of_ne inside.length_le fun same =>
        ne (inside.eq_of_length same).symm
      exact ih (q.length - q''.length) (by have := above'.length_le; omega) q''
        (below.trans inside) above' ended' rfl
    · refine ⟨q', below, above, ended, fun q'' inside above' ended' => ?_⟩
      by_contra ne
      exact further ⟨q'', inside, above', ended', ne⟩

theorem EndsAround.between {told told' : List Told} {p q : Place} {status : ExecutionStatus}
    (ended : EndsAround told' q status) (h : ∀ t ∈ told', t ∈ toldBelow p told) :
    EndsBetween told p q status := by
  obtain ⟨q', above, info, there⟩ := ended
  obtain ⟨there, below⟩ := mem_toldBelow.mp (h _ there)
  exact ⟨q', below, above, info, there⟩

/-! ## Stages that fail to undo their work -/

theorem Event.isRollback_of_failed {e : Event} (failed : e.isFailedRollback) : e.isRollback := by
  cases e with
  | stageRollback => rfl
  | _ => simp [isFailedRollback] at failed

/-- Nothing is undone when nodes are skipped. -/
theorem FlowNode.skipToldIn_no_rollback {info : FlowInfo} {path reason : String} {place : Place}
    {i : Nat} {nodes : List (FlowNode (Stage σ))} :
    ∀ t ∈ FlowNode.skipToldIn info path reason place i nodes, ¬ t.event.isRollback := by
  intro t ht
  rcases FlowNode.skipToldIn_event t ht with ⟨stage, he⟩ | ⟨flow, he⟩ <;>
    simp [he, Event.isRollback]

namespace NodeResult

theorem ofStage_no_rollback {place : Place} {leaf : Leaf (Stage σ)}
    {outcome : Except StageError Unit} :
    ∀ t ∈ (ofStage place leaf outcome).told, ¬ t.event.isRollback := by
  cases outcome <;> simp [ofStage, Event.isRollback]

theorem ofStage_ok_of_success {place : Place} {leaf : Leaf (Stage σ)}
    {outcome : Except StageError Unit} {t : Told} (ht : t ∈ (ofStage place leaf outcome).told)
    (success : t.event.isSuccess) : outcome = .ok () := by
  cases outcome with
  | ok => rfl
  | error e =>
    simp only [ofStage, List.mem_cons, List.not_mem_nil, or_false] at ht
    rcases ht with rfl | rfl <;> simp [Event.isSuccess] at success

theorem ofSkipped_no_rollback {info : FlowInfo} {path reason : String} {place : Place}
    {nodes : List (FlowNode (Stage σ))} :
    ∀ t ∈ (ofSkipped info path reason place nodes).told, ¬ t.event.isRollback := by
  rw [ofSkipped, List.forall_mem_append, List.forall_mem_singleton]
  exact ⟨FlowNode.skipToldIn_no_rollback, by simp [Event.isRollback]⟩

/-- What is undone in a run of a flow is undone by its nodes. -/
theorem mem_told_of_rollback {r : NodeResult} {place : Place} {info : FlowInfo} {t : Told}
    (ht : t ∈ (r.ofFlow place info).told) (undoes : t.event.isRollback) : t ∈ r.told := by
  rcases mem_told_ofFlow.mp ht with rfl | ht | rfl
  · simp [Event.isRollback] at undoes
  · exact ht
  · simp [Event.isRollback] at undoes

end NodeResult

mutual

theorem MayUndo.incomplete {c : Work} {u : Undoing} (h : MayUndo c u) {t : Told} (ht : t ∈ u.told)
    (failed : t.event.isFailedRollback) : u.complete = false := by
  cases h with
  | stays => simp [Undoing.none] at ht
  | cancelled outcome =>
    cases outcome with
    | ok =>
      rw [Undoing.ofStage, List.mem_singleton] at ht
      simp [ht, Event.isFailedRollback] at failed
    | error => rfl
  | flow undone =>
    rw [Undoing.ofFlow, List.mem_append, List.mem_singleton] at ht
    rcases ht with ht | rfl
    · exact undone.incomplete ht failed
    · simp [Event.isFailedRollback] at failed

theorem MayUndoAll.incomplete {work : List Work} {u : Undoing} (h : MayUndoAll work u) {t : Told}
    (ht : t ∈ u.told) (failed : t.event.isFailedRollback) : u.complete = false := by
  cases h with
  | nil => simp [Undoing.none] at ht
  | cons first later =>
    rw [Undoing.andThen, Bool.and_eq_false_iff]
    exact (List.mem_append.mp ht).imp (fun ht => first.incomplete ht failed)
      fun ht => later.incomplete ht failed

end

mutual

/-- A node in which a stage fails to undo its work fails as not cancelled, unless the stage is in a
flow that ended as failed. -/
theorem MayRun.tells_failure {info : FlowInfo} {path : String} {place : Place}
    {node : FlowNode (Stage σ)} {r : NodeResult} (ran : MayRun info path place node r) {t : Told}
    (ht : t ∈ r.told) (failed : t.event.isFailedRollback) :
    r.status = .cancellationFailed ∨ EndsAround r.told t.place .failed := by
  match ran with
  | .stage outcome =>
    exact absurd (Event.isRollback_of_failed failed) (NodeResult.ofStage_no_rollback t ht)
  | .flow ran => exact ran.tells_failure ht failed
  | .parallel ran completed =>
    obtain ⟨r, hr, h⟩ := ran.tells_failure ht failed
    refine h.imp (fun status => ?_) id
    refine foldl_groupStatus_of_mem (List.mem_map.mpr ⟨r, completed.symm.subset hr, status⟩) _

theorem FlowMayRun.tells_failure {info : FlowInfo} {path : String} {place : Place}
    {header : FlowHeader} {nodes : List (FlowNode (Stage σ))} {r : NodeResult}
    (ran : FlowMayRun info path place header nodes r) {t : Told} (ht : t ∈ r.told)
    (failed : t.event.isFailedRollback) :
    r.status = .cancellationFailed ∨ EndsAround r.told t.place .failed := by
  match ran with
  | .skipped _ =>
    exact absurd (Event.isRollback_of_failed failed) (NodeResult.ofSkipped_no_rollback t ht)
  | .ended _ ran =>
    have inner := NodeResult.mem_told_of_rollback ht (Event.isRollback_of_failed failed)
    rcases ran.tells_failure inner failed with status | status | inFailed
    · exact .inl status
    · obtain ⟨k, inside⟩ := ran.tells_inside.1 t inner
      exact .inr ⟨place, Place.below_of_child inside, info,
        NodeResult.mem_told_ofFlow.mpr (.inr (.inr (status ▸ rfl)))⟩
    · exact .inr (inFailed.mono fun _ ht => NodeResult.mem_told_ofFlow.mpr (.inr (.inl ht)))

theorem SequenceMayRun.tells_failure {strategy : ExecutionStrategy} {info : FlowInfo}
    {path : String} {place : Place} {i : Nat} {work : List Work}
    {nodes : List (FlowNode (Stage σ))} {l : NodeResult}
    (ran : SequenceMayRun strategy info path place i work nodes l) {t : Told} (ht : t ∈ l.told)
    (failed : t.event.isFailedRollback) :
    l.status = .cancellationFailed ∨ l.status = .failed ∨ EndsAround l.told t.place .failed := by
  match ran with
  | .nil => simp at ht
  | @SequenceMayRun.next _ _ _ _ _ _ _ _ _ r l first succeeds later =>
    rcases List.mem_append.mp ht with ht | ht
    · rcases first.tells_failure ht failed with status | inFailed
      · simp [status, ExecutionStatus.isFailure] at succeeds
      · exact .inr (.inr (inFailed.mono fun _ => List.mem_append_left _))
    · exact (later.tells_failure ht failed).imp_right (Or.imp_right
        (.mono fun _ => List.mem_append_right _))
  | .ignored _ _ _ => exact .inr (.inl rfl)
  | @SequenceMayRun.stopped _ _ _ _ _ _ _ _ r u first _ undone =>
    simp only [NodeResult.ofStopped, List.mem_append] at ht ⊢
    rcases ht with (ht | ht) | ht
    · rcases first.tells_failure ht failed with status | inFailed
      · exact .inl (by simp [status, Rollback.status])
      · exact .inr (.inr (inFailed.mono fun t ht => by simp [ht]))
    · exact .inl (by simp [undone.incomplete ht failed, Rollback.status])
    · exact absurd (Event.isRollback_of_failed failed) (FlowNode.skipToldIn_no_rollback t ht)

theorem EachMayRun.tells_failure {info : FlowInfo} {path : String} {place : Place} {i : Nat}
    {children : List (FlowNode (Stage σ))} {results : List NodeResult} {told : List Told}
    (ran : EachMayRun info path place i children results told) {t : Told} (ht : t ∈ told)
    (failed : t.event.isFailedRollback) :
    ∃ r ∈ results, r.status = .cancellationFailed ∨ EndsAround told t.place .failed := by
  match ran with
  | .nil => simp at ht
  | @EachMayRun.cons _ _ _ _ _ _ _ r results _ _ first later mixed =>
    rcases mixed.mem.mp ht with ht | ht
    · exact ⟨r, List.mem_cons_self, (first.tells_failure ht failed).imp_right
        (.mono fun t ht => mixed.mem.mpr (.inl ht))⟩
    · obtain ⟨r', hr', h⟩ := later.tells_failure ht failed
      exact ⟨r', List.mem_cons_of_mem _ hr', h.imp_right
        (.mono fun t ht => mixed.mem.mpr (.inr ht))⟩

end

mutual

/-- A node in which a stage is called to undo its work is in a flow that was cancelled, or has one
in it around the stage. -/
theorem MayRun.tells_rollback {info : FlowInfo} {path : String} {place : Place}
    {node : FlowNode (Stage σ)} {r : NodeResult} (ran : MayRun info path place node r) {t : Told}
    (ht : t ∈ r.told) (undoes : t.event.isRollback) :
    ∃ complete, EndsAround r.told t.place (Rollback.status complete) := by
  match ran with
  | .stage outcome => exact absurd undoes (NodeResult.ofStage_no_rollback t ht)
  | .flow ran => exact ran.tells_rollback ht undoes
  | .parallel ran _ => exact ran.tells_rollback ht undoes

theorem FlowMayRun.tells_rollback {info : FlowInfo} {path : String} {place : Place}
    {header : FlowHeader} {nodes : List (FlowNode (Stage σ))} {r : NodeResult}
    (ran : FlowMayRun info path place header nodes r) {t : Told} (ht : t ∈ r.told)
    (undoes : t.event.isRollback) :
    ∃ complete, EndsAround r.told t.place (Rollback.status complete) := by
  match ran with
  | .skipped _ => exact absurd undoes (NodeResult.ofSkipped_no_rollback t ht)
  | .ended _ ran =>
    have inner := NodeResult.mem_told_of_rollback ht undoes
    obtain ⟨complete, status | ended⟩ := ran.tells_rollback inner undoes
    · obtain ⟨k, inside⟩ := ran.tells_inside.1 t inner
      exact ⟨complete, place, Place.below_of_child inside, info,
        NodeResult.mem_told_ofFlow.mpr (.inr (.inr (status ▸ rfl)))⟩
    · exact ⟨complete, ended.mono fun _ ht => NodeResult.mem_told_ofFlow.mpr (.inr (.inl ht))⟩

theorem SequenceMayRun.tells_rollback {strategy : ExecutionStrategy} {info : FlowInfo}
    {path : String} {place : Place} {i : Nat} {work : List Work}
    {nodes : List (FlowNode (Stage σ))} {l : NodeResult}
    (ran : SequenceMayRun strategy info path place i work nodes l) {t : Told} (ht : t ∈ l.told)
    (undoes : t.event.isRollback) :
    ∃ complete, l.status = Rollback.status complete ∨
      EndsAround l.told t.place (Rollback.status complete) := by
  have left {r : NodeResult} (h : ∃ complete, EndsAround r.told t.place (Rollback.status complete))
      (more : ∀ t ∈ r.told, t ∈ l.told) : ∃ complete, l.status = Rollback.status complete ∨
        EndsAround l.told t.place (Rollback.status complete) :=
    h.imp fun _ ended => .inr (ended.mono more)
  match ran with
  | .nil => simp at ht
  | .next first _ later =>
    rcases List.mem_append.mp ht with ht | ht
    · exact left (first.tells_rollback ht undoes) fun _ => List.mem_append_left _
    · obtain ⟨complete, ended⟩ := later.tells_rollback ht undoes
      exact ⟨complete, ended.imp_right (.mono fun _ => List.mem_append_right _)⟩
  | .ignored first _ later =>
    rcases List.mem_append.mp ht with ht | ht
    · exact left (first.tells_rollback ht undoes) fun _ => List.mem_append_left _
    · obtain ⟨complete, status | ended⟩ := later.tells_rollback ht undoes
      · rcases later.ends with ends | ⟨ends, -⟩ | ⟨-, ends, -⟩
        · cases complete <;> simp [ends, Rollback.status] at status
        · cases complete <;> simp [ends, Rollback.status] at status
        · simp at ends
      · exact ⟨complete, .inr (ended.mono fun _ => List.mem_append_right _)⟩
  | @SequenceMayRun.stopped _ _ _ _ _ _ _ _ r u first _ undone => exact ⟨_, .inl rfl⟩

theorem EachMayRun.tells_rollback {info : FlowInfo} {path : String} {place : Place} {i : Nat}
    {children : List (FlowNode (Stage σ))} {results : List NodeResult} {told : List Told}
    (ran : EachMayRun info path place i children results told) {t : Told} (ht : t ∈ told)
    (undoes : t.event.isRollback) :
    ∃ complete, EndsAround told t.place (Rollback.status complete) := by
  match ran with
  | .nil => simp at ht
  | .cons first later mixed =>
    rcases mixed.mem.mp ht with ht | ht
    · obtain ⟨complete, ended⟩ := first.tells_rollback ht undoes
      exact ⟨complete, ended.mono fun t ht => mixed.mem.mpr (.inl ht)⟩
    · obtain ⟨complete, ended⟩ := later.tells_rollback ht undoes
      exact ⟨complete, ended.mono fun t ht => mixed.mem.mpr (.inr ht)⟩

end

/-! ## How a flow ends -/

theorem tells_iff {told : List Told} {p : Place} {kind : Event → Bool} :
    Tells told p kind ↔ (toldAt p told).any kind = true := by
  simp only [Tells, List.any_eq_true, mem_toldAt]

theorem endsAs_iff {told : List Told} {p : Place} {status : ExecutionStatus} :
    EndsAs told p status ↔ ∃ info, .flowFinish info status ∈ toldAt p told := by
  simp only [EndsAs, mem_toldAt]

theorem EndsAs.of_concat {p : Place} {info : FlowInfo} {status own : ExecutionStatus}
    {told : List Told} (inside : ∀ t ∈ told, ∃ k, p ++ [k] <+: t.place)
    (ended : EndsAs (told ++ [⟨p, .flowFinish info own⟩]) p status) : status = own := by
  obtain ⟨info', ended⟩ := endsAs_iff.mp ended
  rw [toldAt_append, toldAt_children inside, toldAt_cons_self, toldAt_nil, List.nil_append,
    List.mem_singleton] at ended
  exact (Event.flowFinish.inj ended).2

/-- A flow ends with its status. It leaves nothing unless it finishes, and it ends as failed only if
it goes on on errors. -/
theorem FlowMayRun.ends {info : FlowInfo} {path : String} {p : Place} {header : FlowHeader}
    {nodes : List (FlowNode (Stage σ))} {r : NodeResult}
    (ran : FlowMayRun info path p header nodes r) :
    (∀ status, EndsAs r.told p status → status = r.status) ∧
      (r.status ≠ .finished → r.work = []) ∧
      (r.status = .failed → header.strategy = .ignoreOnError) := by
  cases ran with
  | skipped disqualified =>
    refine ⟨fun status ended => ?_, fun _ => rfl, by simp [NodeResult.ofSkipped]⟩
    exact EndsAs.of_concat FlowNode.skipToldIn_inside ended
  | @ended _ _ _ _ _ l runs ran =>
    refine ⟨fun status ended => ?_, fun open' => if_neg open', fun failed => ?_⟩
    · obtain ⟨info', there⟩ := ended
      rw [NodeResult.ofFlow, List.cons_append, List.mem_cons] at there
      rcases there with there | there
      · simp at there
      · exact EndsAs.of_concat ran.tells_inside.1 ⟨info', there⟩
    · change l.status = .failed at failed
      rcases ran.ends with h | ⟨-, ignores⟩ | ⟨⟨complete, h⟩, -⟩
      · simp [failed] at h
      · exact ignores
      · cases complete <;> simp [failed, Rollback.status] at h

/-- Undoing the work that a flow leaves ends the flow, as cancelled in full or not. -/
theorem FlowMayRun.ends_undone {info : FlowInfo} {path : String} {p : Place} {header : FlowHeader}
    {nodes : List (FlowNode (Stage σ))} {r : NodeResult}
    (ran : FlowMayRun info path p header nodes r) {u : Undoing} (undone : MayUndoAll r.work u)
    {status : ExecutionStatus} (ended : EndsAs u.told p status) :
    r.status = .finished ∧ status = Rollback.status u.complete := by
  rcases ran.undone_cases undone with rfl | ⟨l, v, finished, nodesRan, within, rfl, rfl⟩
  · simp [EndsAs, Undoing.none] at ended
  · refine ⟨finished, ?_⟩
    exact EndsAs.of_concat (fun t ht => nodesRan.tells_inside.2 _ (within.tells t ht)) ended

/-- A flow that ends as failed, or as cancelled in full or not, ran by itself and then had its work
undone, if it left any; the end is its own, or that of the undoing. -/
theorem Fate.flow_ends {p : Place} {path : String} {info : FlowInfo} {header : FlowHeader}
    {nodes : List (FlowNode (Stage σ))} {told : List Told} {work : List Work} {lost : Prop}
    (fate : Fate (.flow p path info header nodes) told work lost) {status : ExecutionStatus}
    (failure : status.isFailure = true) (ended : EndsAs told p status) :
    ∃ r u, FlowMayRun info path p header nodes r ∧ MayUndoAll r.work u ∧ told = r.told ++ u.told ∧
      (status = r.status ∧ u = .none ∨
        r.status = .finished ∧ status = Rollback.status u.complete) := by
  have own {r : NodeResult} (ran : FlowMayRun info path p header nodes r)
      (ended : EndsAs r.told p status) : r.work = [] ∧ status = r.status := by
    -- A flow that fails in any way leaves no work, so there is nothing to undo after it.
    have same := ran.ends.1 status ended
    refine ⟨ran.ends.2.1 fun finished => ?_, same⟩
    rw [same, finished] at failure
    simp [ExecutionStatus.isFailure] at failure
  cases fate with
  | skipped tells =>
    subst tells
    have same : status = .skipped := EndsAs.of_concat FlowNode.skipToldIn_inside ended
    simp [same, ExecutionStatus.isFailure] at failure
  | ran ran tells | dropped ran tells =>
    subst tells
    obtain ⟨none, same⟩ := own ran ended
    exact ⟨_, .none, ran, none ▸ .nil, (List.append_nil _).symm, .inl ⟨same, rfl⟩⟩
  | @undone r u ran undone tells =>
    subst tells
    obtain ⟨info', there⟩ := ended
    refine ⟨r, u, ran, undone, rfl, ?_⟩
    rcases List.mem_append.mp there with there | there
    · obtain ⟨none, same⟩ := own ran ⟨info', there⟩
      exact .inl ⟨same, (none ▸ undone).nil_eq⟩
    · exact .inr (FlowMayRun.ends_undone ran undone ⟨info', there⟩)

/-! ## What is left of a stage -/

/-- A stage that can be cancelled, did its work and left nothing was called to undo it, or its work
was lost. -/
theorem Fate.called {p : Place} {leaf : Leaf (Stage σ)} {told : List Told} {lost : Prop}
    (fate : Fate (.stage p leaf) told [] lost) (can : leaf.stage.isCancellable)
    (succeeded : Tells told p Event.isSuccess) : Tells told p Event.isRollback ∨ lost := by
  obtain ⟨e, there, success⟩ := succeeded
  cases fate with
  | skipped tells =>
    simp only [tells, Seat.skipTold, List.mem_singleton, Told.mk.injEq, true_and] at there
    simp [there, Event.isSuccess] at success
  | ran ran tells leaves =>
    obtain ⟨outcome, rfl⟩ := ran
    obtain rfl := NodeResult.ofStage_ok_of_success (tells ▸ there) success
    simp [NodeResult.ofStage] at leaves
  | dropped _ _ _ why => exact .inr why
  | undone ran undone tells =>
    obtain ⟨outcome, rfl⟩ := ran
    subst tells
    cases outcome with
    | ok =>
      rw [NodeResult.ofStage, can] at undone
      cases undone.of_single with
      | cancelled outcome =>
        cases outcome <;> exact .inl ⟨_, List.mem_append_right _ List.mem_cons_self, rfl⟩
    | error error =>
      rw [undone.nil_eq, Undoing.none, List.append_nil] at there
      simpa using NodeResult.ofStage_ok_of_success there success

theorem FlowMayRun.fate_undone {info : FlowInfo} {path : String} {p : Place} {header : FlowHeader}
    {nodes : List (FlowNode (Stage σ))} {r : NodeResult}
    (ran : FlowMayRun info path p header nodes r) {u : Undoing} (undone : MayUndoAll r.work u)
    {s : Seat (Stage σ)} (hs : s ∈ FlowNode.seatsIn info path p 0 nodes) :
    Fate s (toldBelow s.place (r.told ++ u.told)) [] (EndsAround r.told s.place .failed) := by
  obtain ⟨v, undone', tells⟩ := undone.part s.place ran.nested
  rw [toldBelow_append, tells]
  exact (ran.fate hs).undo undone'

theorem StageLife.not_finish {info : StageInfo} {events : List Event} (h : StageLife info events)
    (flow : FlowInfo) (status : ExecutionStatus) : .flowFinish flow status ∉ events := by
  cases h <;> simp

namespace Flow

variable {f : Flow (Stage σ)} {r : NodeResult}

namespace MayRun

theorem flow_ends (ran : f.MayRun r) {p : Place} {path : String} {info : FlowInfo}
    {header : FlowHeader} {nodes : List (FlowNode (Stage σ))}
    (hp : .flow p path info header nodes ∈ f.seats) {status : ExecutionStatus}
    (failure : status.isFailure = true) (ended : EndsAs r.told p status) :
    ∃ r' u, FlowMayRun info path p header nodes r' ∧ MayUndoAll r'.work u ∧
      toldBelow p r.told = r'.told ++ u.told ∧
      (status = r'.status ∧ u = .none ∨
        r'.status = .finished ∧ status = Rollback.status u.complete) := by
  obtain ⟨info', there⟩ := ended
  exact (ran.fate hp).flow_ends failure ⟨info', mem_toldBelow.mpr ⟨there, List.prefix_refl _⟩⟩

/-- What ends is a flow, and if it ends as failed, it goes on on errors. -/
theorem endsAs_flow (ran : f.MayRun r) {p : Place} {status : ExecutionStatus}
    (ended : EndsAs r.told p status) :
    ∃ path info header nodes, .flow p path info header nodes ∈ f.seats ∧
      (status = .failed → header.strategy = .ignoreOnError) := by
  obtain ⟨info', there⟩ := ended
  obtain ⟨s, hs, rfl⟩ := ran.lifecycle.seated _ there
  cases s with
  | stage p leaf =>
    exact absurd (mem_toldAt.mpr there) ((ran.lifecycle.stages p leaf hs).not_finish _ _)
  | flow p path info header nodes =>
    refine ⟨path, info, header, nodes, hs, fun failed => ?_⟩
    obtain ⟨r', u, ran', -, -, ⟨same, -⟩ | ⟨-, same⟩⟩ :=
      ran.flow_ends hs (failed ▸ rfl) ⟨info', there⟩
    · exact ran'.ends.2.2 (same ▸ failed)
    · rcases Rollback.status_cases u.complete with h | h <;> simp [same, h] at failed

theorem not_cancelled_of_failed (ran : f.MayRun r) {p : Place} (failed : EndsAs r.told p .failed)
    (complete : Bool) : ¬ EndsAs r.told p (Rollback.status complete) := by
  intro cancelled
  obtain ⟨path, info, header, nodes, hp, -⟩ := ran.endsAs_flow failed
  obtain ⟨_, failed⟩ := endsAs_iff.mp failed
  obtain ⟨_, cancelled⟩ := endsAs_iff.mp cancelled
  have life := ran.lifecycle.flows p path info header nodes hp
  generalize toldAt p r.told = events at life failed cancelled
  cases life with
  | skipped => simp at failed
  | ended ends =>
    simp only [List.mem_cons, reduceCtorEq, Event.flowFinish.injEq, List.not_mem_nil, or_false,
      false_or] at failed cancelled
    have same := failed.2.trans cancelled.2.symm
    cases complete <;> simp [Rollback.status] at same
  | undone ends =>
    rcases ends with rfl | rfl <;> simp at failed

section

variable {p q : Place} {path : String} {info : FlowInfo} {header : FlowHeader}
  {nodes : List (FlowNode (Stage σ))} {leaf : Leaf (Stage σ)} {status : ExecutionStatus}

/-- In a flow that failed in any way, each stage that can be cancelled and did its work was called
to undo it, unless it is in a flow that ended as failed. -/
theorem called (ran : f.MayRun r) (hp : .flow p path info header nodes ∈ f.seats)
    (hq : .stage q leaf ∈ f.seats) (below : p <+: q) (failure : status.isFailure)
    (ended : EndsAs r.told p status) (can : leaf.stage.isCancellable)
    (succeeded : Tells r.told q Event.isSuccess) :
    Tells r.told q Event.isRollback ∨ EndsBetween r.told p q .failed := by
  have here {kind : Event → Bool} : Tells (toldBelow q r.told) q kind ↔ Tells r.told q kind := by
    simp [Tells, mem_toldBelow]
  obtain ⟨r', u, ran', undone, tells, -⟩ := ran.flow_ends hp failure ended
  have inside : .stage q leaf ∈ FlowNode.seatsIn info path p 0 nodes :=
    (Flow.mem_seats_of_below hp hq below).resolve_left (by simp)
  have fate := FlowMayRun.fate_undone ran' undone inside
  rw [Seat.place_stage, ← tells, toldBelow_toldBelow below] at fate
  refine (fate.called can (here.mpr succeeded)).imp here.mp fun failed => ?_
  exact failed.between fun t ht => tells ▸ List.mem_append_left _ ht

/-- If a stage in a flow that failed in any way failed to undo its work, the flow tells so, unless
the stage is in a flow that ended as failed. -/
theorem failure_told (ran : f.MayRun r) (hp : .flow p path info header nodes ∈ f.seats)
    (below : p <+: q) (failure : status.isFailure) (ended : EndsAs r.told p status)
    (failed : Tells r.told q Event.isFailedRollback) :
    status = .cancellationFailed ∨ EndsBetween r.told p q .failed := by
  obtain ⟨r', u, ran', undone, tells, same⟩ := ran.flow_ends hp failure ended
  obtain ⟨e, told, failed⟩ := failed
  have told : ⟨q, e⟩ ∈ r'.told ++ u.told := tells ▸ mem_toldBelow.mpr ⟨told, below⟩
  rcases List.mem_append.mp told with told | told
  · rcases FlowMayRun.tells_failure ran' told failed with status' | inFailed
    · rcases same with ⟨same, -⟩ | ⟨finished, -⟩
      · exact .inl (same.trans status')
      · simp [status'] at finished
    · exact .inr (inFailed.between fun t ht => tells ▸ List.mem_append_left _ ht)
  · rcases same with ⟨-, rfl⟩ | ⟨-, same⟩
    · simp [Undoing.none] at told
    · rw [undone.incomplete told failed] at same
      exact .inl same

/-- A stage in a flow that failed is called to undo its work only in a flow inside that was
cancelled. -/
theorem cancelled_of_called (ran : f.MayRun r) (hp : .flow p path info header nodes ∈ f.seats)
    (below : p <+: q) (failed : EndsAs r.told p .failed)
    (called : Tells r.told q Event.isRollback) :
    ∃ complete, EndsBetween r.told p q (Rollback.status complete) := by
  obtain ⟨r', u, ran', undone, tells, same⟩ := ran.flow_ends hp rfl failed
  obtain ⟨e, told, undoes⟩ := called
  have told : ⟨q, e⟩ ∈ r'.told ++ u.told := tells ▸ mem_toldBelow.mpr ⟨told, below⟩
  rcases same with ⟨-, rfl⟩ | ⟨-, same⟩
  · rw [Undoing.none, List.append_nil] at told
    obtain ⟨complete, ended⟩ := FlowMayRun.tells_rollback ran' told undoes
    exact ⟨complete, ended.between fun t ht => tells ▸ List.mem_append_left _ ht⟩
  · rcases Rollback.status_cases u.complete with h | h <;> simp [h] at same

/-- In a flow that failed in any way, a stage that can be cancelled and did its work was never
called to undo it exactly if its work was let go. -/
theorem not_called_iff (ran : f.MayRun r) (hp : .flow p path info header nodes ∈ f.seats)
    (hq : .stage q leaf ∈ f.seats) (below : p <+: q) (failure : status.isFailure)
    (ended : EndsAs r.told p status) (can : leaf.stage.isCancellable)
    (succeeded : Tells r.told q Event.isSuccess) :
    ¬ Tells r.told q Event.isRollback ↔ LetGo r.told p q := by
  constructor
  · intro uncalled
    obtain ⟨inner, inside, above, failed, innermost⟩ :=
      ((ran.called hp hq below failure ended can succeeded).resolve_left uncalled).innermost
    refine ⟨inner, inside, above, failed, ?_⟩
    rintro complete ⟨q', below', above', cancelled⟩
    -- A flow in it that was cancelled would have another one in it that failed.
    obtain ⟨_, _, _, _, hq', -⟩ := ran.endsAs_flow cancelled
    obtain ⟨q'', below'', above'', failed'⟩ := (ran.called hq' hq above'
      (Rollback.status_isFailure complete) cancelled can succeeded).resolve_left uncalled
    obtain rfl := innermost q'' (below'.trans below'') above'' failed'
    obtain rfl := below''.eq_of_length (le_antisymm below''.length_le below'.length_le)
    exact ran.not_cancelled_of_failed failed complete cancelled
  · rintro ⟨inner, -, above, failed, innermost⟩ called
    obtain ⟨_, _, _, _, hinner, -⟩ := ran.endsAs_flow failed
    obtain ⟨complete, cancelled⟩ := ran.cancelled_of_called hinner above failed called
    exact innermost complete cancelled

end

end MayRun

/-- The ends of a flow are true of each stage in it, unless a flow between them ended as failed, and
only a flow that goes on on errors ends so. In a flow that was cancelled, a stage that can be
cancelled and did its work was never called to undo it exactly if its work was let go by such a
flow. -/
theorem cancelled_truthful_unless_failed (ran : f.MayRun r) {p q : Place} {path : String}
    {info : FlowInfo} {header : FlowHeader} {nodes : List (FlowNode (Stage σ))}
    {leaf : Leaf (Stage σ)} (hp : .flow p path info header nodes ∈ f.seats)
    (hq : .stage q leaf ∈ f.seats) (below : p <+: q) :
    (EndsTruthfully r.told p q leaf ∨ EndsBetween r.told p q .failed) ∧
      (∀ q', EndsAs r.told q' .failed → ∃ path info header nodes,
        .flow q' path info header nodes ∈ f.seats ∧ header.strategy = .ignoreOnError) ∧
      (EndsAs r.told p .cancelled → leaf.stage.isCancellable → Tells r.told q Event.isSuccess →
        (¬ Tells r.told q Event.isRollback ↔ LetGo r.told p q)) := by
  refine ⟨?_, fun q' failed => ?_, fun ended can succeeded =>
    ran.not_called_iff hp hq below rfl ended can succeeded⟩
  · by_cases between : EndsBetween r.told p q .failed
    · exact .inr between
    · have reported (status : ExecutionStatus) (ended : EndsAs r.told p status)
          (failure : status.isFailure) (failed : Tells r.told q Event.isFailedRollback) :
          status = .cancellationFailed :=
        (ran.failure_told hp below failure ended failed).resolve_right between
      refine .inl ⟨fun ended failed => ?_, fun ended can succeeded => ?_, reported⟩
      · simpa using reported _ ended rfl failed
      · exact (ran.called hp hq below rfl ended can succeeded).resolve_right between
  · obtain ⟨path, info, header, nodes, hf, ignores⟩ := ran.endsAs_flow failed
    exact ⟨path, info, header, nodes, hf, ignores rfl⟩

/-- A flow that cancels on errors around one that goes on on errors. In that one there is a stage
that succeeds, and a flow in which a stage fails and another one cannot be undone. -/
def lettingGo : Flow (Stage (List String)) :=
  { header := { id := "f" }
    nodes :=
      [.flow { id := "g", strategy := .ignoreOnError }
        [.stage (writing "a" true true),
          .flow { id := "h" } [.stage (writing "b" true false), .stage (writing "c" false true)]]] }

theorem lettingGo_ends : EndsAs (lettingGo.placed []).result.told [] .cancelled :=
  endsAs_iff.mpr ⟨_, List.mem_of_getElem? (i := 1) rfl⟩

theorem cancelled_truthful_unless_failed_lettingGo :
    lettingGo.MayRun (lettingGo.placed []).result ∧
      LetGo (lettingGo.placed []).result.told [] [0, 0] ∧
      EndsBetween (lettingGo.placed []).result.told [] [0, 1, 0] .failed := by
  have ran := lettingGo.placed_mayRun []
  have root : lettingGo.seat ∈ lettingGo.seats := List.mem_cons_self
  obtain ⟨-, -, letGo⟩ := cancelled_truthful_unless_failed ran root
    (q := [0, 0]) (List.mem_of_getElem? (i := 2) rfl) List.nil_prefix
  obtain ⟨truthful | between, -⟩ := cancelled_truthful_unless_failed ran root
    (q := [0, 1, 0]) (List.mem_of_getElem? (i := 4) rfl) List.nil_prefix
  · exact absurd (tells_iff.mpr rfl) (truthful.undone lettingGo_ends)
  · refine ⟨ran, (letGo lettingGo_ends rfl (tells_iff.mpr rfl)).mp ?_, between⟩
    exact mt tells_iff.mp (Bool.eq_false_iff.mp rfl)

/-- The outermost flow is cancelled, the first stage in it is never called to undo its work, and
another one failed to undo its work. -/
theorem cancelled_lettingGo :
    lettingGo.MayRun (lettingGo.placed []).result ∧ lettingGo.header.strategy = .cancelOnError ∧
      (lettingGo.run []).machine.world = ["undo b", "c", "b", "a"] ∧
      (lettingGo.run []).report.status = .cancelled ∧
      EndsAs (lettingGo.placed []).result.told [] .cancelled ∧
      (∃ leaf, .stage [0, 0] leaf ∈ lettingGo.seats ∧ leaf.stage.isCancellable ∧
        Tells (lettingGo.placed []).result.told [0, 0] Event.isSuccess ∧
        ¬ Tells (lettingGo.placed []).result.told [0, 0] Event.isRollback) ∧
      ∃ leaf, .stage [0, 1, 0] leaf ∈ lettingGo.seats ∧
        Tells (lettingGo.placed []).result.told [0, 1, 0] Event.isFailedRollback := by
  refine ⟨lettingGo.placed_mayRun [], rfl, rfl, rfl, lettingGo_ends,
    ⟨_, List.mem_of_getElem? (i := 2) rfl, rfl, tells_iff.mpr rfl, ?_⟩,
    _, List.mem_of_getElem? (i := 4) rfl, tells_iff.mpr rfl⟩
  exact mt tells_iff.mp (Bool.eq_false_iff.mp rfl)

end Flow

end Provisioning
