import Provisioning.Proofs.Flow.Outcome

/-!
# Compensation

When no flow that goes on after errors lies below one that cancels, stages are undone exactly and
last first: each call to undo work meets the stage that succeeded last among those not undone, no
stage is undone twice or without having succeeded, a flow that ends as cancelled leaves nothing
below it that could still be undone, and after a failure nothing further in that flow is started.

The invariant is the stack of `Walk`: what a run leaves on it is never below a flow that was
cancelled in the meantime (`Leaves`).
-/

namespace Provisioning

variable {α σ : Type}

namespace FlowNode

mutual

/-- Whether no flow that goes on after errors lies below a flow that cancels. -/
def cancelClosed : FlowNode α → Bool
  | stage _ => true
  | flow header nodes =>
    match header.strategy with
    | .cancelOnError => allCancelIn nodes
    | .ignoreOnError => cancelClosedIn nodes
  | parallel _ children => cancelClosedIn children

/-- Whether no flow that goes on after errors lies below a flow that cancels, in any of the
nodes. -/
def cancelClosedIn : List (FlowNode α) → Bool
  | [] => true
  | node :: rest => cancelClosed node && cancelClosedIn rest

end

mutual

theorem cancelClosed_of_allCancel {node : FlowNode α} (h : node.allCancel) : node.cancelClosed := by
  cases node with
  | stage s => rfl
  | flow header nodes =>
    simp only [allCancel, Bool.and_eq_true, decide_eq_true_eq] at h
    simp only [cancelClosed, h.1, h.2]
  | parallel name children => exact cancelClosedIn_of_allCancelIn h

theorem cancelClosedIn_of_allCancelIn {nodes : List (FlowNode α)} (h : allCancelIn nodes) :
    cancelClosedIn nodes := by
  cases nodes with
  | nil => rfl
  | cons node rest =>
    rw [allCancelIn, Bool.and_eq_true] at h
    rw [cancelClosedIn, cancelClosed_of_allCancel h.1, cancelClosedIn_of_allCancelIn h.2,
      Bool.true_and]

end

end FlowNode

/-- Whether no flow that goes on after errors lies below a flow that cancels. -/
def Flow.cancelClosed (f : Flow α) : Bool := (FlowNode.flow f.header f.nodes).cancelClosed

/-! ## What is asked of a trace -/

/-- How often the stage at a place succeeds. -/
def successesAt (ms : List (Moment σ)) (p : Place) : Nat :=
  ms.countP fun x => x.event.isSuccess && x.place == p

/-- How often the stage at a place fails. -/
def errorsAt (ms : List (Moment σ)) (p : Place) : Nat :=
  ms.countP fun x => x.event.isError && x.place == p

/-- How often the stage at a place is called to undo its work. -/
def rollbacksAt (ms : List (Moment σ)) (p : Place) : Nat :=
  ms.countP fun x => x.event.isRollback && x.place == p

/-- Nothing starts below a node of a flow when a stage below an earlier node of it has failed. -/
def Halts (ms : List (Moment σ)) (p : Place) : Prop :=
  ∀ i j, i < j → (∃ x ∈ ms, x.event.isError ∧ p ++ [i] <+: x.place) →
    ∀ y ∈ ms, y.event.isStart → ¬ p ++ [j] <+: y.place

/-- Whether the stage at a place can be cancelled. -/
def cancellableAt (leaf : Place → Option (Leaf (Stage σ))) (p : Place) : Bool :=
  (leaf p).any (·.stage.isCancellable)

/-- The stages that can still be undone after a further moment, the one that succeeded last first. -/
def pendingStep (leaf : Place → Option (Leaf (Stage σ))) (pending : List Place) (x : Moment σ) :
    List Place :=
  if x.event.isSuccess && cancellableAt leaf x.place then x.place :: pending
  else if x.event.isRollback then pending.erase x.place
  else pending

/-- The stages that can be cancelled, have succeeded in the course of moments and have not been
cancelled since, the one that succeeded last first. -/
def pendingAfter (leaf : Place → Option (Leaf (Stage σ))) (ms : List (Moment σ)) : List Place :=
  ms.foldl (pendingStep leaf) []

/-- Work is undone exactly and last first. -/
structure Compensates (f : Flow (Stage σ)) (ms : List (Moment σ)) : Prop where
  /-- What is undone is the stage that succeeded last among those not undone. -/
  lifo : ∀ earlier x later, ms = earlier ++ x :: later → x.event.isRollback →
    (pendingAfter f.leaf? earlier).head? = some x.place
  /-- What is undone has succeeded before and has not failed. -/
  executed : ∀ earlier x later, ms = earlier ++ x :: later → x.event.isRollback →
    0 < successesAt earlier x.place ∧ errorsAt ms x.place = 0
  /-- Nothing is undone twice. -/
  once : ∀ p, rollbacksAt ms p ≤ 1
  /-- Below a flow that ends as cancelled, in full or not, all that succeeded was to be undone. -/
  complete : ∀ x ∈ ms, x.event.isCancelledFlow → ∀ q, x.place <+: q → cancellableAt f.leaf? q →
    0 < successesAt ms q → rollbacksAt ms q = 1
  /-- A flow that cancels starts nothing after a node that has failed. -/
  halts : ∀ p header nodes, f.node? p = some (.flow header nodes) →
    header.strategy = .cancelOnError → Halts ms p

/-! ## What a walk says about its moments -/

namespace Walk

variable {leaf : Place → Option (Leaf (Stage σ))}

/-- A walk can be cut where its moments can be cut. -/
theorem split {s u : Progress σ} {ms ns : List (Moment σ)} (walk : Walk leaf s (ms ++ ns) u) :
    ∃ t, Walk leaf s ms t ∧ Walk leaf t ns u := by
  induction ms generalizing s with
  | nil => exact ⟨s, .nil s, walk⟩
  | cons x rest ih =>
    cases walk with
    | cons step walk =>
      obtain ⟨t, first, second⟩ := ih walk
      exact ⟨t, .cons step first, second⟩

/-- The stack of a walk is made of what is pending. -/
theorem pending {s t : Progress σ} {ms : List (Moment σ)} (walk : Walk leaf s ms t) :
    ms.foldl (pendingStep leaf) s.pending = t.pending := by
  induction walk with
  | nil => rfl
  | cons step _ ih =>
    rw [List.foldl_cons, ← ih]
    congr 1
    cases step with
    | succeeded m pending here ok =>
      simp [pendingStep, cancellableAt, here, Leaf.push, Event.isSuccess, Event.isRollback]
    | failed m pending here error => simp [pendingStep, Event.isSuccess, Event.isRollback]
    | undone m pending here can ok => simp [pendingStep, Event.isSuccess, Event.isRollback]
    | notUndone m pending here can error => simp [pendingStep, Event.isSuccess, Event.isRollback]
    | told m pending quiet still =>
      simp only [Event.isExecution, Bool.or_eq_false_iff] at quiet
      simp [pendingStep, quiet.1, still]

/-- A stage is undone as often as it was on the stack or put on it, less what is still there. -/
theorem balance {s t : Progress σ} {ms : List (Moment σ)} (walk : Walk leaf s ms t) {p : Place}
    (can : cancellableAt leaf p) :
    s.pending.count p + successesAt ms p = rollbacksAt ms p + t.pending.count p := by
  induction walk with
  | nil => simp [successesAt, rollbacksAt]
  | @cons s t u x ms step _ ih =>
    have hs : successesAt (x :: ms) p
        = successesAt ms p + if x.event.isSuccess && x.place == p then 1 else 0 :=
      List.countP_cons
    have hr : rollbacksAt (x :: ms) p
        = rollbacksAt ms p + if x.event.isRollback && x.place == p then 1 else 0 :=
      List.countP_cons
    rw [hs, hr]
    cases step with
    | @succeeded p' l m pending here ok =>
      by_cases hp : p' = p
      · subst hp
        have hl : l.stage.isCancellable := by simpa [cancellableAt, here] using can
        simp [Leaf.push, hl, Event.isSuccess, Event.isRollback] at ih ⊢
        omega
      · have hpush : (l.push p' pending).count p = pending.count p := by
          unfold Leaf.push
          split
          · exact List.count_cons_of_ne hp
          · rfl
        simp [hpush, hp, Event.isSuccess, Event.isRollback] at ih ⊢
        omega
    | failed m pending here error =>
      simpa [Event.isSuccess, Event.isRollback] using ih
    | undone m pending here can' ok =>
      simp only [List.count_cons, Event.isSuccess, Event.isRollback, Bool.false_and, Bool.true_and,
        Bool.false_eq_true, ↓reduceIte] at ih ⊢
      omega
    | notUndone m pending here can' error =>
      simp only [List.count_cons, Event.isSuccess, Event.isRollback, Bool.false_and, Bool.true_and,
        Bool.false_eq_true, ↓reduceIte] at ih ⊢
      omega
    | told m pending quiet still =>
      simp only [Event.isExecution, Bool.or_eq_false_iff] at quiet
      simpa [quiet.1, still] using ih

/-- A walk that starts by undoing a stage has that stage on top. -/
theorem top {s t : Progress σ} {x : Moment σ} {ms : List (Moment σ)}
    (walk : Walk leaf s (x :: ms) t) (undoes : x.event.isRollback) :
    s.pending.head? = some x.place ∧ cancellableAt leaf x.place := by
  cases walk with
  | cons step _ =>
    cases step with
    | succeeded | failed => simp [Event.isRollback] at undoes
    | undone m pending here can ok | notUndone m pending here can error =>
      simp [cancellableAt, here, Stage.isCancellable, can]
    | told m pending quiet still => simp [still] at undoes

end Walk

/-- Each execution of a stage succeeds or fails. -/
theorem count_executions (ms : List (Moment σ)) (p : Place) :
    (executions ms).count p = successesAt ms p + errorsAt ms p := by
  induction ms with
  | nil => rfl
  | cons x rest ih =>
    simp only [executions, successesAt, errorsAt, List.countP_cons] at ih ⊢
    cases he : x.event <;>
      simp_all [Event.isExecution, Event.isSuccess, Event.isError, List.count_cons] <;> omega

/-- Whether a flow halts depends on what drives the run forward at or below its place. -/
theorem Halts.of_forward {ms ns : List (Moment σ)} {p : Place} (h : Halts ns p)
    (forward : ∀ x ∈ ms, x.event.isForward → ∀ j, p ++ [j] <+: x.place → x ∈ ns) :
    Halts ms p := by
  rintro i j hij ⟨x, hx, he, hxi⟩ y hy hs hyj
  have hx := forward x hx (Event.isForward_of_isError he) i hxi
  have hy := forward y hy (Event.isForward_of_isStart hs) j hyj
  exact h i j hij ⟨x, hx, he, hxi⟩ y hy hs hyj

theorem Halts.of_backward {ms : List (Moment σ)} {p : Place}
    (backward : ∀ x ∈ ms, x.event.isForward = false) : Halts ms p := by
  have nothing : Halts ([] : List (Moment σ)) p := by simp [Halts]
  refine nothing.of_forward fun x hx he => ?_
  simp [backward x hx] at he

namespace Placed

/-! ## Flows that are cancelled -/

/-- No place of a list lies below a place. -/
def Clear (p : Place) (pending : List Place) : Prop := ∀ q ∈ pending, ¬ p <+: q

/-- Places below different children of a place are not below each other. -/
theorem not_below_of_children {place p q : Place} {i k : Nat} (hp : place ++ [k] <+: p)
    (hq : place ++ [i] <+: q) (hne : k ≠ i) : ¬ p <+: q := by
  intro h
  have same := Place.child_unique (hp.trans h) hq
  exact hne same

theorem mem_flow_moments {place : Place} {info : FlowInfo} {m : Machine σ} {r : ListRun σ}
    {x : Moment σ} (hx : x ∈ (r.flow place info m).moments) :
    x = { place, event := .flowStart info, machine := m } ∨ x ∈ r.moments ∨
      x = { place, event := .flowFinish info r.flowStatus, machine := r.machine } := by
  simpa [ListRun.flow] using hx

/-- What a flow hands over is not below a flow that was cancelled, if that holds of its nodes. -/
theorem runFlow_clear {info : FlowInfo} {path : String} {place : Place} {m : Machine σ}
    {header : FlowHeader} {nodes : List (FlowNode (Stage σ))}
    (cancels : header.strategy = .cancelOnError) {x : Moment σ}
    (hx : x ∈ (runFlow info path place m header nodes).moments) (he : x.event.isCancelledFlow)
    (ih : x ∈ (runAll .stop info path place 0 m [] nodes).moments →
      Clear x.place (cancellable
        (Completed.stagesAll (runAll .stop info path place 0 m [] nodes).completed))) :
    Clear x.place (cancellable
      (Completed.stagesAll (runFlow info path place m header nodes).completed.toList)) := by
  unfold runFlow at hx ⊢
  cases hs : header.skipReason with
  | some reason => simp [Clear, skippedRun, Completed.stagesAll, cancellable]
  | none =>
    simp only [hs, cancels, OnFailure.ofStrategy] at hx ⊢
    rcases mem_flow_moments hx with rfl | hx | rfl
    · simp [Event.isCancelledFlow] at he
    · rw [flow_stages]
      exact ih hx
    · rw [flow_stages]
      rcases runAll_stop_completed info path place 0 m [] nodes with finished | nothing
      · simp [finished, Event.isCancelledFlow] at he
      · simp [nothing, Clear, Completed.stagesAll, cancellable]

mutual

/-- What a node in which every flow cancels hands over is not below a flow that was cancelled. -/
theorem run_clear {info : FlowInfo} {path : String} {place : Place} {m : Machine σ}
    {node : FlowNode (Stage σ)} (cancels : node.allCancel) {x : Moment σ}
    (hx : x ∈ (run info path place m node).moments) (he : x.event.isCancelledFlow) :
    Clear x.place
      (cancellable (Completed.stagesAll (run info path place m node).completed.toList)) := by
  cases node with
  | stage s =>
    cases ho : (s.execute (m.context (info.stage path s.name) info.scope) m.world).outcome <;>
      (simp only [run, stageRun, Stage.run, ho, List.map_cons, List.map_nil, List.mem_cons,
        List.not_mem_nil, or_false] at hx
       rcases hx with rfl | rfl <;> simp [Event.isCancelledFlow] at he)
  | flow header nodes =>
    simp only [FlowNode.allCancel, Bool.and_eq_true, decide_eq_true_eq] at cancels
    rw [run_flow] at hx ⊢
    refine runFlow_clear cancels.1 hx he fun hx => ?_
    exact runAll_clear (by simp) cancels.2 (by simp [Completed.placesAll]) (.inl ⟨x, hx, he, rfl⟩)
  | parallel name children =>
    rw [run] at hx ⊢
    rw [group_stages]
    exact runAll_clear (by simp) cancels (by simp [Completed.placesAll]) (.inl ⟨x, hx, he, rfl⟩)

/-- The same of a list of nodes, for a flow that is cancelled in its course and for a flow below an
earlier child that was cancelled before. -/
theorem runAll_clear {onFailure : OnFailure} (keeps : onFailure ≠ .leave) {info : FlowInfo}
    {path : String} {place : Place} {i : Nat} {m : Machine σ} {completed : List (Completed σ)}
    {nodes : List (FlowNode (Stage σ))} (cancels : FlowNode.allCancelIn nodes)
    (done : ∀ q ∈ Completed.placesAll completed, ∃ k < i, place ++ [k] <+: q) {p : Place}
    (hp : (∃ x ∈ (runAll onFailure info path place i m completed nodes).moments,
        x.event.isCancelledFlow ∧ x.place = p) ∨
      (∃ k < i, place ++ [k] <+: p) ∧ Clear p (cancellable (Completed.stagesAll completed))) :
    Clear p (cancellable
      (Completed.stagesAll (runAll onFailure info path place i m completed nodes).completed)) := by
  cases nodes with
  | nil => exact (hp.resolve_left (by simp [runAll])).2
  | cons node rest =>
    rw [FlowNode.allCancelIn, Bool.and_eq_true] at cancels
    have first := run_below info path (place ++ [i]) m node
    rcases stops_or_goes onFailure (run info path (place ++ [i]) m node) with ⟨rfl, hf⟩ | goes
    · rw [runAll_stop hf]
      simp [ListRun.stop, Completed.stagesAll, cancellable, Clear]
    · rw [runAll_go goes, OnFailure.kept_eq keeps] at hp ⊢
      refine runAll_clear keeps cancels.2 (fun q hq => ?_) ?_
      · rw [Completed.placesAll_append, List.mem_append] at hq
        rcases hq with hq | hq
        · exact ⟨i, by omega, first.2 q hq⟩
        · obtain ⟨k, hk, hq⟩ := done q hq
          exact ⟨k, by omega, hq⟩
      · simp only [ListRun.cons, List.mem_append] at hp
        rcases hp with ⟨x, hx | hx, he, rfl⟩ | ⟨⟨k, hk, hp⟩, clear⟩
        · have below := first.1 x hx
          refine .inr ⟨⟨i, by omega, below⟩, fun q hq => ?_⟩
          rw [Completed.stagesAll_append, cancellable_append, List.mem_append] at hq
          rcases hq with hq | hq
          · exact run_clear cancels.1 hx he q hq
          · obtain ⟨k, hk, hq⟩ := done q (cancellable_places hq)
            exact not_below_of_children below hq (by omega)
        · exact .inl ⟨x, hx, he, rfl⟩
        · refine .inr ⟨⟨k, by omega, hp⟩, fun q hq => ?_⟩
          rw [Completed.stagesAll_append, cancellable_append, List.mem_append] at hq
          rcases hq with hq | hq
          · exact not_below_of_children hp (first.2 q (cancellable_places hq)) (by omega)
          · exact clear q hq

end

/-! ## What a run leaves on the stack -/

/-- A walk on any stack leaves places behind, none of them below a flow that it tells was
cancelled. -/
structure Leaves (leaf : Place → Option (Leaf (Stage σ))) (m : Machine σ) (pending : List Place)
    (ms : List (Moment σ)) (m' : Machine σ) (left : List Place) : Prop where
  /-- The places are left on the stack. -/
  walk : Walk leaf ⟨m, pending⟩ ms ⟨m', left ++ pending⟩
  /-- None of them is below a cancelled flow. -/
  clear : ∀ x ∈ ms, x.event.isCancelledFlow → Clear x.place left

variable {leaf : Place → Option (Leaf (Stage σ))}

/-- A list of nodes that no failure stops has not been stopped. -/
theorem runAll_stopped {onFailure : OnFailure} (goes : onFailure ≠ .stop) (info : FlowInfo)
    (path : String) (place : Place) (i : Nat) (m : Machine σ) (completed : List (Completed σ))
    (nodes : List (FlowNode (Stage σ))) :
    (runAll onFailure info path place i m completed nodes).stopped = none := by
  induction nodes generalizing i m completed with
  | nil => rfl
  | cons node rest ih =>
    rw [runAll_go fun h => absurd h goes]
    exact ih _ _ _

theorem runFlow_leaves (info : FlowInfo) (path : String) (place : Place) (m : Machine σ)
    (header : FlowHeader) (nodes : List (FlowNode (Stage σ)))
    (closed : (FlowNode.flow header nodes).cancelClosed)
    (located : header.skipReason = none →
      ∀ k q, leaf (place ++ k :: q) = FlowNode.leafIn? info path nodes k q)
    (pending : List Place)
    (ih : header.skipReason = none → FlowNode.cancelClosedIn nodes →
      ∃ left, Leaves leaf m pending (runAll .leave info path place 0 m [] nodes).moments
          (runAll .leave info path place 0 m [] nodes).machine left ∧
        ∀ q ∈ left, place <+: q) :
    ∃ left, Leaves leaf m pending (runFlow info path place m header nodes).moments
        (runFlow info path place m header nodes).machine left ∧ ∀ q ∈ left, place <+: q := by
  cases hst : header.strategy with
  | cancelOnError =>
    have cancels : FlowNode.allCancelIn nodes := by simpa [FlowNode.cancelClosed, hst] using closed
    have walk := (runFlow_walk info path place m header nodes hst pending fun runs =>
      runAll_walk .stop (by simp) info path place 0 m [] nodes cancels
        (by simpa using located runs) (fun x hx => absurd hx List.not_mem_nil) pending).2
    refine ⟨_, ⟨walk, fun x hx he => ?_⟩, fun q hq => ?_⟩
    · refine runFlow_clear hst hx he fun hx => ?_
      exact runAll_clear (by simp) cancels (by simp [Completed.placesAll]) (.inl ⟨x, hx, he, rfl⟩)
    · have nodesBelow := runAll_below (.ofStrategy header.strategy) info path place 0 m [] nodes
        (by simp [Completed.placesAll])
      have below := (runFlow_below info path place m header nodes nodesBelow).2
      exact below q (cancellable_places hq)
  | ignoreOnError =>
    have closed : FlowNode.cancelClosedIn nodes := by simpa [FlowNode.cancelClosed, hst] using closed
    unfold runFlow
    cases hs : header.skipReason with
    | some reason =>
      exact ⟨[], ⟨.of_skips (fun x hx => skippedRun_skips hx) pending, by simp [Clear]⟩, by simp⟩
    | none =>
      obtain ⟨left, leaves, below⟩ := ih hs closed
      rw [hst]
      refine ⟨left, ⟨?_, fun x hx he => ?_⟩, below⟩
      · exact .cons (.told m pending rfl rfl) (leaves.walk.append (.single (.told _ _ rfl rfl)))
      · rcases mem_flow_moments hx with rfl | hx | rfl
        · simp [Event.isCancelledFlow] at he
        · exact leaves.clear x hx he
        · have going := runAll_stopped (show OnFailure.leave ≠ .stop by simp) info path place 0 m []
            nodes
          simp only [OnFailure.ofStrategy, ListRun.flowStatus, going] at he
          cases hf : (runAll .leave info path place 0 m [] nodes).failed <;>
            simp [hf, Event.isCancelledFlow] at he

mutual

/-- The run of a node below which no flow goes on inside one that cancels is a walk that leaves
nothing below a cancelled flow. -/
theorem run_leaves (info : FlowInfo) (path : String) (place : Place) (m : Machine σ)
    (node : FlowNode (Stage σ)) (closed : node.cancelClosed)
    (located : ∀ q, leaf (place ++ q) = node.leaf? info path q) (pending : List Place) :
    ∃ left, Leaves leaf m pending (run info path place m node).moments
        (run info path place m node).machine left ∧ ∀ q ∈ left, place <+: q := by
  cases node with
  | stage s =>
    have walk := (run_walk info path place m (.stage s) rfl located pending).2
    refine ⟨_, ⟨walk, fun x hx he => run_clear rfl hx he⟩, fun q hq => ?_⟩
    exact (run_below info path place m (.stage s)).2 q (cancellable_places hq)
  | flow header nodes =>
    rw [run_flow]
    have located : header.skipReason = none → ∀ k q, leaf (place ++ k :: q)
        = FlowNode.leafIn? (info.child header) (FlowNode.childPath path header.id) nodes k q := by
      intro runs k q
      simpa [FlowNode.leaf?, runs] using located (k :: q)
    refine runFlow_leaves _ _ place m header nodes closed located pending fun runs closed => ?_
    obtain ⟨left, leaves, below⟩ := runAll_leaves (show OnFailure.leave ≠ .stop by simp)
      (info.child header) (FlowNode.childPath path header.id) place 0 m [] nodes closed
      (by simpa using located runs) pending
    refine ⟨left, leaves, fun q hq => ?_⟩
    obtain ⟨k, -, h⟩ := below q hq
    exact Place.below_of_child h
  | parallel name children =>
    obtain ⟨left, leaves, below⟩ := runAll_leaves (show OnFailure.keep ≠ .stop by simp) info
      (FlowNode.childPath path name) place 0 m [] children closed
      (fun k q => by simpa [FlowNode.leaf?] using located (k :: q)) pending
    rw [run]
    refine ⟨left, leaves, fun q hq => ?_⟩
    obtain ⟨k, -, h⟩ := below q hq
    exact Place.below_of_child h

theorem runAll_leaves {onFailure : OnFailure} (goes : onFailure ≠ .stop) (info : FlowInfo)
    (path : String) (place : Place) (i : Nat) (m : Machine σ) (completed : List (Completed σ))
    (nodes : List (FlowNode (Stage σ))) (closed : FlowNode.cancelClosedIn nodes)
    (located : ∀ k q, leaf (place ++ (i + k) :: q) = FlowNode.leafIn? info path nodes k q)
    (pending : List Place) :
    ∃ left, Leaves leaf m pending (runAll onFailure info path place i m completed nodes).moments
        (runAll onFailure info path place i m completed nodes).machine left ∧
      ∀ q ∈ left, ∃ k ≥ i, place ++ [k] <+: q := by
  cases nodes with
  | nil => exact ⟨[], ⟨.nil _, by simp [runAll]⟩, by simp⟩
  | cons node rest =>
    rw [FlowNode.cancelClosedIn, Bool.and_eq_true] at closed
    have here := FlowNode.located_head located
    have others := FlowNode.located_tail located
    obtain ⟨left, first, below⟩ := run_leaves info path (place ++ [i]) m node closed.1 here pending
    obtain ⟨more, second, after⟩ := runAll_leaves goes info path place (i + 1)
      (run info path (place ++ [i]) m node).machine
      (onFailure.kept (run info path (place ++ [i]) m node) ++ completed) rest closed.2 others
      (left ++ pending)
    rw [runAll_go fun h => absurd h goes]
    refine ⟨more ++ left, ⟨?_, fun x hx he q hq => ?_⟩, fun q hq => ?_⟩
    · rw [List.append_assoc]
      exact first.walk.append second.walk
    · simp only [ListRun.cons, List.mem_append] at hx hq
      rcases hx with hx | hx <;> rcases hq with hq | hq
      · obtain ⟨k, hk, hq⟩ := after q hq
        exact not_below_of_children ((run_below _ _ _ _ _).1 x hx) hq (by omega)
      · exact first.clear x hx he q hq
      · exact second.clear x hx he q hq
      · obtain ⟨k, hk, hx⟩ := runAll_child hx (.inr goes)
        exact not_below_of_children hx (below q hq) (by omega)
    · rcases List.mem_append.mp hq with hq | hq
      · obtain ⟨k, hk, hq⟩ := after q hq
        exact ⟨k, by omega, hq⟩
      · exact ⟨i, le_rfl, below q hq⟩

end

/-! ## Nothing starts after a failure -/

/-- Nodes of a flow that cancels: nothing starts after one that has failed. -/
theorem runAll_halts_here {info : FlowInfo} {path : String} {place : Place} {i : Nat}
    {m : Machine σ} {completed : List (Completed σ)} {nodes : List (FlowNode (Stage σ))}
    (cancels : FlowNode.allCancelIn nodes) :
    Halts (runAll .stop info path place i m completed nodes).moments place := by
  induction nodes generalizing i m completed with
  | nil => exact .of_backward (by simp [runAll])
  | cons node rest ih =>
    rw [FlowNode.allCancelIn, Bool.and_eq_true] at cancels
    have below := (run_below info path (place ++ [i]) m node).1
    rcases stops_or_goes .stop (run info path (place ++ [i]) m node) with ⟨-, hf⟩ | goes
    · rw [runAll_stop hf]
      have here : ∀ x ∈ (ListRun.stop info path place i (run info path (place ++ [i]) m node)
          completed rest).moments, x.event.isForward → place ++ [i] <+: x.place :=
        fun x hx forward => below x (mem_of_stop hx forward)
      rintro a b hab ⟨x, hx, he, hxa⟩ y hy hs hyb
      have ha := Place.child_unique hxa (here x hx (Event.isForward_of_isError he))
      have hb := Place.child_unique hyb (here y hy (Event.isForward_of_isStart hs))
      omega
    · rw [runAll_go goes]
      rintro a b hab ⟨x, hx, he, hxa⟩ y hy hs hyb
      simp only [ListRun.cons, List.mem_append] at hx hy
      have hx := hx.resolve_left fun hx => by
        simpa [goes rfl] using (run_tells cancels.1 hx).1 he
      obtain ⟨k, hk, hxk⟩ := runAll_child hx (.inl (Event.isForward_of_isError he))
      have ha := Place.child_unique hxa hxk
      rcases hy with hy | hy
      · have hb := Place.child_unique hyb (below y hy)
        omega
      · exact ih cancels.2 a b hab ⟨x, hx, he, hxa⟩ y hy hs hyb

/-- A flow that cancels starts nothing after a node that has failed, if the flows below it do. -/
theorem runFlow_halts {info : FlowInfo} {path : String} {place : Place} {m : Machine σ}
    {header : FlowHeader} {nodes : List (FlowNode (Stage σ))}
    (closed : (FlowNode.flow header nodes).cancelClosed) {q : Place} {h : FlowHeader}
    {ns : List (FlowNode (Stage σ))}
    (here : (FlowNode.flow header nodes).node? q = some (.flow h ns))
    (cancels : h.strategy = .cancelOnError)
    (ih : ∀ k q', FlowNode.cancelClosedIn nodes →
      FlowNode.nodeIn? nodes k q' = some (.flow h ns) →
      Halts (runAll (.ofStrategy header.strategy) info path place 0 m [] nodes).moments
        (place ++ k :: q')) :
    Halts (runFlow info path place m header nodes).moments (place ++ q) := by
  unfold runFlow
  cases header.skipReason with
  | some reason => exact .of_backward fun x hx => (skippedRun_skips hx).backward
  | none =>
    have nodesHalt : Halts
        (runAll (.ofStrategy header.strategy) info path place 0 m [] nodes).moments
        (place ++ q) := by
      cases q with
      | nil =>
        simp only [FlowNode.node?, Option.some.injEq, FlowNode.flow.injEq] at here
        obtain ⟨rfl, rfl⟩ := here
        simp only [FlowNode.cancelClosed, cancels] at closed
        rw [cancels, List.append_nil]
        exact runAll_halts_here closed
      | cons k q' =>
        refine ih k q' ?_ (by simpa [FlowNode.node?] using here)
        cases hst : header.strategy with
        | cancelOnError =>
          exact FlowNode.cancelClosedIn_of_allCancelIn
            (by simpa [FlowNode.cancelClosed, hst] using closed)
        | ignoreOnError => simpa [FlowNode.cancelClosed, hst] using closed
    refine nodesHalt.of_forward fun x hx forward j hj => ?_
    rcases mem_flow_moments hx with rfl | hx | rfl
    · have := hj.length_le
      simp only [List.length_append, List.length_cons, List.length_nil] at this
      omega
    · exact hx
    · simp [Event.isForward, Event.isStart, Event.isExecution, Event.isSuccess,
        Event.isError] at forward

mutual

theorem run_halts {info : FlowInfo} {path : String} {place : Place} {m : Machine σ}
    {node : FlowNode (Stage σ)} (closed : node.cancelClosed) {q : Place} {h : FlowHeader}
    {ns : List (FlowNode (Stage σ))} (here : node.node? q = some (.flow h ns))
    (cancels : h.strategy = .cancelOnError) :
    Halts (run info path place m node).moments (place ++ q) := by
  cases node with
  | stage s => cases q <;> simp [FlowNode.node?] at here
  | flow header nodes =>
    rw [run_flow]
    refine runFlow_halts closed here cancels fun k q' closed here => ?_
    simpa using runAll_halts (i := 0) (k := k) closed here cancels
  | parallel name children =>
    cases q with
    | nil => simp [FlowNode.node?] at here
    | cons k q' =>
      rw [run]
      have here : FlowNode.nodeIn? children k q' = some (.flow h ns) := by
        simpa [FlowNode.node?] using here
      simpa [ListRun.group] using runAll_halts (i := 0) (k := k) closed here cancels

theorem runAll_halts {onFailure : OnFailure} {info : FlowInfo} {path : String} {place : Place}
    {i : Nat} {m : Machine σ} {completed : List (Completed σ)} {nodes : List (FlowNode (Stage σ))}
    (closed : FlowNode.cancelClosedIn nodes) {k : Nat} {q : Place} {h : FlowHeader}
    {ns : List (FlowNode (Stage σ))} (here : FlowNode.nodeIn? nodes k q = some (.flow h ns))
    (cancels : h.strategy = .cancelOnError) :
    Halts (runAll onFailure info path place i m completed nodes).moments
      (place ++ (i + k) :: q) := by
  cases nodes with
  | nil => simp [FlowNode.nodeIn?] at here
  | cons node rest =>
    rw [FlowNode.cancelClosedIn, Bool.and_eq_true] at closed
    have below := (run_below info path (place ++ [i]) m node).1
    have child : ∀ j, place ++ [i + k] <+: place ++ (i + k) :: q ++ [j] :=
      fun j => ⟨q ++ [j], by simp⟩
    -- What drives the run forward below the flow is told of the child around it and of no other.
    rcases stops_or_goes onFailure (run info path (place ++ [i]) m node) with ⟨rfl, hf⟩ | goes
    · rw [runAll_stop hf]
      cases k with
      | zero =>
        have first : Halts (run info path (place ++ [i]) m node).moments (place ++ [i] ++ q) :=
          run_halts closed.1 (by simpa [FlowNode.nodeIn?] using here) cancels
        rw [List.append_assoc] at first
        exact first.of_forward fun x hx he _ _ => mem_of_stop hx he
      | succ k =>
        refine Halts.of_forward (show Halts [] _ from .of_backward (by simp)) fun x hx he j hj => ?_
        have := Place.child_unique ((child j).trans hj) (below x (mem_of_stop hx he))
        omega
    · rw [runAll_go goes]
      cases k with
      | zero =>
        have first : Halts (run info path (place ++ [i]) m node).moments (place ++ [i] ++ q) :=
          run_halts closed.1 (by simpa [FlowNode.nodeIn?] using here) cancels
        rw [List.append_assoc] at first
        refine first.of_forward fun x hx he j hj => ?_
        simp only [ListRun.cons, List.mem_append] at hx
        refine hx.resolve_right fun hx => ?_
        obtain ⟨k, hk, hxk⟩ := runAll_child hx (.inl he)
        have := Place.child_unique ((child j).trans hj) hxk
        omega
      | succ k =>
        have second : Halts (runAll onFailure info path place (i + 1)
            (run info path (place ++ [i]) m node).machine
            (onFailure.kept (run info path (place ++ [i]) m node) ++ completed) rest).moments
            (place ++ (i + 1 + k) :: q) :=
          runAll_halts closed.2 (by simpa [FlowNode.nodeIn?] using here) cancels
        rw [show i + 1 + k = i + (k + 1) by omega] at second
        refine second.of_forward fun x hx he j hj => ?_
        simp only [ListRun.cons, List.mem_append] at hx
        refine hx.resolve_left fun hx => ?_
        have := Place.child_unique ((child j).trans hj) (below x hx)
        omega

end

end Placed

namespace Flow

/-! ## The run of a flow -/

/-- The run of a flow is a walk from an empty stack that leaves nothing below a cancelled flow. -/
theorem moments_leaves (f : Flow (Stage σ)) (world : σ) (closed : f.cancelClosed) :
    ∃ left, Placed.Leaves f.leaf? { world, results := .empty } [] (f.moments world)
      (f.run world).machine left := by
  obtain ⟨left, leaves, -⟩ := Placed.runFlow_leaves (FlowInfo.root f.header) f.id []
    { world, results := .empty } f.header f.nodes closed
    (fun runs k q => by simpa using located runs k q) [] fun runs closed => by
      obtain ⟨left, leaves, -⟩ := Placed.runAll_leaves (show Placed.OnFailure.leave ≠ .stop by simp)
        (FlowInfo.root f.header) f.id [] 0 { world, results := .empty } [] f.nodes closed
        (located runs) []
      exact ⟨left, leaves, fun q _ => List.nil_prefix⟩
  refine ⟨left, ?_⟩
  rw [run, ← placed_forget]
  exact leaves

/-- No stage is executed twice in a run of a flow. -/
theorem executions_nodup (f : Flow (Stage σ)) (world : σ) :
    (executions (f.moments world)).Nodup := by
  rw [moments, placed, Placed.executions_runFlow]
  split
  · exact List.nodup_nil
  · exact Placed.executions_runAll_nodup _ _ _ [] 0 _ [] f.nodes

/-- A flow that cancels starts nothing after a node that has failed. -/
theorem moments_halts (f : Flow (Stage σ)) (world : σ) (closed : f.cancelClosed) {p : Place}
    {header : FlowHeader} {nodes : List (FlowNode (Stage σ))}
    (here : f.node? p = some (.flow header nodes)) (cancels : header.strategy = .cancelOnError) :
    Halts (f.moments world) p := by
  show Halts (f.moments world) ([] ++ p)
  refine Placed.runFlow_halts closed here cancels fun k q closed here => ?_
  simpa only [Nat.zero_add] using Placed.runAll_halts (i := 0) (k := k) closed here cancels

/-- In a run of a flow in which no flow that goes on after errors lies below one that cancels, the
calls of stages are a walk of a stack, and work is undone exactly and last first. -/
theorem run_compensates (f : Flow (Stage σ)) (world : σ) (closed : f.cancelClosed) :
    (f.run world).events = f.announce ++ (f.moments world).map (·.event) ∧
      (∃ left, Walk f.leaf? ⟨{ world, results := .empty }, []⟩ (f.moments world)
        ⟨(f.run world).machine, left⟩) ∧
      Compensates f (f.moments world) := by
  obtain ⟨left, leaves⟩ := f.moments_leaves world closed
  have walk := leaves.walk
  rw [List.append_nil] at walk
  have executed_once (p : Place) :
      successesAt (f.moments world) p + errorsAt (f.moments world) p ≤ 1 := by
    rw [← count_executions]
    exact List.nodup_iff_count_le_one.mp (f.executions_nodup world) p
  have before {earlier later : List (Moment σ)} {x : Moment σ}
      (cut : f.moments world = earlier ++ x :: later) (undoes : x.event.isRollback) :
      ∃ t, Walk f.leaf? ⟨{ world, results := .empty }, []⟩ earlier t ∧
        t.pending.head? = some x.place ∧ cancellableAt f.leaf? x.place := by
    obtain ⟨t, first, second⟩ := (cut ▸ walk).split
    exact ⟨t, first, second.top undoes⟩
  refine ⟨f.run_events world, ⟨left, walk⟩, ?_⟩
  constructor
  case lifo =>
    intro earlier x later cut undoes
    obtain ⟨t, first, top, -⟩ := before cut undoes
    rw [pendingAfter, first.pending, top]
  case executed =>
    intro earlier x later cut undoes
    obtain ⟨t, first, top, can⟩ := before cut undoes
    have balance := first.balance can
    have mem : x.place ∈ t.pending := List.mem_of_mem_head? top
    have on_top : 0 < t.pending.count x.place := List.count_pos_iff.mpr mem
    have succeeded : 0 < successesAt earlier x.place := by
      simp only [List.count_nil] at balance
      omega
    have within : successesAt earlier x.place ≤ successesAt (f.moments world) x.place := by
      rw [cut, successesAt, successesAt, List.countP_append]
      omega
    have := executed_once x.place
    exact ⟨succeeded, by omega⟩
  case once =>
    intro p
    by_cases can : cancellableAt f.leaf? p
    · have balance := walk.balance can
      have := executed_once p
      simp only [List.count_nil] at balance
      omega
    · have none_undone : rollbacksAt (f.moments world) p = 0 := by
        refine List.countP_eq_zero.mpr fun x hx undoes => can ?_
        simp only [Bool.and_eq_true, beq_iff_eq] at undoes
        obtain ⟨earlier, later, cut⟩ := List.append_of_mem hx
        obtain ⟨t, -, -, can⟩ := before cut undoes.1
        exact undoes.2 ▸ can
      omega
  case complete =>
    intro x hx cancelled q below can succeeded
    have gone : left.count q = 0 := by
      rw [List.count_eq_zero]
      intro hq
      exact leaves.clear x hx cancelled q hq below
    have balance := walk.balance can
    have := executed_once q
    simp only [List.count_nil] at balance
    omega
  case halts =>
    intro p header nodes here cancels
    exact f.moments_halts world closed here cancels

/-- A stage that writes down its calls, the last one first. -/
def writing (name : String) (works undoes : Bool) : Stage (List String) :=
  let step (what : String) (ok : Bool) (calls : List String) : StageStep (List String) :=
    { world := what :: calls, stored := none
      outcome := if ok then .ok () else .error (.internal what) }
  { name, execute := fun _ => step name works, cancel := some fun _ => step ("undo " ++ name) undoes }

/-- A flow with two nested flows side by side, of which the second one fails, and with a stage that
cannot be undone. -/
def unwinding : Flow (Stage (List String)) :=
  { header := { id := "f" }
    nodes :=
      [.stage (writing "a" true true),
        .parallel "g"
          [.flow { id := "x" } [.stage (writing "b" true false)],
            .flow { id := "y" } [.stage (writing "c" true true), .stage (writing "d" false true)]],
        .stage (writing "e" true true)] }

/-- A failure at the end of the second of two nested flows undoes everything, last first. -/
theorem run_compensates_unwinding :
    (unwinding.run []).machine.world
        = ["undo a", "undo b", "undo c", "d", "c", "b", "a"] ∧
      (unwinding.run []).report.status = .cancellationFailed ∧
      unwinding.cancelClosed = true ∧
      (unwinding.run []).events
        = unwinding.announce ++ (unwinding.moments []).map (·.event) ∧
      (∃ left, Walk unwinding.leaf? ⟨{ world := [], results := .empty }, []⟩ (unwinding.moments [])
        ⟨(unwinding.run []).machine, left⟩) ∧
      Compensates unwinding (unwinding.moments []) :=
  ⟨rfl, rfl, rfl, unwinding.run_compensates [] rfl⟩

end Flow

end Provisioning
