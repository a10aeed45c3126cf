import Provisioning.Proofs.Flow.Leaves
import Provisioning.Proofs.Flow.Outcome

/-!
# Runs that are undone

In a run that ends as cancelled, calls of stages are nested: what a stage has done is undone after
everything that was done after it has been undone. `Undone` says so of the leaves that are called
and the machines that they find.
-/

namespace Provisioning

variable {α β σ : Type}

/-- What is called, each with the machine that it finds. -/
def calls (leaf : Place → Option α) (ms : List (Moment σ)) : List (α × Machine σ) :=
  ms.filterMap fun x => if x.event.isExecution then (leaf x.place).map (·, x.machine) else none

theorem calls_map {leaf : Place → Option α} {leaf' : Place → Option β} {f : α → β}
    (h : ∀ p, leaf' p = (leaf p).map f) (ms : List (Moment σ)) :
    calls leaf' ms = (calls leaf ms).map fun x => (f x.1, x.2) := by
  rw [calls, calls, List.map_filterMap]
  congr 1
  funext x
  rw [h]
  cases leaf x.place <;> split <;> rfl

theorem mem_calls {leaf : Place → Option α} {ms : List (Moment σ)} {x : α × Machine σ}
    (hx : x ∈ calls leaf ms) : ∃ p, leaf p = some x.1 := by
  obtain ⟨y, -, hy⟩ := List.mem_filterMap.mp hx
  split at hy
  · obtain ⟨a, ha, rfl⟩ := Option.map_eq_some_iff.mp hy
    exact ⟨y.place, ha⟩
  · simp at hy

/-- Calls after all of which everything has been undone, last first. -/
inductive Undone : Machine σ → List (Leaf (Stage σ) × Machine σ) → Machine σ → Prop where
  /-- There is no call. -/
  | nil (m : Machine σ) : Undone m [] m
  /-- A leaf fails. -/
  | failed {l : Leaf (Stage σ)} {m m' : Machine σ} {cs : List (Leaf (Stage σ) × Machine σ)}
      {e : StageError} (error : (l.execute m).outcome = .error e)
      (later : Undone (l.executed m) cs m') : Undone m ((l, m) :: cs) m'
  /-- A leaf succeeds, everything after that is undone, and then what the leaf has done. -/
  | pair {l : Leaf (Stage σ)} {m m₁ m' : Machine σ} {cs ds : List (Leaf (Stage σ) × Machine σ)}
      {cancel : StageContext → σ → StageStep σ} (ok : (l.execute m).outcome = .ok ())
      (inner : Undone (l.executed m) cs m₁) (can : l.stage.cancel = some cancel)
      (undone : (cancel (m₁.context l.info l.scope) m₁.world).outcome = .ok ())
      (later : Undone (l.undone cancel m₁) ds m') : Undone m ((l, m) :: (cs ++ ds)) m'

/-- Calls after all of which everything has been undone, that which was pending before included. -/
inductive Unwinds (leaf : Place → Option (Leaf (Stage σ))) :
    Machine σ → List Place → List (Leaf (Stage σ) × Machine σ) → Machine σ → Prop where
  /-- Nothing was pending. -/
  | done {m m' : Machine σ} {cs : List (Leaf (Stage σ) × Machine σ)} (undone : Undone m cs m') :
      Unwinds leaf m [] cs m'
  /-- What was pending on top is undone next, and then the rest. -/
  | pop {m m₁ m' : Machine σ} {cs ds : List (Leaf (Stage σ) × Machine σ)} {p : Place}
      {pending : List Place} {l : Leaf (Stage σ)} {cancel : StageContext → σ → StageStep σ}
      (inner : Undone m cs m₁) (here : leaf p = some l) (can : l.stage.cancel = some cancel)
      (undone : (cancel (m₁.context l.info l.scope) m₁.world).outcome = .ok ())
      (later : Unwinds leaf (l.undone cancel m₁) pending ds m') :
      Unwinds leaf m (p :: pending) (cs ++ ds) m'

variable {leaf : Place → Option (Leaf (Stage σ))}

/-- Calls that can be put in front of calls that are undone can be put in front of all others. -/
theorem Unwinds.before {m m₁ m' : Machine σ} {cs ds : List (Leaf (Stage σ) × Machine σ)}
    {pending : List Place}
    (first : ∀ {ds : List (Leaf (Stage σ) × Machine σ)} {m' : Machine σ},
      Undone m₁ ds m' → Undone m (cs ++ ds) m')
    (later : Unwinds leaf m₁ pending ds m') : Unwinds leaf m pending (cs ++ ds) m' := by
  cases later with
  | done undone => exact .done (first undone)
  | pop inner here can undone later =>
    rw [← List.append_assoc]
    exact .pop (first inner) here can undone later

/-- A walk at whose end nothing is pending, and in which every stage that is cancelled undoes its
work, unwinds what was pending at its start. -/
theorem Walk.unwinds {s t : Progress σ} {ms : List (Moment σ)} (walk : Walk leaf s ms t)
    (empty : t.pending = []) (cancellable : ∀ p l, leaf p = some l → l.stage.isCancellable)
    (complete : ∀ x ∈ ms, x.event.isFailedRollback = false) :
    Unwinds leaf s.machine s.pending (calls leaf ms) t.machine := by
  induction walk with
  | nil s =>
    rw [empty]
    exact .done (.nil _)
  | @cons s t u x ms step _ ih =>
    have ih := ih empty fun y hy => complete y (List.mem_cons_of_mem _ hy)
    cases step with
    | @succeeded p l m pending here ok =>
      have called : calls leaf (⟨p, .stageSuccess l.info, m⟩ :: ms) = (l, m) :: calls leaf ms := by
        simp [calls, Event.isExecution, Event.isSuccess, here]
      simp only [Leaf.push, cancellable p l here, if_true] at ih
      rw [called]
      generalize calls leaf ms = later_calls at ih
      cases ih with
      | pop inner here' can undone later =>
        obtain rfl := Option.some.inj (here.symm.trans here')
        rw [← List.cons_append]
        exact later.before fun later => .pair ok inner can undone later
    | @failed p l e m pending here error =>
      have called : calls leaf (⟨p, .stageError l.info s!"FAILED: {e.detail}", m⟩ :: ms)
          = [(l, m)] ++ calls leaf ms := by
        simp [calls, Event.isExecution, Event.isError, here]
      rw [called]
      exact Unwinds.before (fun later => .failed error later) ih
    | @undone p l cancel m pending here can ok =>
      have quiet : calls leaf (⟨p, .stageRollback l.info .cancelled
          ExecutionStatus.cancelled.text, m⟩ :: ms) = [] ++ calls leaf ms := by
        simp [calls, Event.isExecution, Event.isError, Event.isSuccess]
      rw [quiet]
      exact .pop (.nil m) here can ok ih
    | notUndone m pending here can error =>
      have failed := complete _ List.mem_cons_self
      simp [Event.isFailedRollback] at failed
    | @told p e m pending quiet still =>
      have uncalled : calls leaf (⟨p, e, m⟩ :: ms) = calls leaf ms := by
        simp [calls, quiet]
      rw [uncalled]
      exact ih

/-- A flow that does not finish hands over nothing. -/
theorem Placed.runFlow_completed {info : FlowInfo} {path : String} {place : Place} {m : Machine σ}
    {header : FlowHeader} {nodes : List (FlowNode (Stage σ))}
    (unfinished : (runFlow info path place m header nodes).status ≠ .finished) :
    (runFlow info path place m header nodes).completed = none := by
  unfold runFlow at unfinished ⊢
  cases hs : header.skipReason with
  | some reason => rfl
  | none =>
    simp only [hs] at unfinished
    exact if_neg unfinished

/-- What a flow that cancels on errors has done is undone, unless it finishes, if everything that is
undone is undone with success. -/
theorem Flow.run_unwinds {f : Flow (Stage σ)} {world : σ}
    (cancels : f.header.strategy = .cancelOnError) (closed : FlowNode.allCancelIn f.nodes)
    (cancellable : ∀ l ∈ f.leaves, l.stage.isCancellable)
    (unfinished : (f.placed world).status ≠ .finished)
    (complete : ∀ x ∈ f.moments world, x.event.isFailedRollback = false) :
    Undone { world, results := .empty } (calls f.leaf? (f.moments world))
      (f.run world).machine := by
  have nothing : (f.placed world).completed = none := Placed.runFlow_completed unfinished
  have walk : Walk f.leaf? ⟨{ world, results := .empty }, []⟩ (f.moments world)
      ⟨(f.placed world).machine, Placed.cancellable
        (Placed.Completed.stagesAll (f.placed world).completed.toList) ++ []⟩ :=
    (Placed.runFlow_walk (FlowInfo.root f.header) f.id []
      { world, results := .empty } f.header f.nodes cancels [] fun runs =>
        Placed.runAll_walk .stop (by simp) _ _ [] 0 _ [] f.nodes closed
          (located runs) (fun x hx => absurd hx List.not_mem_nil) []).2
  rw [nothing, ← f.run_machine] at walk
  have everywhere : ∀ p l, f.leaf? p = some l → l.stage.isCancellable :=
    fun p l here => cancellable l (leaf?_mem here)
  cases walk.unwinds rfl everywhere complete with
  | done undone => exact undone

/-- What a flow that cancels on errors has done is undone when it ends as cancelled. -/
theorem Flow.run_undone {f : Flow (Stage σ)} {world : σ}
    (cancels : f.header.strategy = .cancelOnError) (closed : FlowNode.allCancelIn f.nodes)
    (cancellable : ∀ l ∈ f.leaves, l.stage.isCancellable)
    (cancelled : (f.run world).report.status = .cancelled) :
    Undone { world, results := .empty } (calls f.leaf? (f.moments world))
      (f.run world).machine := by
  have status : (f.placed world).status = .cancelled := by
    rw [run, ← placed_forget] at cancelled
    exact cancelled
  refine Flow.run_unwinds cancels closed cancellable ?_ ?_
  · intro finished
    exact absurd (finished.symm.trans status) (by decide)
  · intro x hx
    have tells := Placed.runFlow_tells cancels hx fun hx =>
      Placed.runAll_tells (by simp) closed hx
    by_contra failed
    have lost : (f.placed world).status = .cancellationFailed := tells.2 (by simpa using failed)
    exact absurd (lost.symm.trans status) (by decide)

end Provisioning
