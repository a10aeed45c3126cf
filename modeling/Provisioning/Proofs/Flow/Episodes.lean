import Provisioning.Proofs.Flow.Unwinding

/-!
# Flows that are run one after another

A flow that cancels on errors does all its work, or what it has done is undone. When no failure stops
a flow that has such flows in it, its run is a sequence of episodes, one for each of them
(`Flow.run_settles`).
-/

namespace Provisioning

variable {α σ : Type}

/-! ## The parts of a flow -/

namespace FlowNode

section

variable [Named α]

mutual

/-- The stages of a node, by its outermost flows. A stage that is in none of them is a part of its
own. -/
def parts (info : FlowInfo) (path : String) : FlowNode α → List (List (Leaf α))
  | stage s => [[info.leaf path s]]
  | flow header nodes => [(flow header nodes).leaves info path]
  | parallel name children => partsIn info (childPath path name) children

/-- The stages of nodes, by their outermost flows. -/
def partsIn (info : FlowInfo) (path : String) : List (FlowNode α) → List (List (Leaf α))
  | [] => []
  | node :: rest => parts info path node ++ partsIn info path rest

end

theorem partsIn_append (info : FlowInfo) (path : String) (ns ms : List (FlowNode α)) :
    partsIn info path (ns ++ ms) = partsIn info path ns ++ partsIn info path ms := by
  induction ns with
  | nil => rfl
  | cons node rest ih => simp [partsIn, ih]

mutual

/-- The parts hold all stages. -/
theorem parts_flatten (info : FlowInfo) (path : String) (node : FlowNode α) :
    (node.parts info path).flatten = node.leaves info path := by
  cases node with
  | stage s => rfl
  | flow header nodes => rw [parts, List.flatten_singleton]
  | parallel name children => exact partsIn_flatten info _ children

theorem partsIn_flatten (info : FlowInfo) (path : String) (nodes : List (FlowNode α)) :
    (partsIn info path nodes).flatten = leavesIn info path nodes := by
  cases nodes with
  | nil => rfl
  | cons node rest =>
    rw [partsIn, List.flatten_append, parts_flatten info path node, partsIn_flatten info path rest,
      leavesIn]

end

end

end FlowNode

/-- The stages of a flow, by the outermost flows in it. -/
def Flow.parts [Named α] (f : Flow α) : List (List (Leaf α)) :=
  FlowNode.partsIn (FlowInfo.root f.header) f.id f.nodes

theorem Flow.parts_flatten [Named α] {f : Flow α} (runs : f.header.skipReason = none) :
    f.parts.flatten = f.leaves := by
  rw [parts, FlowNode.partsIn_flatten, leaves, runs]
  rfl

/-! ## Episodes -/

/-- Parts are run one after another. All stages of a part do their work with success, or what those
that are called have done is undone. -/
inductive Episodes (g : α → Stage σ) : List (List (Leaf α)) → Machine σ →
    List (Leaf α × Machine σ) → Machine σ → Prop where
  /-- There is no part. -/
  | nil (m : Machine σ) : Episodes g [] m [] m
  /-- A part is done. -/
  | done {part : List (Leaf α)} {parts : List (List (Leaf α))} {m m₁ m' : Machine σ}
      {cs ds : List (Leaf α × Machine σ)} (called : ∀ x ∈ cs, x.1 ∈ part)
      (completes : Completes (part.map (·.map g)) m m₁) (later : Episodes g parts m₁ ds m') :
      Episodes g (part :: parts) m (cs ++ ds) m'
  /-- A part is undone. -/
  | undone {part : List (Leaf α)} {parts : List (List (Leaf α))} {m m₁ m' : Machine σ}
      {cs ds : List (Leaf α × Machine σ)} (called : ∀ x ∈ cs, x.1 ∈ part)
      (undone : Undone m (cs.map fun x => (x.1.map g, x.2)) m₁)
      (later : Episodes g parts m₁ ds m') : Episodes g (part :: parts) m (cs ++ ds) m'

namespace Episodes

variable {g : α → Stage σ} {part : List (Leaf α)} {parts parts' : List (List (Leaf α))}
  {m m₁ m' : Machine σ} {cs ds : List (Leaf α × Machine σ)}

theorem append (first : Episodes g parts m cs m₁) (second : Episodes g parts' m₁ ds m') :
    Episodes g (parts ++ parts') m (cs ++ ds) m' := by
  induction first with
  | nil => exact second
  | done called completes _ ih =>
    rw [List.append_assoc]
    exact .done called completes (ih second)
  | undone called undone _ ih =>
    rw [List.append_assoc]
    exact .undone called undone (ih second)

theorem single (called : ∀ x ∈ cs, x.1 ∈ part)
    (h : Completes (part.map (·.map g)) m m' ∨ Undone m (cs.map fun x => (x.1.map g, x.2)) m') :
    Episodes g [part] m cs m' := by
  rw [← List.append_nil cs]
  rcases h with completes | undone
  · exact .done called completes (.nil m')
  · exact .undone called undone (.nil m')

end Episodes

theorem calls_append (leaf : Place → Option α) (ms ns : List (Moment σ)) :
    calls leaf (ms ++ ns) = calls leaf ms ++ calls leaf ns := List.filterMap_append

namespace Placed

section

variable (leaf : Place → Option (Leaf (Stage σ)))

/-- A stage succeeds, or there is nothing to undo. -/
theorem stageRun_settles {info : FlowInfo} {path : String} {place : Place} {s : Stage σ}
    (here : leaf place = some (info.leaf path s)) (m : Machine σ) :
    Completes [info.leaf path s] m (stageRun info path place m s).machine ∨
      Undone m (calls leaf (stageRun info path place m s).moments)
        (stageRun info path place m s).machine := by
  cases ho : (s.execute (m.context (info.stage path s.name) info.scope) m.world).outcome with
  | ok u =>
    left
    have good : (s.run info path m).status.isFailure = false := by
      simp [Stage.run, ho, ExecutionStatus.isFailure]
    exact FlowNode.stage_completes good
  | error e =>
    right
    have called : calls leaf (stageRun info path place m s).moments
        = [(info.leaf path s, m)] := by
      simp [stageRun, Stage.run, ho, calls, Event.isExecution, Event.isSuccess, Event.isError, here]
    rw [called]
    simp only [stageRun, Stage.run, ho]
    exact .failed ho (.nil _)

/-- A flow that cancels on errors does all its work, or what it has done is undone. -/
theorem flow_settles {info : FlowInfo} {path : String} {place : Place} {header : FlowHeader}
    {nodes : List (FlowNode (Stage σ))} (cancels : (FlowNode.flow header nodes).allCancel)
    (located : ∀ q, leaf (place ++ q) = (FlowNode.flow header nodes).leaf? info path q)
    (cancellable : ∀ p l, leaf p = some l → l.stage.isCancellable) {m : Machine σ}
    (complete : ∀ x ∈ (run info path place m (.flow header nodes)).moments,
      x.event.isFailedRollback = false) :
    Completes ((FlowNode.flow header nodes).leaves info path) m
        (run info path place m (.flow header nodes)).machine ∨
      Undone m (calls leaf (run info path place m (.flow header nodes)).moments)
        (run info path place m (.flow header nodes)).machine := by
  have forget := run_forget info path place m (.flow header nodes)
  cases hf : (run info path place m (.flow header nodes)).status.isFailure with
  | false =>
    left
    have good : ((FlowNode.flow header nodes).run info path m).status.isFailure = false := by
      rw [← forget]
      exact hf
    have completes := FlowNode.run_completes good
    rw [← forget] at completes
    exact completes
  | true =>
    right
    have walk := (run_walk info path place m (.flow header nodes) cancels located []).2
    have nothing : (run info path place m (.flow header nodes)).completed = none := by
      rw [run_flow] at hf ⊢
      refine runFlow_completed fun finished => ?_
      simp [finished, ExecutionStatus.isFailure] at hf
    rw [nothing] at walk
    cases walk.unwinds rfl cancellable complete with
    | done undone => exact undone

end

section

variable [Named α] {g : α → Stage σ} {leaf : Place → Option (Leaf α)}

/-- What is called in the run of a node is one of its stages. -/
theorem run_called {info : FlowInfo} {path : String} {place : Place} {m : Machine σ}
    {node : FlowNode α} (located : ∀ q, leaf (place ++ q) = node.leaf? info path q)
    {x : Leaf α × Machine σ} (hx : x ∈ calls leaf (run info path place m (node.map g)).moments) :
    x.1 ∈ node.leaves info path := by
  obtain ⟨y, hy, h⟩ := List.mem_filterMap.mp hx
  obtain ⟨q, hq⟩ := (run_below info path place m (node.map g)).1 y hy
  split at h
  · obtain ⟨l, hl, rfl⟩ := Option.map_eq_some_iff.mp h
    rw [← hq, located] at hl
    exact FlowNode.leaf?_mem hl
  · simp at h

mutual

/-- A node in which every flow cancels on errors runs as a sequence of episodes. -/
theorem run_episodes (names : ∀ s, Named.name (g s) = Named.name s) {info : FlowInfo}
    {path : String} {place : Place} {node : FlowNode α} (cancels : node.allCancel)
    (located : ∀ q, leaf (place ++ q) = node.leaf? info path q)
    (cancellable : ∀ p l, leaf p = some l → (g l.stage).isCancellable) {m : Machine σ}
    (complete : ∀ x ∈ (run info path place m (node.map g)).moments,
      x.event.isFailedRollback = false) :
    Episodes g (node.parts info path) m (calls leaf (run info path place m (node.map g)).moments)
      (run info path place m (node.map g)).machine := by
  have called (ms : List (Moment σ)) : calls (fun p => (leaf p).map (Leaf.map g)) ms
      = (calls leaf ms).map fun x => (x.1.map g, x.2) := calls_map (fun _ => rfl) ms
  have mapped : ∀ q, (leaf (place ++ q)).map (Leaf.map g) = (node.map g).leaf? info path q := by
    intro q
    rw [located, FlowNode.leaf?_map names]
  have everywhere : ∀ p l, (leaf p).map (Leaf.map g) = some l → l.stage.isCancellable := by
    intro p l here
    obtain ⟨k, hk, rfl⟩ := Option.map_eq_some_iff.mp here
    exact cancellable p k hk
  cases node with
  | stage s =>
    have here : (leaf place).map (Leaf.map g) = some (info.leaf path (g s)) := by
      simpa [FlowNode.leaf?, FlowNode.map] using mapped []
    have settles := stageRun_settles (fun p => (leaf p).map (Leaf.map g)) here m
    rw [called, FlowNode.leaf_map names] at settles
    exact .single (fun x hx => run_called located hx) settles
  | flow header nodes =>
    have cancels : ((FlowNode.flow header nodes).map g).allCancel := by
      rwa [FlowNode.allCancel_map]
    have settles := flow_settles (fun p => (leaf p).map (Leaf.map g)) cancels mapped everywhere
      complete
    rw [called, ← FlowNode.map, FlowNode.leaves_map names] at settles
    exact .single (fun x hx => run_called located hx) settles
  | parallel name children =>
    have below : ∀ k q, leaf (place ++ (0 + k) :: q)
        = FlowNode.leafIn? info (FlowNode.childPath path name) children k q := by
      intro k q
      simpa [FlowNode.leaf?] using located (k :: q)
    have going := runAll_stopped (show OnFailure.keep ≠ .stop by simp) info
      (FlowNode.childPath path name) place 0 m [] (FlowNode.mapAll g children)
    rw [FlowNode.map, run] at complete ⊢
    exact runAll_episodes names cancels below cancellable going complete

/-- Nodes in which every flow cancels on errors run as a sequence of episodes, if no failure stops
them. -/
theorem runAll_episodes (names : ∀ s, Named.name (g s) = Named.name s) {onFailure : OnFailure}
    {info : FlowInfo} {path : String} {place : Place} {i : Nat} {completed : List (Completed σ)}
    {nodes : List (FlowNode α)} (cancels : FlowNode.allCancelIn nodes)
    (located : ∀ k q, leaf (place ++ (i + k) :: q) = FlowNode.leafIn? info path nodes k q)
    (cancellable : ∀ p l, leaf p = some l → (g l.stage).isCancellable) {m : Machine σ}
    (going : (runAll onFailure info path place i m completed
      (FlowNode.mapAll g nodes)).stopped = none)
    (complete : ∀ x ∈ (runAll onFailure info path place i m completed
      (FlowNode.mapAll g nodes)).moments, x.event.isFailedRollback = false) :
    Episodes g (FlowNode.partsIn info path nodes) m
      (calls leaf (runAll onFailure info path place i m completed
        (FlowNode.mapAll g nodes)).moments)
      (runAll onFailure info path place i m completed (FlowNode.mapAll g nodes)).machine := by
  cases nodes with
  | nil => exact .nil m
  | cons node rest =>
    rw [FlowNode.allCancelIn, Bool.and_eq_true] at cancels
    have here := FlowNode.located_head located
    have others := FlowNode.located_tail located
    rw [FlowNode.mapAll] at going complete ⊢
    rcases stops_or_goes onFailure (run info path (place ++ [i]) m (node.map g)) with
      ⟨rfl, hf⟩ | goes
    · rw [runAll_stop hf] at going
      simp [ListRun.stop] at going
    · rw [runAll_go goes] at going complete ⊢
      simp only [ListRun.cons, List.forall_mem_append] at going complete ⊢
      rw [calls_append]
      have first := run_episodes names cancels.1 here cancellable complete.1
      have later := runAll_episodes names cancels.2 others cancellable going complete.2
      exact first.append later

end

end

end Placed

namespace Flow

variable {f : Flow (Stage σ)} {world : σ}

/-- The run of the nodes of a flow. -/
def nodesRun (f : Flow (Stage σ)) (world : σ) : Placed.ListRun σ :=
  Placed.runAll (.ofStrategy f.header.strategy) (FlowInfo.root f.header) f.id [] 0
    { world, results := .empty } [] f.nodes

theorem placed_eq (runs : f.header.skipReason = none) :
    f.placed world = (f.nodesRun world).flow [] (FlowInfo.root f.header)
      { world, results := .empty } := by
  rw [placed, Placed.runFlow, runs]
  rfl

/-- A flow that finishes has not been stopped. -/
theorem going_of_finished (runs : f.header.skipReason = none)
    (finished : (f.placed world).status = .finished) : (f.nodesRun world).stopped = none := by
  rw [placed_eq runs] at finished
  simp only [Placed.ListRun.flow, Placed.ListRun.flowStatus] at finished
  cases hs : (f.nodesRun world).stopped with
  | none => rfl
  | some undone => cases undone <;> simp [hs, Rollback.status] at finished

section

variable [Named α] {f : Flow α} {g : α → Stage σ} (names : ∀ s, Named.name (g s) = Named.name s)
  (runs : f.header.skipReason = none) (closed : FlowNode.allCancelIn f.nodes)
  (cancellable : ∀ l ∈ f.leaves, (g l.stage).isCancellable)
  (complete : ∀ x ∈ (f.map g).moments world, x.event.isFailedRollback = false)

include names runs closed cancellable complete

/-- A flow that is not stopped runs as a sequence of episodes. -/
theorem run_episodes (going : ((f.map g).nodesRun world).stopped = none) :
    Episodes g f.parts { world, results := .empty } (calls f.leaf? ((f.map g).moments world))
      ((f.map g).run world).machine := by
  have located (k : Nat) (q : Place) :
      f.leaf? ([] ++ (0 + k) :: q) = FlowNode.leafIn? (FlowInfo.root f.header) f.id f.nodes k q := by
    simp [leaf?, runs]
  have machine : ((f.map g).run world).machine = ((f.map g).nodesRun world).machine := by
    rw [run, ← placed_forget, placed_eq runs]
    rfl
  have runs' : (f.map g).header.skipReason = none := runs
  have called : calls f.leaf? ((f.map g).moments world)
      = calls f.leaf? ((f.map g).nodesRun world).moments := by
    simp [moments, placed_eq runs', Placed.ListRun.flow, calls, Event.isExecution, Event.isSuccess,
      Event.isError]
  rw [called, machine]
  refine Placed.runAll_episodes names closed located ?_ going ?_
  · intro p l here
    exact cancellable l (leaf?_mem here)
  · intro x hx
    refine complete x ?_
    rw [moments, placed_eq runs', Placed.ListRun.flow]
    exact List.mem_append_left _ (List.mem_cons_of_mem _ hx)

/-- A run in which everything that is undone is undone with success undoes all that it has done, or
is a sequence of episodes. -/
theorem run_settles :
    f.header.strategy = .cancelOnError ∧ Undone { world, results := .empty }
        ((calls f.leaf? ((f.map g).moments world)).map fun x => (x.1.map g, x.2))
        ((f.map g).run world).machine ∨
      Episodes g f.parts { world, results := .empty } (calls f.leaf? ((f.map g).moments world))
        ((f.map g).run world).machine := by
  cases hs : f.header.strategy with
  | cancelOnError =>
    by_cases finished : ((f.map g).placed world).status = .finished
    · right
      exact run_episodes names runs closed cancellable complete (going_of_finished runs finished)
    · left
      refine ⟨rfl, ?_⟩
      rw [← calls_map fun p => leaf?_map names f p]
      refine run_unwinds hs ?_ ?_ finished complete
      · rw [Flow.map, FlowNode.allCancelIn_map]
        exact closed
      · intro l hl
        rw [leaves_map names] at hl
        obtain ⟨k, hk, rfl⟩ := List.mem_map.mp hl
        exact cancellable k hk
  | ignoreOnError =>
    right
    refine run_episodes names runs closed cancellable complete ?_
    have goes : Placed.OnFailure.ofStrategy .ignoreOnError ≠ .stop := by
      simp [Placed.OnFailure.ofStrategy]
    rw [nodesRun, show (f.map g).header.strategy = .ignoreOnError from hs]
    exact Placed.runAll_stopped goes _ _ _ _ _ _ _

end

end Flow

end Provisioning
