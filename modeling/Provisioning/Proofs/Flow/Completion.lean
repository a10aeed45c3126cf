import Provisioning.Proofs.Flow.Episodes

/-!
# Calls of runs that do not fail

A run that does not fail calls each of its stages once, in order, and finds the machine that the
stages before it have left (`Flow.run_trail`).
-/

namespace Provisioning

variable {α σ : Type}

/-- Leaves that are called one after another, each with the machine that it finds. -/
def trail (g : α → Stage σ) : List (Leaf α) → Machine σ → List (Leaf α × Machine σ)
  | [], _ => []
  | l :: rest, m => (l, m) :: trail g rest ((l.map g).executed m)

theorem trail_fst (g : α → Stage σ) (ls : List (Leaf α)) (m : Machine σ) :
    (trail g ls m).map (·.1) = ls := by
  induction ls generalizing m with
  | nil => rfl
  | cons l rest ih => rw [trail, List.map_cons, ih]

theorem Completes.trail_append {g : α → Stage σ} {ls : List (Leaf α)} {m m' : Machine σ}
    (completes : Completes (ls.map (·.map g)) m m') (ls' : List (Leaf α)) :
    trail g (ls ++ ls') m = trail g ls m ++ trail g ls' m' := by
  induction ls generalizing m with
  | nil =>
    cases completes
    rfl
  | cons l rest ih =>
    obtain _ | ⟨ok, later⟩ := completes
    rw [List.cons_append, trail, trail, ih later, List.cons_append]

namespace Placed

theorem flowStatus_isFailure {r : ListRun σ} (good : r.flowStatus.isFailure = false) :
    r.stopped = none ∧ r.failed = false := by
  unfold ListRun.flowStatus at good
  cases hs : r.stopped with
  | some undone => simp [hs, Rollback.status_isFailure] at good
  | none =>
    cases hf : r.failed with
    | true => simp [hs, hf, ExecutionStatus.isFailure] at good
    | false => exact ⟨rfl, rfl⟩

theorem run_completes {info : FlowInfo} {path : String} {place : Place} {m : Machine σ}
    {node : FlowNode (Stage σ)} (good : (run info path place m node).status.isFailure = false) :
    Completes (node.leaves info path) m (run info path place m node).machine := by
  have forget := run_forget info path place m node
  have completes : Completes (node.leaves info path) m (node.run info path m).machine := by
    refine FlowNode.run_completes ?_
    rw [← forget]
    exact good
  rw [← forget] at completes
  exact completes

section

variable [Named α] {g : α → Stage σ} {leaf : Place → Option (Leaf α)}

omit [Named α] in
theorem calls_backward {ms : List (Moment σ)} (backward : ∀ x ∈ ms, x.event.isForward = false) :
    calls leaf ms = [] := by
  rw [calls, List.filterMap_eq_nil_iff]
  intro x hx
  refine if_neg fun executes => ?_
  have forward := Event.isForward_of_isExecution executes
  simp [backward x hx] at forward

omit [Named α] in
theorem calls_flow (place : Place) (info : FlowInfo) (m : Machine σ) (r : ListRun σ) :
    calls leaf (r.flow place info m).moments = calls leaf r.moments := by
  simp [ListRun.flow, calls, Event.isExecution, Event.isSuccess, Event.isError]

/-- A flow calls what its nodes call. -/
theorem runFlow_trail {info : FlowInfo} {path : String} {place : Place} {m : Machine σ}
    {header : FlowHeader} {nodes : List (FlowNode α)}
    (good : (runFlow info path place m header (FlowNode.mapAll g nodes)).status.isFailure = false)
    (below : header.skipReason = none →
      (runAll (.ofStrategy header.strategy) info path place 0 m []
        (FlowNode.mapAll g nodes)).stopped = none →
      (runAll (.ofStrategy header.strategy) info path place 0 m []
        (FlowNode.mapAll g nodes)).failed = false →
      calls leaf (runAll (.ofStrategy header.strategy) info path place 0 m []
        (FlowNode.mapAll g nodes)).moments = trail g (FlowNode.leavesIn info path nodes) m) :
    calls leaf (runFlow info path place m header (FlowNode.mapAll g nodes)).moments
      = trail g (if header.skipReason.isSome then [] else FlowNode.leavesIn info path nodes) m := by
  unfold runFlow at good ⊢
  cases hs : header.skipReason with
  | some reason =>
    rw [calls_backward fun x hx => (skippedRun_skips hx).backward]
    rfl
  | none =>
    simp only [hs] at good
    obtain ⟨going, unfailed⟩ := flowStatus_isFailure good
    rw [calls_flow, below hs going unfailed]
    rfl

mutual

theorem run_trail (names : ∀ s, Named.name (g s) = Named.name s) {info : FlowInfo} {path : String}
    {place : Place} {m : Machine σ} {node : FlowNode α}
    (located : ∀ q, leaf (place ++ q) = node.leaf? info path q)
    (good : (run info path place m (node.map g)).status.isFailure = false) :
    calls leaf (run info path place m (node.map g)).moments
      = trail g (node.leaves info path) m := by
  cases node with
  | stage s =>
    have here : leaf place = some (info.leaf path s) := by simpa [FlowNode.leaf?] using located []
    rw [FlowNode.map, run] at good ⊢
    cases ho : ((g s).execute (m.context (info.stage path (g s).name) info.scope) m.world).outcome with
    | ok u =>
      simp [stageRun, Stage.run, ho, calls, Event.isExecution, Event.isSuccess, Event.isError,
        here, FlowNode.leaves, trail]
    | error e => simp [stageRun, Stage.run, ho, ExecutionStatus.isFailure] at good
  | flow header nodes =>
    rw [FlowNode.map, run_flow] at good ⊢
    rw [FlowNode.leaves]
    refine runFlow_trail good fun runs going unfailed => ?_
    refine runAll_trail names (fun k q => ?_) going unfailed
    simpa [FlowNode.leaf?, runs] using located (k :: q)
  | parallel name children =>
    have below : ∀ k q, leaf (place ++ (0 + k) :: q)
        = FlowNode.leafIn? info (FlowNode.childPath path name) children k q := by
      intro k q
      simpa [FlowNode.leaf?] using located (k :: q)
    rw [FlowNode.map, run] at good ⊢
    simp only [ListRun.group, foldl_groupStatus_isFailure, Bool.or_eq_false_iff] at good
    have going := runAll_stopped (show OnFailure.keep ≠ .stop by simp) info
      (FlowNode.childPath path name) place 0 m [] (FlowNode.mapAll g children)
    exact runAll_trail names below going good.2

theorem runAll_trail (names : ∀ s, Named.name (g s) = Named.name s) {onFailure : OnFailure}
    {info : FlowInfo} {path : String} {place : Place} {i : Nat} {m : Machine σ}
    {completed : List (Completed σ)} {nodes : List (FlowNode α)}
    (located : ∀ k q, leaf (place ++ (i + k) :: q) = FlowNode.leafIn? info path nodes k q)
    (going : (runAll onFailure info path place i m completed
      (FlowNode.mapAll g nodes)).stopped = none)
    (unfailed : (runAll onFailure info path place i m completed
      (FlowNode.mapAll g nodes)).failed = false) :
    calls leaf (runAll onFailure info path place i m completed (FlowNode.mapAll g nodes)).moments
      = trail g (FlowNode.leavesIn info path nodes) m := by
  cases nodes with
  | nil => rfl
  | cons node rest =>
    have here := FlowNode.located_head located
    have others := FlowNode.located_tail located
    rw [FlowNode.mapAll] at going unfailed ⊢
    rcases stops_or_goes onFailure (run info path (place ++ [i]) m (node.map g)) with
      ⟨rfl, hf⟩ | goes
    · rw [runAll_stop hf] at going
      simp [ListRun.stop] at going
    · rw [runAll_go goes] at going unfailed ⊢
      simp only [ListRun.cons, ListRun.failed, List.any_cons, Bool.or_eq_false_iff]
        at going unfailed ⊢
      have first := run_trail names here unfailed.1
      have later := runAll_trail names others going unfailed.2
      have completes := run_completes unfailed.1
      rw [FlowNode.leaves_map names] at completes
      rw [calls_append, first, later, FlowNode.leavesIn, completes.trail_append]

end

/-! ## Calls of runs that may fail -/

omit [Named α] in
/-- A node that stops a list is the last one that calls anything. -/
theorem calls_stop (info : FlowInfo) (path : String) (place : Place) (i : Nat) (first : NodeRun σ)
    (completed : List (Completed σ)) (rest : List (FlowNode (Stage σ))) :
    calls leaf (ListRun.stop info path place i first completed rest).moments
      = calls leaf first.moments := by
  obtain ⟨later, split, backward⟩ := stop_moments info path place i first completed rest
  rw [split, calls_append, calls_backward backward, List.append_nil]

/-- What a list of nodes calls is called by one of them. -/
theorem runAll_calls {onFailure : OnFailure} {info : FlowInfo} {path : String} {place : Place}
    {i : Nat} {m : Machine σ} {completed : List (Completed σ)} {nodes : List (FlowNode α)}
    (located : ∀ k q, leaf (place ++ (i + k) :: q) = FlowNode.leafIn? info path nodes k q)
    {x : Leaf α × Machine σ}
    (hx : x ∈ calls leaf (runAll onFailure info path place i m completed
      (FlowNode.mapAll g nodes)).moments) :
    ∃ node ∈ nodes, ∃ p m', (∀ q, leaf (p ++ q) = node.leaf? info path q) ∧
      x ∈ calls leaf (run info path p m' (node.map g)).moments ∧
      calls leaf (run info path p m' (node.map g)).moments ⊆
        calls leaf (runAll onFailure info path place i m completed
          (FlowNode.mapAll g nodes)).moments := by
  induction nodes generalizing i m completed with
  | nil => exact absurd hx List.not_mem_nil
  | cons node rest ih =>
    have here := FlowNode.located_head located
    rw [FlowNode.mapAll] at hx ⊢
    rcases stops_or_goes onFailure (run info path (place ++ [i]) m (node.map g)) with
      ⟨rfl, hf⟩ | goes
    · rw [runAll_stop hf, calls_stop] at hx ⊢
      exact ⟨node, List.mem_cons_self, _, m, here, hx, List.Subset.refl _⟩
    · rw [runAll_go goes, ListRun.cons, calls_append] at hx ⊢
      rcases List.mem_append.mp hx with hx | hx
      · exact ⟨node, List.mem_cons_self, _, m, here, hx, List.subset_append_left _ _⟩
      · obtain ⟨node', hn, p, m', there, hx, sub⟩ := ih (FlowNode.located_tail located) hx
        exact ⟨node', List.mem_cons_of_mem _ hn, p, m', there, hx,
          List.subset_append_of_subset_right _ sub⟩

/-- What a list that stops at a failure calls is in the nodes before the last one, unless all of them
have done their work. -/
theorem runAll_last (names : ∀ s, Named.name (g s) = Named.name s) {info : FlowInfo}
    {path : String} {place : Place} {i : Nat} {m : Machine σ} {completed : List (Completed σ)}
    {before : List (FlowNode α)} {last : FlowNode α}
    (located : ∀ k q, leaf (place ++ (i + k) :: q)
      = FlowNode.leafIn? info path (before ++ [last]) k q) {x : Leaf α × Machine σ}
    (hx : x ∈ calls leaf (runAll .stop info path place i m completed
      (FlowNode.mapAll g (before ++ [last]))).moments) :
    x.1 ∈ FlowNode.leavesIn info path before ∨
      (∃ m', Completes ((FlowNode.leavesIn info path before).map (·.map g)) m m') ∧
        trail g (FlowNode.leavesIn info path before) m ⊆
          calls leaf (runAll .stop info path place i m completed
            (FlowNode.mapAll g (before ++ [last]))).moments := by
  induction before generalizing i m completed with
  | nil => exact .inr ⟨⟨m, .nil m⟩, List.nil_subset _⟩
  | cons node rest ih =>
    have here := FlowNode.located_head located
    rw [List.cons_append, FlowNode.mapAll] at hx ⊢
    rw [FlowNode.leavesIn, List.mem_append]
    rcases stops_or_goes .stop (run info path (place ++ [i]) m (node.map g)) with ⟨-, hf⟩ | goes
    · rw [runAll_stop hf, calls_stop] at hx
      exact .inl (.inl (run_called here hx))
    · rw [runAll_go goes, ListRun.cons, calls_append] at hx ⊢
      have good := goes rfl
      have completes := run_completes good
      rw [FlowNode.leaves_map names] at completes
      rcases List.mem_append.mp hx with hx | hx
      · exact .inl (.inl (run_called here hx))
      · refine (ih (FlowNode.located_tail located) hx).imp .inr fun ⟨⟨m', later⟩, called⟩ => ?_
        rw [List.map_append, completes.trail_append, ← run_trail names here good]
        exact ⟨⟨m', completes.append later⟩, List.append_subset_of_subset_of_subset
          (List.subset_append_left _ _) (List.subset_append_of_subset_right _ called)⟩

/-- What a flow that cancels on errors calls is in the nodes before the last one, unless all of them
have done their work. -/
theorem run_last (names : ∀ s, Named.name (g s) = Named.name s) {info : FlowInfo} {path : String}
    {place : Place} {m : Machine σ} {header : FlowHeader} {before : List (FlowNode α)}
    {last : FlowNode α} (cancels : header.strategy = .cancelOnError)
    (located : ∀ q, leaf (place ++ q)
      = (FlowNode.flow header (before ++ [last])).leaf? info path q) {ls : List (Leaf α)}
    (leaves : FlowNode.leavesIn (info.child header) (FlowNode.childPath path header.id) before = ls)
    {x : Leaf α × Machine σ}
    (hx : x ∈ calls leaf
      (run info path place m ((FlowNode.flow header (before ++ [last])).map g)).moments) :
    x.1 ∈ ls ∨ (∃ m', Completes (ls.map (·.map g)) m m') ∧ trail g ls m ⊆ calls leaf
      (run info path place m ((FlowNode.flow header (before ++ [last])).map g)).moments := by
  rw [FlowNode.map, run_flow, runFlow] at hx ⊢
  cases hs : header.skipReason with
  | some reason =>
    simp only [hs] at hx
    rw [calls_backward fun x hx => (skippedRun_skips hx).backward] at hx
    exact absurd hx List.not_mem_nil
  | none =>
    simp only [hs, cancels, OnFailure.ofStrategy, calls_flow] at hx ⊢
    rw [← leaves]
    refine runAll_last names (fun k q => ?_) hx
    simpa [FlowNode.leaf?, hs] using located (k :: q)

end

end Placed

namespace Flow

/-- A run of a flow that does not fail calls all its stages one after another. -/
theorem run_trail [Named α] {g : α → Stage σ} (names : ∀ s, Named.name (g s) = Named.name s)
    {f : Flow α} {world : σ} (good : ((f.map g).run world).report.status.isFailure = false) :
    calls f.leaf? ((f.map g).moments world) = trail g f.leaves { world, results := .empty } := by
  rw [run, ← placed_forget] at good
  rw [moments, leaves]
  refine Placed.runFlow_trail good fun runs going unfailed => ?_
  refine Placed.runAll_trail names (fun k q => ?_) going unfailed
  show f.leaf? ([] ++ (0 + k) :: q) = FlowNode.leafIn? (FlowInfo.root f.header) f.id f.nodes k q
  simp [leaf?, show f.header.skipReason = none from runs]

/-- What a flow of groups calls is called by a node of a group. -/
theorem calls_groups [Named α] {g : α → Stage σ} {f : Flow α} {world : σ}
    (groups : ∀ node ∈ f.nodes, ∃ name children, node = .parallel name children)
    {x : Leaf α × Machine σ} (hx : x ∈ calls f.leaf? ((f.map g).moments world)) :
    ∃ name children, .parallel name children ∈ f.nodes ∧ ∃ node ∈ children, ∃ p m,
      (∀ q, f.leaf? (p ++ q)
        = node.leaf? (FlowInfo.root f.header) (FlowNode.childPath f.id name) q) ∧
      x ∈ calls f.leaf? (Placed.run (FlowInfo.root f.header) (FlowNode.childPath f.id name) p m
        (node.map g)).moments ∧
      calls f.leaf? (Placed.run (FlowInfo.root f.header) (FlowNode.childPath f.id name) p m
        (node.map g)).moments ⊆ calls f.leaf? ((f.map g).moments world) := by
  cases hs : f.header.skipReason with
  | some reason =>
    rw [moments, placed, Placed.runFlow] at hx
    simp only [show (f.map g).header = f.header from rfl, hs] at hx
    rw [Placed.calls_backward fun x hx => (Placed.skippedRun_skips hx).backward] at hx
    exact absurd hx List.not_mem_nil
  | none =>
    have runs : (f.map g).header.skipReason = none := hs
    rw [moments, placed_eq runs, Placed.calls_flow] at hx ⊢
    have located (k : Nat) (q : Place) : f.leaf? ([] ++ (0 + k) :: q)
        = FlowNode.leafIn? (FlowInfo.root f.header) f.id f.nodes k q := by
      simp [leaf?, hs]
    obtain ⟨group, hg, p, m, there, hx, sub⟩ := Placed.runAll_calls located hx
    obtain ⟨name, children, rfl⟩ := groups group hg
    rw [FlowNode.map, Placed.run, Placed.ListRun.group] at hx sub
    obtain ⟨node, hn, p', m', inside, hx, sub'⟩ := Placed.runAll_calls
      (fun k q => by simpa [FlowNode.leaf?] using there (k :: q)) hx
    exact ⟨name, children, hg, node, hn, p', m', inside, hx, List.Subset.trans sub' sub⟩

/-- Only a flow that cancels on errors ends as cancelled. -/
theorem cancels_of_cancelled {f : Flow (Stage σ)} {world : σ}
    (cancelled : (f.run world).report.status = .cancelled) :
    f.header.strategy = .cancelOnError := by
  rw [run, ← placed_forget] at cancelled
  cases hs : f.header.strategy with
  | cancelOnError => rfl
  | ignoreOnError =>
    have ended : (f.placed world).status = .cancelled := cancelled
    cases hr : f.header.skipReason with
    | some reason =>
      rw [placed, Placed.runFlow, hr] at ended
      exact absurd ended (by simp [Placed.skippedRun])
    | none =>
      have goes : Placed.OnFailure.ofStrategy .ignoreOnError ≠ .stop := by
        simp [Placed.OnFailure.ofStrategy]
      have going : (f.nodesRun world).stopped = none := by
        rw [nodesRun, hs]
        exact Placed.runAll_stopped goes _ _ _ _ _ _ _
      rw [placed_eq hr] at ended
      simp only [Placed.ListRun.flow, Placed.ListRun.flowStatus, going] at ended
      split at ended <;> cases ended

end Flow

end Provisioning
