import Provisioning.Proofs.Flow.Trace

/-!
# Runs as walks of a stack

While a flow runs, the stages that have done their work and can be cancelled form a stack. A stage
that succeeds is put on it, and only the stage on top of it is ever cancelled; the machine changes by
these calls and by nothing else. The run of a node in which every flow cancels on errors is such a
walk, and at its end the stack holds what the node hands over to be undone.
-/

namespace Provisioning

variable {α σ : Type}

/-! ## Steps and walks -/

namespace Leaf

/-- The stage does its work on a machine. -/
def execute (l : Leaf (Stage σ)) (m : Machine σ) : StageStep σ :=
  l.stage.execute (m.context l.info l.scope) m.world

/-- The machine after the stage has been called. -/
def executed (l : Leaf (Stage σ)) (m : Machine σ) : Machine σ := m.after l.info.id (l.execute m)

/-- A stack with the stage on top, if the stage can be cancelled. -/
def push (l : Leaf (Stage σ)) (p : Place) (pending : List Place) : List Place :=
  if l.stage.isCancellable then p :: pending else pending

end Leaf

/-- The machine in the middle of a run, and the stages that may still be cancelled, the one that
succeeded last on top. -/
structure Progress (σ : Type) where
  /-- The machine. -/
  machine : Machine σ
  /-- The places of the stages. -/
  pending : List Place

/-- The calls of stages, whose places in a tree are given, and everything else that is told. -/
inductive Step (leaf : Place → Option (Leaf (Stage σ))) :
    Progress σ → Moment σ → Progress σ → Prop where
  /-- A stage does its work. -/
  | succeeded {p : Place} {l : Leaf (Stage σ)} (m : Machine σ) (pending : List Place)
      (here : leaf p = some l) (ok : (l.execute m).outcome = .ok ()) :
      Step leaf ⟨m, pending⟩ ⟨p, .stageSuccess l.info, m⟩ ⟨l.executed m, l.push p pending⟩
  /-- A stage fails. -/
  | failed {p : Place} {l : Leaf (Stage σ)} {e : StageError} (m : Machine σ) (pending : List Place)
      (here : leaf p = some l) (error : (l.execute m).outcome = .error e) :
      Step leaf ⟨m, pending⟩ ⟨p, .stageError l.info s!"FAILED: {e.detail}", m⟩
        ⟨l.executed m, pending⟩
  /-- The stage on top undoes its work. -/
  | undone {p : Place} {l : Leaf (Stage σ)} {cancel : StageContext → σ → StageStep σ}
      (m : Machine σ) (pending : List Place) (here : leaf p = some l)
      (can : l.stage.cancel = some cancel)
      (ok : (cancel (m.context l.info l.scope) m.world).outcome = .ok ()) :
      Step leaf ⟨m, p :: pending⟩
        ⟨p, .stageRollback l.info .cancelled ExecutionStatus.cancelled.text, m⟩
        ⟨m.after l.info.id (cancel (m.context l.info l.scope) m.world), pending⟩
  /-- The stage on top fails to undo its work. -/
  | notUndone {p : Place} {l : Leaf (Stage σ)} {cancel : StageContext → σ → StageStep σ}
      {e : StageError} (m : Machine σ) (pending : List Place) (here : leaf p = some l)
      (can : l.stage.cancel = some cancel)
      (error : (cancel (m.context l.info l.scope) m.world).outcome = .error e) :
      Step leaf ⟨m, p :: pending⟩
        ⟨p, .stageRollback l.info .cancellationFailed s!"CANCELLATION_FAILED: {e.detail}", m⟩
        ⟨m.after l.info.id (cancel (m.context l.info l.scope) m.world), pending⟩
  /-- Something is told that is not a call of a stage. -/
  | told {p : Place} {e : Event} (m : Machine σ) (pending : List Place)
      (quiet : e.isExecution = false) (still : e.isRollback = false) :
      Step leaf ⟨m, pending⟩ ⟨p, e, m⟩ ⟨m, pending⟩

/-- A sequence of steps. -/
inductive Walk (leaf : Place → Option (Leaf (Stage σ))) :
    Progress σ → List (Moment σ) → Progress σ → Prop where
  /-- No step. -/
  | nil (s : Progress σ) : Walk leaf s [] s
  /-- A step and a walk. -/
  | cons {s t u : Progress σ} {x : Moment σ} {ms : List (Moment σ)} (step : Step leaf s x t)
      (rest : Walk leaf t ms u) : Walk leaf s (x :: ms) u

namespace Walk

variable {leaf : Place → Option (Leaf (Stage σ))}

theorem single {s t : Progress σ} {x : Moment σ} (step : Step leaf s x t) : Walk leaf s [x] t :=
  .cons step (.nil t)

theorem append {s t u : Progress σ} {ms ns : List (Moment σ)} (first : Walk leaf s ms t)
    (second : Walk leaf t ns u) : Walk leaf s (ms ++ ns) u := by
  induction first with
  | nil => exact second
  | cons step _ ih => exact .cons step (ih second)

/-- Skipped nodes leave everything as it is. -/
theorem of_skips {place : Place} {m : Machine σ} {ms : List (Moment σ)}
    (skips : ∀ x ∈ ms, Placed.Skips place m x) (pending : List Place) :
    Walk leaf ⟨m, pending⟩ ms ⟨m, pending⟩ := by
  induction ms with
  | nil => exact .nil _
  | cons x rest ih =>
    have hx := skips x List.mem_cons_self
    have quiet := hx.not_execution
    refine .cons ?_ (ih fun y hy => skips y (List.mem_cons_of_mem _ hy))
    obtain ⟨p, e, m'⟩ := x
    obtain rfl : m' = m := hx.machine
    exact .told m' pending quiet hx.not_rollback

end Walk

/-! ## Strategies of the flows of a tree -/

namespace FlowNode

mutual

/-- Whether every flow of a node cancels on errors. -/
def allCancel : FlowNode α → Bool
  | stage _ => true
  | flow header nodes => header.strategy = .cancelOnError && allCancelIn nodes
  | parallel _ children => allCancelIn children

/-- Whether every flow of nodes cancels on errors. -/
def allCancelIn : List (FlowNode α) → Bool
  | [] => true
  | node :: rest => allCancel node && allCancelIn rest

end

end FlowNode

namespace Placed

/-! ## Undoing work -/

namespace Completed

mutual

/-- The stages of a piece of work, last first. -/
def stages : Completed σ → List (Place × Leaf (Stage σ))
  | stage place leaf => [(place, leaf)]
  | flow _ _ children => stagesAll children
  | parallel children => stagesAll children

/-- The stages of pieces of work in the order of the list. -/
def stagesAll : List (Completed σ) → List (Place × Leaf (Stage σ))
  | [] => []
  | c :: rest => stages c ++ stagesAll rest

end

@[simp]
theorem stagesAll_append (cs ds : List (Completed σ)) :
    stagesAll (cs ++ ds) = stagesAll cs ++ stagesAll ds := by
  induction cs with
  | nil => rfl
  | cons c rest ih => simp [stagesAll, ih]

mutual

theorem stages_places {c : Completed σ} {x : Place × Leaf (Stage σ)} (hx : x ∈ stages c) :
    x.1 ∈ places c := by
  cases c with
  | stage place leaf => simp_all [stages, places]
  | flow place info children => exact List.mem_cons_of_mem _ (stagesAll_places hx)
  | parallel children => exact stagesAll_places hx

theorem stagesAll_places {cs : List (Completed σ)} {x : Place × Leaf (Stage σ)}
    (hx : x ∈ stagesAll cs) : x.1 ∈ placesAll cs := by
  cases cs with
  | nil => simp [stagesAll] at hx
  | cons c rest =>
    rw [stagesAll, List.mem_append] at hx
    rw [placesAll, List.mem_append]
    rcases hx with hx | hx
    · exact .inl (stages_places hx)
    · exact .inr (stagesAll_places hx)

end

end Completed

/-- The places of those stages that can be cancelled. -/
def cancellable (stages : List (Place × Leaf (Stage σ))) : List Place :=
  (stages.filter (·.2.stage.isCancellable)).map (·.1)

@[simp]
theorem cancellable_append (xs ys : List (Place × Leaf (Stage σ))) :
    cancellable (xs ++ ys) = cancellable xs ++ cancellable ys := by simp [cancellable]

theorem cancellable_singleton (p : Place) (l : Leaf (Stage σ)) (pending : List Place) :
    cancellable [(p, l)] ++ pending = l.push p pending := by
  unfold cancellable Leaf.push
  cases h : l.stage.isCancellable <;> simp [h]

theorem cancellable_places {cs : List (Completed σ)} {p : Place}
    (hp : p ∈ cancellable (Completed.stagesAll cs)) : p ∈ Completed.placesAll cs := by
  simp only [cancellable, List.mem_map, List.mem_filter] at hp
  obtain ⟨x, ⟨hx, -⟩, rfl⟩ := hp
  exact Completed.stagesAll_places hx

/-- The stages are those that a tree has at their places. -/
def Located (leaf : Place → Option (Leaf (Stage σ))) (stages : List (Place × Leaf (Stage σ))) :
    Prop :=
  ∀ x ∈ stages, leaf x.1 = some x.2

theorem Located.append {leaf : Place → Option (Leaf (Stage σ))}
    {xs ys : List (Place × Leaf (Stage σ))} (hx : Located leaf xs) (hy : Located leaf ys) :
    Located leaf (xs ++ ys) := by
  intro x h
  rcases List.mem_append.mp h with h | h
  · exact hx x h
  · exact hy x h

/-- The stages of work that was done later, and of work that was done before it. -/
theorem Located.stagesAll_append {leaf : Place → Option (Leaf (Stage σ))}
    {cs ds : List (Completed σ)} (later : Located leaf (Completed.stagesAll cs))
    (earlier : Located leaf (Completed.stagesAll ds)) :
    Located leaf (Completed.stagesAll (cs ++ ds)) := by
  rw [Completed.stagesAll_append]
  exact later.append earlier

namespace Completed

variable {leaf : Place → Option (Leaf (Stage σ))}

theorem rollbackStage_walk {place : Place} {l : Leaf (Stage σ)} (here : leaf place = some l)
    (m : Machine σ) (pending : List Place) :
    Walk leaf ⟨m, l.push place pending⟩ (rollbackStage m place l).moments
      ⟨(rollbackStage m place l).machine, pending⟩ := by
  unfold rollbackStage Provisioning.Completed.rollbackStage Leaf.push Stage.isCancellable
  cases hc : l.stage.cancel with
  | none => exact .nil _
  | some cancel =>
    cases ho : (cancel (m.context l.info l.scope) m.world).outcome with
    | ok u =>
      simp only [Option.isSome_some, ↓reduceIte, ho, List.map_cons, List.map_nil]
      exact .single (.undone m pending here hc ho)
    | error e =>
      simp only [Option.isSome_some, ↓reduceIte, ho, List.map_cons, List.map_nil]
      exact .single (.notUndone m pending here hc ho)

mutual

/-- Undoing a piece of work takes its stages from the stack. -/
theorem rollback_walk (c : Completed σ) (located : Located leaf c.stages) (m : Machine σ)
    (pending : List Place) :
    Walk leaf ⟨m, cancellable c.stages ++ pending⟩ (rollback m c).moments
      ⟨(rollback m c).machine, pending⟩ := by
  cases c with
  | stage place l =>
    have here : leaf place = some l := located (place, l) (by simp [stages])
    rw [stages, cancellable_singleton]
    exact rollbackStage_walk here m pending
  | flow place info children =>
    have undone := rollbackAll_walk children located m pending
    exact undone.append (.single (.told _ _ rfl rfl))
  | parallel children => exact rollbackAll_walk children located m pending

theorem rollbackAll_walk (cs : List (Completed σ)) (located : Located leaf (stagesAll cs))
    (m : Machine σ) (pending : List Place) :
    Walk leaf ⟨m, cancellable (stagesAll cs) ++ pending⟩ (rollbackAll m cs).moments
      ⟨(rollbackAll m cs).machine, pending⟩ := by
  cases cs with
  | nil => exact .nil _
  | cons c rest =>
    have here : Located leaf c.stages := fun x hx => located x (by simp [stagesAll, hx])
    have others : Located leaf (stagesAll rest) := fun x hx => located x (by simp [stagesAll, hx])
    have first := rollback_walk c here m (cancellable (stagesAll rest) ++ pending)
    have second := rollbackAll_walk rest others (rollback m c).machine pending
    rw [stagesAll, cancellable_append, List.append_assoc]
    exact first.append second

end

end Completed

/-! ## Runs in which every flow cancels on errors -/

/-- A run of nodes that stops at a failure hands over nothing, or no node has failed. -/
theorem runAll_stop_completed (info : FlowInfo) (path : String) (place : Place) (i : Nat)
    (m : Machine σ) (completed : List (Completed σ)) (nodes : List (FlowNode (Stage σ))) :
    (runAll .stop info path place i m completed nodes).flowStatus = .finished ∨
      (runAll .stop info path place i m completed nodes).completed = [] := by
  induction nodes generalizing i m completed with
  | nil => exact .inl rfl
  | cons node rest ih =>
    rcases stops_or_goes .stop (run info path (place ++ [i]) m node) with ⟨-, hf⟩ | goes
    · rw [runAll_stop hf]
      exact .inr rfl
    · rw [runAll_go goes]
      have ih := ih (i + 1) (run info path (place ++ [i]) m node).machine
        (OnFailure.stop.kept (run info path (place ++ [i]) m node) ++ completed)
      simpa [ListRun.cons, ListRun.flowStatus, ListRun.failed, goes rfl] using ih

theorem OnFailure.kept_eq {onFailure : OnFailure} (keeps : onFailure ≠ .leave) (r : NodeRun σ) :
    onFailure.kept r = r.completed.toList := by
  rw [kept, if_neg fun h => keeps h.2]

variable {leaf : Place → Option (Leaf (Stage σ))}

theorem stageRun_walk {info : FlowInfo} {path : String} {place : Place} {s : Stage σ}
    (here : leaf place = some (info.leaf path s)) (m : Machine σ) (pending : List Place) :
    Located leaf (Completed.stagesAll (stageRun info path place m s).completed.toList) ∧
      Walk leaf ⟨m, pending⟩ (stageRun info path place m s).moments
        ⟨(stageRun info path place m s).machine,
          cancellable (Completed.stagesAll (stageRun info path place m s).completed.toList)
            ++ pending⟩ := by
  cases ho : (s.execute (m.context (info.stage path s.name) info.scope) m.world).outcome with
  | ok u =>
    simp only [stageRun, Stage.run, ho, Option.map_some, Option.toList, Completed.stagesAll,
      Completed.stages, List.append_nil, cancellable_singleton]
    refine ⟨fun x hx => ?_, .cons (.told m pending rfl rfl) (.single ?_)⟩
    · obtain rfl := List.mem_singleton.mp hx
      exact here
    · exact .succeeded m pending here ho
  | error e =>
    simp only [stageRun, Stage.run, ho, Option.map_none, Option.toList, Completed.stagesAll]
    refine ⟨fun x hx => absurd hx List.not_mem_nil, .cons (.told m pending rfl rfl) (.single ?_)⟩
    exact .failed m pending here ho

/-- What a flow that cancels on errors hands over is what its nodes hand over. -/
theorem flow_stages (info : FlowInfo) (path : String) (place : Place) (m : Machine σ)
    (nodes : List (FlowNode (Stage σ))) :
    Completed.stagesAll
        ((runAll .stop info path place 0 m [] nodes).flow place info m).completed.toList
      = Completed.stagesAll (runAll .stop info path place 0 m [] nodes).completed := by
  rcases runAll_stop_completed info path place 0 m [] nodes with finished | nothing
  · simp [ListRun.flow, finished, Completed.stagesAll, Completed.stages]
  · simp only [ListRun.flow, nothing]
    split <;> rfl

/-- What a parallel group hands over is what its children hand over. -/
theorem group_stages (r : ListRun σ) :
    Completed.stagesAll r.group.completed.toList = Completed.stagesAll r.completed := by
  simp only [ListRun.group]
  cases r.completed <;> simp [Completed.stagesAll, Completed.stages]

/-- The run of a flow that cancels on errors is a walk if that of its nodes is. -/
theorem runFlow_walk (info : FlowInfo) (path : String) (place : Place) (m : Machine σ)
    (header : FlowHeader) (nodes : List (FlowNode (Stage σ)))
    (cancels : header.strategy = .cancelOnError) (pending : List Place)
    (ih : header.skipReason = none →
      Located leaf (Completed.stagesAll (runAll .stop info path place 0 m [] nodes).completed) ∧
        Walk leaf ⟨m, pending⟩ (runAll .stop info path place 0 m [] nodes).moments
          ⟨(runAll .stop info path place 0 m [] nodes).machine,
            cancellable (Completed.stagesAll (runAll .stop info path place 0 m [] nodes).completed)
              ++ pending⟩) :
    Located leaf
        (Completed.stagesAll (runFlow info path place m header nodes).completed.toList) ∧
      Walk leaf ⟨m, pending⟩ (runFlow info path place m header nodes).moments
        ⟨(runFlow info path place m header nodes).machine,
          cancellable
              (Completed.stagesAll (runFlow info path place m header nodes).completed.toList)
            ++ pending⟩ := by
  unfold runFlow
  cases hs : header.skipReason with
  | some reason =>
    refine ⟨fun x hx => ?_, .of_skips (fun x hx => skippedRun_skips hx) pending⟩
    simp [skippedRun, Completed.stagesAll] at hx
  | none =>
    obtain ⟨handed, walk⟩ := ih hs
    simp only [cancels, OnFailure.ofStrategy, flow_stages]
    refine ⟨handed, .cons (.told m pending rfl rfl) ?_⟩
    exact walk.append (.single (.told _ _ rfl rfl))

mutual

/-- The run of a node in which every flow cancels on errors is a walk that leaves on the stack what
the node hands over. -/
theorem run_walk (info : FlowInfo) (path : String) (place : Place) (m : Machine σ)
    (node : FlowNode (Stage σ)) (cancels : node.allCancel)
    (located : ∀ q, leaf (place ++ q) = node.leaf? info path q) (pending : List Place) :
    Located leaf (Completed.stagesAll (run info path place m node).completed.toList) ∧
      Walk leaf ⟨m, pending⟩ (run info path place m node).moments
        ⟨(run info path place m node).machine,
          cancellable (Completed.stagesAll (run info path place m node).completed.toList)
            ++ pending⟩ := by
  cases node with
  | stage s =>
    have here : leaf place = some (info.leaf path s) := by
      simpa [FlowNode.leaf?] using located []
    exact stageRun_walk here m pending
  | flow header nodes =>
    simp only [FlowNode.allCancel, Bool.and_eq_true, decide_eq_true_eq] at cancels
    rw [run_flow]
    refine runFlow_walk _ _ place m header nodes cancels.1 pending fun runs => ?_
    have below : ∀ k q, leaf (place ++ (0 + k) :: q)
        = FlowNode.leafIn? (info.child header) (FlowNode.childPath path header.id) nodes k q := by
      intro k q
      simpa [FlowNode.leaf?, runs] using located (k :: q)
    exact runAll_walk .stop (by simp) _ _ place 0 m [] nodes cancels.2 below
      (fun x hx => absurd hx List.not_mem_nil) pending
  | parallel name children =>
    have below : ∀ k q, leaf (place ++ (0 + k) :: q)
        = FlowNode.leafIn? info (FlowNode.childPath path name) children k q := by
      intro k q
      simpa [FlowNode.leaf?] using located (k :: q)
    have ih := runAll_walk .keep (by simp) info (FlowNode.childPath path name) place 0 m [] children
      cancels below (fun x hx => absurd hx List.not_mem_nil) pending
    rw [run, group_stages]
    exact ih

theorem runAll_walk (onFailure : OnFailure) (keeps : onFailure ≠ .leave) (info : FlowInfo)
    (path : String) (place : Place) (i : Nat) (m : Machine σ) (completed : List (Completed σ))
    (nodes : List (FlowNode (Stage σ))) (cancels : FlowNode.allCancelIn nodes)
    (located : ∀ k q, leaf (place ++ (i + k) :: q) = FlowNode.leafIn? info path nodes k q)
    (done : Located leaf (Completed.stagesAll completed)) (pending : List Place) :
    Located leaf
        (Completed.stagesAll (runAll onFailure info path place i m completed nodes).completed) ∧
      Walk leaf ⟨m, cancellable (Completed.stagesAll completed) ++ pending⟩
        (runAll onFailure info path place i m completed nodes).moments
        ⟨(runAll onFailure info path place i m completed nodes).machine,
          cancellable
              (Completed.stagesAll (runAll onFailure info path place i m completed nodes).completed)
            ++ pending⟩ := by
  cases nodes with
  | nil => exact ⟨done, .nil _⟩
  | cons node rest =>
    rw [FlowNode.allCancelIn, Bool.and_eq_true] at cancels
    have here := FlowNode.located_head located
    have others := FlowNode.located_tail located
    have first := run_walk info path (place ++ [i]) m node cancels.1 here
      (cancellable (Completed.stagesAll completed) ++ pending)
    rw [← List.append_assoc, ← cancellable_append, ← Completed.stagesAll_append] at first
    -- What the node hands over lies on top of what was done before it.
    have together := first.1.stagesAll_append done
    rcases stops_or_goes onFailure (run info path (place ++ [i]) m node) with ⟨rfl, hf⟩ | goes
    · rw [runAll_stop hf]
      refine ⟨fun x hx => absurd hx List.not_mem_nil, ?_⟩
      have undone := Completed.rollbackAll_walk _ together
        (run info path (place ++ [i]) m node).machine pending
      exact (first.2.append undone).append (.of_skips (fun x hx => skipAll_skips hx) pending)
    · have ih := runAll_walk onFailure keeps info path place (i + 1)
        (run info path (place ++ [i]) m node).machine
        ((run info path (place ++ [i]) m node).completed.toList ++ completed) rest cancels.2
        others together pending
      rw [runAll_go goes, OnFailure.kept_eq keeps]
      exact ⟨ih.1, first.2.append ih.2⟩

end

end Placed

end Provisioning
