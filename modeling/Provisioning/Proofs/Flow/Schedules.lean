import Provisioning.Proofs.Flow.Concurrent
import Provisioning.Proofs.Flow.Isolation

/-!
# Runs with any number of workers in a world

What a run tells fixes what it does to the world: stages are called in the order in which they tell
of it, each on the machine that the calls before it have left. `Flow.MayRunOn` relates a flow and a
world to all that may come of running the flow there, whatever the number of workers, provided that
no call of a stage is interrupted by another one. The run with one worker is one of these
(`Flow.run_mayRunOn`).
-/

namespace Provisioning

variable {σ : Type}

namespace Interleaves

variable {β : Type}

/-- A mixture in which each choice takes the next element of the first list, or of the second one.
What is left is taken in order. -/
def mix : List Bool → List β → List β → List β
  | true :: choices, x :: xs, ys => x :: mix choices xs ys
  | false :: choices, xs, y :: ys => y :: mix choices xs ys
  | _, xs, ys => xs ++ ys

theorem of_mix (choices : List Bool) (xs ys : List β) : Interleaves xs ys (mix choices xs ys) := by
  fun_induction mix choices xs ys with
  | case1 _ _ _ _ ih => exact .left ih
  | case2 _ _ _ _ ih => exact .right ih
  | case3 => exact .append _ _

end Interleaves

/-! ## Replaying what is told -/

/-- Calls a stage, if the outcome of the call is the one expected: a failure with a reason, or
success. -/
def Machine.call? (m : Machine σ) (l : Leaf (Stage σ)) (work : StageContext → σ → StageStep σ)
    (tell : StageError → String) (reason : Option String) : Option (Machine σ) :=
  let step := work (m.context l.info l.scope) m.world
  let found : Option String :=
    match step.outcome with
    | .ok () => none
    | .error e => some (tell e)
  if found = reason then some (m.after l.info.id step) else none

/-- The machine after what is told. If it is a call, the stage at the place is called, and has to
come to the outcome that is told. -/
def Told.replay? (leaf : Place → Option (Leaf (Stage σ))) (m : Machine σ) (t : Told) :
    Option (Machine σ) :=
  let execute (reason : Option String) : Option (Machine σ) := do
    let l ← leaf t.place
    m.call? l l.stage.execute (fun e => s!"FAILED: {e.detail}") reason
  let cancel (reason : Option String) : Option (Machine σ) := do
    let l ← leaf t.place
    m.call? l (← l.stage.cancel) (fun e => s!"CANCELLATION_FAILED: {e.detail}") reason
  match t.event with
  | .stageSuccess _ => execute none
  | .stageError _ reason => execute (some reason)
  | .stageRollback _ .cancelled _ => cancel none
  | .stageRollback _ _ reason => cancel (some reason)
  | _ => some m

/-- The machine after all that is told, in its order. -/
def replay? (leaf : Place → Option (Leaf (Stage σ))) (m : Machine σ) (told : List Told) :
    Option (Machine σ) :=
  told.foldlM (Told.replay? leaf) m

section

variable {leaf : Place → Option (Leaf (Stage σ))} {m m' m'' : Machine σ}

theorem replay?_append {ts us : List Told} (first : replay? leaf m ts = some m')
    (second : replay? leaf m' us = some m'') : replay? leaf m (ts ++ us) = some m'' := by
  rw [replay?, List.foldlM_append]
  exact Option.bind_eq_some_iff.mpr ⟨m', first, second⟩

theorem Told.replay?_quiet {t : Told} (quiet : t.event.isExecution = false)
    (still : t.event.isRollback = false) : t.replay? leaf m = some m := by
  obtain ⟨p, e⟩ := t
  cases e with
  | stageSuccess | stageError => cases quiet
  | stageRollback => cases still
  | _ => rfl

theorem replay?_quiet {ts : List Told} (quiet : ∀ t ∈ ts, t.event.isExecution = false)
    (still : ∀ t ∈ ts, t.event.isRollback = false) : replay? leaf m ts = some m := by
  induction ts with
  | nil => rfl
  | cons t rest ih =>
    obtain ⟨quiet, later⟩ := List.forall_mem_cons.mp quiet
    obtain ⟨still, later'⟩ := List.forall_mem_cons.mp still
    have first : replay? leaf m [t] = some m := by simp [replay?, Told.replay?_quiet quiet still]
    exact replay?_append first (ih later later')

/-- Whether a call of a stage is told. -/
def Told.isCall (t : Told) : Bool := t.event.isExecution || t.event.isRollback

/-- What is told that is not a call is of no account. -/
theorem replay?_calls (ts : List Told) :
    replay? leaf m (ts.filter Told.isCall) = replay? leaf m ts := by
  induction ts generalizing m with
  | nil => rfl
  | cons t rest ih =>
    rw [List.filter_cons]
    split
    next call =>
      simp only [replay?, List.foldlM_cons] at ih ⊢
      exact congrArg _ (funext fun _ => ih)
    next quiet =>
      simp only [Told.isCall, Bool.or_eq_true, not_or, Bool.not_eq_true] at quiet
      rw [ih, replay?, replay?, List.foldlM_cons, Told.replay?_quiet quiet.1 quiet.2]
      rfl

/-- Every call that is told can be made on some machine. -/
theorem replay?_of_mem {ts : List Told} (h : replay? leaf m ts = some m') {t : Told} (ht : t ∈ ts) :
    ∃ before after, t.replay? leaf before = some after := by
  obtain ⟨first, later, rfl⟩ := List.append_of_mem ht
  rw [replay?, List.foldlM_append] at h
  obtain ⟨before, -, h⟩ := Option.bind_eq_some_iff.mp h
  rw [List.foldlM_cons] at h
  obtain ⟨after, called, -⟩ := Option.bind_eq_some_iff.mp h
  exact ⟨before, after, called⟩

/-- A stage that would succeed is not told to fail. -/
theorem Told.replay?_error {p : Place} {l : Leaf (Stage σ)} {info : StageInfo} {reason : String}
    (here : leaf p = some l) (ok : (l.execute m).outcome = .ok ()) :
    Told.replay? leaf m ⟨p, .stageError info reason⟩ = none := by
  unfold Leaf.execute at ok
  simp [Told.replay?, here, Machine.call?, ok]

/-- A stage that would succeed on every machine is nowhere told to fail. -/
theorem replay?_no_error {ts : List Told} (h : replay? leaf m ts = some m') {p : Place}
    {l : Leaf (Stage σ)} (here : leaf p = some l) (ok : ∀ m, (l.execute m).outcome = .ok ())
    {info : StageInfo} {reason : String} : ⟨p, .stageError info reason⟩ ∉ ts := by
  intro there
  obtain ⟨before, after, called⟩ := replay?_of_mem h there
  rw [Told.replay?_error here (ok before)] at called
  cases called

/-- A stage that is told to fail before all else fails on the machine at the start. -/
theorem replay?_error_first {ts : List Told} {p : Place} {l : Leaf (Stage σ)} {info : StageInfo}
    {reason : String} (here : leaf p = some l)
    (h : replay? leaf m (⟨p, .stageError info reason⟩ :: ts) = some m') :
    (l.execute m).outcome ≠ .ok () := by
  intro ok
  rw [replay?, List.foldlM_cons, Told.replay?_error here ok] at h
  cases h

theorem replay?_told {p : Place} {e : Event} (m : Machine σ) (quiet : e.isExecution = false)
    (still : e.isRollback = false) : replay? leaf m [⟨p, e⟩] = some m :=
  replay?_quiet (by simpa using quiet) (by simpa using still)

theorem replay?_skips {place : Place} {ms : List (Moment σ)}
    (skips : ∀ x ∈ ms, Placed.Skips place m x) : replay? leaf m (ms.map (·.told)) = some m :=
  replay?_quiet (List.forall_mem_map.mpr fun x hx => (skips x hx).not_execution)
    (List.forall_mem_map.mpr fun x hx => (skips x hx).not_rollback)

end

/-! ## Two nodes at the same time -/

/-- What may come of two nodes that run at the same time. -/
theorem EachMayRun.pair {info : FlowInfo} {path : String} {place : Place} {i : Nat}
    {a b : FlowNode (Stage σ)} {results : List NodeResult} {told : List Told}
    (ran : EachMayRun info path place i [a, b] results told) :
    ∃ r₁ r₂, MayRun info path (place ++ [i]) a r₁ ∧ MayRun info path (place ++ [i + 1]) b r₂ ∧
      Interleaves r₁.told r₂.told told := by
  cases ran with
  | cons first later mixed =>
    cases later with
    | cons second last alone =>
      cases last with
      | nil =>
        rw [alone.eq_left] at mixed
        exact ⟨_, _, first, second, mixed⟩

/-- What may come of a flow that consists of a group of two nodes and goes on when it fails. -/
theorem Flow.MayRun.pair {f : Flow (Stage σ)} {name : String} {a b : FlowNode (Stage σ)}
    {r : NodeResult} (ran : f.MayRun r) (runs : f.header.skipReason = none)
    (ignores : f.header.strategy = .ignoreOnError) (nodes : f.nodes = [.parallel name [a, b]]) :
    ∃ r₁ r₂ told,
      Provisioning.MayRun (.root f.header) (FlowNode.childPath f.id name) [0, 0] a r₁ ∧
      Provisioning.MayRun (.root f.header) (FlowNode.childPath f.id name) [0, 1] b r₂ ∧
      Interleaves r₁.told r₂.told told ∧ (∀ t ∈ told, t ∈ r.told) ∧
      r.told.filter Told.isCall = told.filter Told.isCall := by
  rw [MayRun, nodes] at ran
  cases ran with
  | skipped disqualified =>
    rw [runs] at disqualified
    cases disqualified
  | ended _ ran =>
    rw [ignores] at ran
    have calls (info : FlowInfo) (status : ExecutionStatus) (told : List Told) :
        (Told.mk [] (.flowStart info) :: (told ++ [])
          ++ [Told.mk [] (.flowFinish info status)]).filter Told.isCall
          = told.filter Told.isCall := by
      simp [Told.isCall, Event.isExecution, Event.isSuccess, Event.isError, Event.isRollback]
    -- The group is the last node, whether or not it fails.
    cases ran with
    | next first _ later | ignored first _ later =>
      cases later with
      | nil =>
        cases first with
        | parallel each _ =>
          obtain ⟨r₁, r₂, one, other, mixed⟩ := each.pair
          refine ⟨r₁, r₂, _, one, other, mixed, fun t ht => ?_, calls _ _ _⟩
          exact List.mem_cons_of_mem _ (by
            simp [NodeResult.andThen, NodeResult.withFailure, NodeResult.ofGroup, ht])

/-- A flow of two stages that cancels on errors finishes, unless one of the stages fails. Where the
first one fails, it is all that is called. -/
theorem FlowMayRun.two_stages {info : FlowInfo} {path : String} {place : Place}
    {header : FlowHeader} {s v : Stage σ} {r : NodeResult}
    (ran : FlowMayRun info path place header [.stage s, .stage v] r)
    (runs : header.skipReason = none) (cancels : header.strategy = .cancelOnError) :
    ⟨place, .flowFinish info .finished⟩ ∈ r.told ∨
      (∃ stage reason, ⟨place ++ [1], .stageError stage reason⟩ ∈ r.told) ∨
      ∃ stage reason, r.told.filter Told.isCall = [⟨place ++ [0], .stageError stage reason⟩] := by
  cases ran with
  | skipped disqualified =>
    rw [runs] at disqualified
    cases disqualified
  | ended _ ran =>
    rw [cancels] at ran
    cases ran with
    | next first succeeds later =>
      cases later with
      | next second succeeds' last =>
        cases last with
        | nil => exact .inl (by simp [NodeResult.ofFlow, NodeResult.andThen])
      | stopped second fails undone =>
        cases second with
        | stage outcome =>
          cases outcome with
          | ok => cases fails
          | error e =>
            refine .inr (.inl ⟨(info.leaf path v).info, s!"FAILED: {e.detail}", ?_⟩)
            simp [NodeResult.ofFlow, NodeResult.andThen, NodeResult.ofStopped, NodeResult.ofStage]
    | stopped first fails undone =>
      cases first with
      | stage outcome =>
        cases outcome with
        | ok => cases fails
        | error e =>
          obtain rfl := MayUndoAll.nil_eq undone
          refine .inr (.inr ⟨(info.leaf path s).info, s!"FAILED: {e.detail}", ?_⟩)
          simp [NodeResult.ofFlow, NodeResult.ofStopped, NodeResult.ofStage, Undoing.none,
            FlowNode.skipToldIn, FlowNode.skipTold, Told.isCall, Event.isExecution,
            Event.isSuccess, Event.isError, Event.isRollback]

/-! ## Runs with one worker -/

namespace Placed

variable {leaf : Place → Option (Leaf (Stage σ))}

namespace Completed

theorem rollbackStage_replays {place : Place} {l : Leaf (Stage σ)} (here : leaf place = some l)
    (m : Machine σ) :
    replay? leaf m ((rollbackStage m place l).moments.map (·.told))
      = some (rollbackStage m place l).machine := by
  cases can : l.stage.cancel with
  | none =>
    simp only [rollbackStage, Provisioning.Completed.rollbackStage, can]
    rfl
  | some cancel =>
    cases ho : (cancel (m.context l.info l.scope) m.world).outcome <;>
      simp [rollbackStage, Provisioning.Completed.rollbackStage, can, ho, replay?, Told.replay?,
        here, Machine.call?]

mutual

/-- What a rollback tells replays it. -/
theorem rollback_replays (c : Completed σ) (located : Located leaf c.stages) (m : Machine σ) :
    replay? leaf m ((rollback m c).moments.map (·.told)) = some (rollback m c).machine := by
  cases c with
  | stage place l => exact rollbackStage_replays (located (place, l) (by simp [stages])) m
  | flow place info children =>
    rw [rollback, List.map_append]
    exact replay?_append (rollbackAll_replays children located m) (replay?_told _ rfl rfl)
  | parallel children => exact rollbackAll_replays children located m

theorem rollbackAll_replays (cs : List (Completed σ)) (located : Located leaf (stagesAll cs))
    (m : Machine σ) :
    replay? leaf m ((rollbackAll m cs).moments.map (·.told)) = some (rollbackAll m cs).machine := by
  cases cs with
  | nil => rfl
  | cons c rest =>
    have here : Located leaf c.stages := fun x hx => located x (by simp [stagesAll, hx])
    have others : Located leaf (stagesAll rest) := fun x hx => located x (by simp [stagesAll, hx])
    rw [rollbackAll, Rollback.andThen, List.map_append]
    exact replay?_append (rollback_replays c here m) (rollbackAll_replays rest others _)

end

end Completed

theorem stageRun_replays {info : FlowInfo} {path : String} {place : Place} {s : Stage σ}
    (here : leaf place = some (info.leaf path s)) (m : Machine σ) :
    replay? leaf m ((stageRun info path place m s).moments.map (·.told))
      = some (stageRun info path place m s).machine := by
  cases ho : (s.execute (m.context (info.stage path s.name) info.scope) m.world).outcome <;>
    simp [stageRun, Stage.run, ho, replay?, Told.replay?, here, Machine.call?, FlowInfo.leaf,
      Named.name]

mutual

/-- What a run of a node tells replays it. -/
theorem run_replays (info : FlowInfo) (path : String) (place : Place) (m : Machine σ)
    (node : FlowNode (Stage σ)) (located : ∀ q, leaf (place ++ q) = node.leaf? info path q) :
    replay? leaf m ((run info path place m node).moments.map (·.told))
      = some (run info path place m node).machine := by
  cases node with
  | stage s =>
    exact stageRun_replays (by simpa [FlowNode.leaf?] using located []) m
  | flow header nodes =>
    rw [run_flow, runFlow]
    cases hs : header.skipReason with
    | some reason => exact replay?_skips fun x hx => skippedRun_skips hx
    | none =>
      have ran := runAll_replays (.ofStrategy header.strategy) (info.child header)
        (FlowNode.childPath path header.id) place 0 m [] nodes
        (fun k q => by simpa [FlowNode.leaf?, hs] using located (k :: q))
        fun x hx => absurd hx List.not_mem_nil
      simp only [ListRun.flow, List.map_append, List.map_cons]
      exact replay?_append (replay?_append (replay?_told m rfl rfl) ran) (replay?_told _ rfl rfl)
  | parallel name children =>
    exact runAll_replays .keep info (FlowNode.childPath path name) place 0 m [] children
      (fun k q => by simpa [FlowNode.leaf?] using located (k :: q))
      fun x hx => absurd hx List.not_mem_nil

theorem runAll_replays (onFailure : OnFailure) (info : FlowInfo) (path : String) (place : Place)
    (i : Nat) (m : Machine σ) (completed : List (Completed σ)) (nodes : List (FlowNode (Stage σ)))
    (located : ∀ k q, leaf (place ++ (i + k) :: q) = FlowNode.leafIn? info path nodes k q)
    (done : Located leaf (Completed.stagesAll completed)) :
    replay? leaf m
        ((runAll onFailure info path place i m completed nodes).moments.map (·.told))
      = some (runAll onFailure info path place i m completed nodes).machine := by
  cases nodes with
  | nil => rfl
  | cons node rest =>
    have here := FlowNode.located_head located
    have own := (run_course info path (place ++ [i]) m node here).1
    have first := run_replays info path (place ++ [i]) m node here
    rcases stops_or_goes onFailure (run info path (place ++ [i]) m node) with ⟨rfl, hf⟩ | goes
    · have undone := Completed.rollbackAll_replays _ (own.stagesAll_append done)
        (run info path (place ++ [i]) m node).machine
      rw [runAll_stop hf, ListRun.stop, List.map_append, List.map_append]
      exact replay?_append (replay?_append first undone)
        (replay?_skips fun x hx => skipAll_skips hx)
    · have kept := own.sublist (kept_stages_sublist onFailure _)
      have later := runAll_replays onFailure info path place (i + 1)
        (run info path (place ++ [i]) m node).machine _ rest (FlowNode.located_tail located)
        (kept.stagesAll_append done)
      rw [runAll_go goes, ListRun.cons, List.map_append]
      exact replay?_append first later

end

end Placed

namespace Flow

/-- What may come of running a flow in a world, and the machine afterwards: the calls that are told
lead to it and have the outcomes that are told. -/
def MayRunOn (f : Flow (Stage σ)) (world : σ) (r : NodeResult) (m : Machine σ) : Prop :=
  f.MayRun r ∧ replay? f.leaf? { world, results := .empty } r.told = some m

/-- The run with one worker is one that may be. -/
theorem run_mayRunOn (f : Flow (Stage σ)) (world : σ) :
    f.MayRunOn world (f.placed world).result (f.run world).machine := by
  refine ⟨f.placed_mayRun world, ?_⟩
  rw [run_machine, placed, Placed.NodeRun.result, Placed.runFlow]
  cases hs : f.header.skipReason with
  | some reason => exact replay?_skips fun x hx => Placed.skippedRun_skips hx
  | none =>
    have ran := Placed.runAll_replays (.ofStrategy f.header.strategy) (FlowInfo.root f.header) f.id
      [] 0 { world, results := .empty } [] f.nodes (located hs)
      fun x hx => absurd hx List.not_mem_nil
    simp only [Placed.ListRun.flow, List.map_append, List.map_cons]
    exact replay?_append (replay?_append (replay?_told _ rfl rfl) ran) (replay?_told _ rfl rfl)

end Flow

end Provisioning
