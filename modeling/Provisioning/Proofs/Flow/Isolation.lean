import Provisioning.Proofs.Flow.Contexts
import Provisioning.Proofs.Flow.Walk

/-!
# Isolated stages

The calls of stages in a run, each with the context that the stage is given: they are all that
happens to the world and to the results, and they are calls that the flow may make. So a stage sees
the parameters of the flows around it and of each stage what the stage itself has stored last, when
it is called and when it is called once more to undo its work.
-/

namespace Provisioning

variable {σ : Type}

/-! ## The calls of a run -/

/-- A call of a stage. -/
structure Called (σ : Type) where
  /-- Which stage is called and what for. -/
  call : StageCall
  /-- What the stage is given. -/
  context : StageContext
  /-- What comes of it. -/
  step : StageStep σ

/-- What happens to the results in the course of the call. -/
def Called.accesses (c : Called σ) : List Access := c.call.accesses c.step.stored.toList

/-- The stage is called on a machine. -/
def Leaf.called (l : Leaf (Stage σ)) (call : StageCall) (m : Machine σ)
    (work : StageContext → σ → StageStep σ) : Called σ :=
  { call, context := m.context l.info l.scope, step := work (m.context l.info l.scope) m.world }

namespace Moment

/-- The call that a moment tells of, if it tells of one. -/
def called? (leaf : Place → Option (Leaf (Stage σ))) (x : Moment σ) : Option (Called σ) :=
  match leaf x.place with
  | none => none
  | some l =>
    if x.event.isExecution then some (l.called (l.call x.place) x.machine l.stage.execute)
    else if x.event.isRollback then l.stage.cancel.map (l.called (l.call x.place).undo x.machine)
    else none

/-- The machine after a moment. -/
def after (leaf : Place → Option (Leaf (Stage σ))) (x : Moment σ) : Machine σ :=
  match x.called? leaf with
  | some c => x.machine.after c.call.stageId c.step
  | none => x.machine

end Moment

/-- The calls that moments tell of. -/
def callsTold (leaf : Place → Option (Leaf (Stage σ))) (ms : List (Moment σ)) : List (Called σ) :=
  ms.filterMap (·.called? leaf)

/-- What happens to the results in the course of moments. -/
def accessesTold (leaf : Place → Option (Leaf (Stage σ))) (ms : List (Moment σ)) : List Access :=
  (callsTold leaf ms).flatMap (·.accesses)

/-- The calls of a run of a flow. -/
def Flow.callsMade (f : Flow (Stage σ)) (world : σ) : List (Called σ) :=
  callsTold f.leaf? (f.moments world)

section

variable {leaf : Place → Option (Leaf (Stage σ))}

@[simp]
theorem accessesTold_append (ms ns : List (Moment σ)) :
    accessesTold leaf (ms ++ ns) = accessesTold leaf ms ++ accessesTold leaf ns := by
  simp [accessesTold, callsTold]

theorem Moment.called?_execution {x : Moment σ} {l : Leaf (Stage σ)}
    (here : leaf x.place = some l) (tells : x.event.isExecution) :
    x.called? leaf = some (l.called (l.call x.place) x.machine l.stage.execute) := by
  simp [called?, here, tells]

theorem Moment.called?_rollback {x : Moment σ} {l : Leaf (Stage σ)}
    {cancel : StageContext → σ → StageStep σ} (here : leaf x.place = some l)
    (can : l.stage.cancel = some cancel) (quiet : x.event.isExecution = false)
    (tells : x.event.isRollback) :
    x.called? leaf = some (l.called (l.call x.place).undo x.machine cancel) := by
  simp [called?, here, can, quiet, tells]

theorem Moment.called?_quiet {x : Moment σ} (quiet : x.event.isExecution = false)
    (still : x.event.isRollback = false) : x.called? leaf = none := by
  unfold called?
  split <;> simp [quiet, still]

theorem accessesTold_called {x : Moment σ} {c : Called σ} (h : x.called? leaf = some c) :
    accessesTold leaf [x] = c.accesses := by
  simp [accessesTold, callsTold, h]

theorem accessesTold_quiet {ms : List (Moment σ)} (quiet : ∀ x ∈ ms, x.event.isExecution = false)
    (still : ∀ x ∈ ms, x.event.isRollback = false) : accessesTold leaf ms = [] := by
  have none : callsTold leaf ms = [] :=
    List.filterMap_eq_nil_iff.mpr fun x hx => Moment.called?_quiet (quiet x hx) (still x hx)
  rw [accessesTold, none, List.flatMap_nil]

theorem accessesTold_told {p : Place} {e : Event} {m : Machine σ} (quiet : e.isExecution = false)
    (still : e.isRollback = false) : accessesTold leaf [⟨p, e, m⟩] = [] :=
  accessesTold_quiet (by simpa using quiet) (by simpa using still)

theorem accessesTold_skips {place : Place} {m : Machine σ} {ms : List (Moment σ)}
    (skips : ∀ x ∈ ms, Placed.Skips place m x) : accessesTold leaf ms = [] :=
  accessesTold_quiet (fun x hx => (skips x hx).not_execution) fun x hx => (skips x hx).not_rollback

/-- What a moment tells of is a call of the stage at its place, and the stage is given the results
there are. -/
theorem Moment.called?_given {x : Moment σ} {c : Called σ} (h : x.called? leaf = some c) :
    c.call.IsOf leaf ∧ c.context = c.call.context x.machine.results := by
  unfold called? at h
  split at h
  · simp at h
  · rename_i l here
    have called := Leaf.call_isOf here
    split at h
    · obtain rfl := Option.some.inj h
      exact ⟨called, rfl⟩
    · split at h
      · obtain ⟨work, -, rfl⟩ := Option.map_eq_some_iff.mp h
        exact ⟨called.undo, rfl⟩
      · simp at h

/-- What a call stores is put in the place of what the stage has stored before. -/
theorem Called.resultsAfter (c : Called σ) (m : Machine σ) {as : List Access}
    (now : m.results = resultsAfter as) :
    (m.after c.call.stageId c.step).results = Provisioning.resultsAfter (as ++ c.accesses) := by
  unfold Machine.after accesses StageCall.accesses
  cases c.step.stored <;> simp [Provisioning.resultsAfter, Access.apply, now, StageCall.context,
    StageContext.store]

end

/-! ## Calls are all that happens -/

/-- From a machine to a machine: each moment meets the machine that the one before has left, and a
stage that is told to be called is called. -/
inductive Course (leaf : Place → Option (Leaf (Stage σ))) :
    Machine σ → List (Moment σ) → Machine σ → Prop where
  /-- Nothing happens. -/
  | nil (m : Machine σ) : Course leaf m [] m
  /-- A moment, and what comes after it. -/
  | cons {x : Moment σ} {ms : List (Moment σ)} {m : Machine σ}
      (called : x.event.isExecution ∨ x.event.isRollback → (x.called? leaf).isSome)
      (later : Course leaf (x.after leaf) ms m) : Course leaf x.machine (x :: ms) m

namespace Course

variable {leaf : Place → Option (Leaf (Stage σ))} {m m' m'' : Machine σ} {ms ns : List (Moment σ)}

theorem append (first : Course leaf m ms m') (second : Course leaf m' ns m'') :
    Course leaf m (ms ++ ns) m'' := by
  induction first with
  | nil => exact second
  | cons called _ ih => exact .cons called (ih second)

/-- Something is told that is not a call. -/
theorem told {p : Place} {e : Event} (m : Machine σ) (quiet : e.isExecution = false)
    (still : e.isRollback = false) : Course leaf m [⟨p, e, m⟩] m := by
  have none : (Moment.mk p e m).called? leaf = none := Moment.called?_quiet quiet still
  have later : Course leaf ((Moment.mk p e m).after leaf) [] m := by
    rw [Moment.after, none]
    exact .nil m
  exact .cons (by simp [quiet, still]) later

/-- A stage is called. -/
theorem called {p : Place} {e : Event} {m : Machine σ} {c : Called σ}
    (h : (Moment.mk p e m).called? leaf = some c) :
    Course leaf m [⟨p, e, m⟩] (m.after c.call.stageId c.step) := by
  have later : Course leaf ((Moment.mk p e m).after leaf) [] (m.after c.call.stageId c.step) := by
    rw [Moment.after, h]
    exact .nil _
  exact .cons (by simp [h]) later

/-- Skipped nodes leave everything as it is. -/
theorem of_skips {place : Place} (skips : ∀ x ∈ ms, Placed.Skips place m x) :
    Course leaf m ms m := by
  induction ms with
  | nil => exact .nil m
  | cons x rest ih =>
    rw [List.forall_mem_cons] at skips
    obtain ⟨hx, others⟩ := skips
    have first : Course leaf x.machine [x] x.machine :=
      told x.machine hx.not_execution hx.not_rollback
    rw [hx.machine] at first
    exact first.append (ih others)

/-- A stage is given the results that the calls before have stored. -/
theorem given (course : Course leaf m ms m') {as : List Access} (now : m.results = resultsAfter as)
    {before after : List (Called σ)} {c : Called σ}
    (split : callsTold leaf ms = before ++ c :: after) :
    c.context = c.call.context (resultsAfter (as ++ before.flatMap (·.accesses))) := by
  induction course generalizing as before with
  | nil => simp [callsTold] at split
  | @cons x ms m' _ later ih =>
    rw [callsTold, List.filterMap_cons] at split
    cases h : x.called? leaf with
    | none =>
      rw [h] at split
      exact ih (by rwa [Moment.after, h]) split
    | some first =>
      rw [h] at split
      cases before with
      | nil =>
        obtain ⟨rfl, -⟩ := List.cons.inj split
        simpa [now] using (Moment.called?_given h).2
      | cons head before =>
        obtain ⟨rfl, others⟩ := List.cons.inj split
        have stored : (x.after leaf).results = resultsAfter (as ++ first.accesses) := by
          rw [Moment.after, h]
          exact first.resultsAfter x.machine now
        simpa using ih stored others

end Course

/-! ## Undoing work -/

theorem MayCallBack.append {work work' : List StageCall} {as bs : List Access}
    (first : MayCallBack work as) (second : MayCallBack work' bs) :
    MayCallBack (work ++ work') (as ++ bs) := by
  induction first with
  | nil => exact second
  | stays _ ih => exact .stays ih
  | undone values _ ih =>
    rw [List.append_assoc]
    exact .undone values ih

/-- The calls of stages that have done their work. -/
def callsOf (stages : List (Place × Leaf (Stage σ))) : List StageCall :=
  stages.map fun x => x.2.call x.1

namespace Placed

variable {leaf : Place → Option (Leaf (Stage σ))}

namespace Completed

theorem rollbackStage_course {place : Place} {l : Leaf (Stage σ)} (here : leaf place = some l)
    (m : Machine σ) :
    Course leaf m (rollbackStage m place l).moments (rollbackStage m place l).machine ∧
      MayCallBack [l.call place] (accessesTold leaf (rollbackStage m place l).moments) := by
  cases can : l.stage.cancel with
  | none =>
    simp only [rollbackStage, Provisioning.Completed.rollbackStage, can]
    exact ⟨.nil m, .stays .nil⟩
  | some cancel =>
    have undone : ∀ e : Event, e.isExecution = false → e.isRollback →
        Course leaf m [⟨place, e, m⟩] (m.after l.info.id (cancel (m.context l.info l.scope) m.world)) ∧
          MayCallBack [l.call place] (accessesTold leaf [⟨place, e, m⟩]) := by
      intro e quiet tells
      have called : (Moment.mk place e m).called? leaf
          = some (l.called (l.call place).undo m cancel) :=
        Moment.called?_rollback here can quiet tells
      refine ⟨.called called, ?_⟩
      rw [accessesTold_called called, ← List.append_nil (Called.accesses _)]
      exact .undone _ .nil
    cases ho : (cancel (m.context l.info l.scope) m.world).outcome with
    | ok _ | error e =>
      simp only [rollbackStage, Provisioning.Completed.rollbackStage, can, ho, List.map_cons,
        List.map_nil]
      exact undone _ rfl rfl

mutual

/-- Undoing a piece of work calls its stages once more. -/
theorem rollback_course (c : Completed σ) (located : Located leaf c.stages) (m : Machine σ) :
    Course leaf m (rollback m c).moments (rollback m c).machine ∧
      MayCallBack (callsOf c.stages) (accessesTold leaf (rollback m c).moments) := by
  cases c with
  | stage place l => exact rollbackStage_course (located (place, l) (by simp [stages])) m
  | flow place info children =>
    obtain ⟨course, back⟩ := rollbackAll_course children located m
    refine ⟨course.append (.told _ rfl rfl), ?_⟩
    rw [rollback, accessesTold_append, accessesTold_told rfl rfl, List.append_nil]
    exact back
  | parallel children => exact rollbackAll_course children located m

theorem rollbackAll_course (cs : List (Completed σ)) (located : Located leaf (stagesAll cs))
    (m : Machine σ) :
    Course leaf m (rollbackAll m cs).moments (rollbackAll m cs).machine ∧
      MayCallBack (callsOf (stagesAll cs)) (accessesTold leaf (rollbackAll m cs).moments) := by
  cases cs with
  | nil => exact ⟨.nil m, .nil⟩
  | cons c rest =>
    have here : Located leaf c.stages := fun x hx => located x (by simp [stagesAll, hx])
    have others : Located leaf (stagesAll rest) := fun x hx => located x (by simp [stagesAll, hx])
    obtain ⟨course, back⟩ := rollback_course c here m
    obtain ⟨course', back'⟩ := rollbackAll_course rest others (rollback m c).machine
    refine ⟨course.append course', ?_⟩
    rw [stagesAll, callsOf, List.map_append, rollbackAll, Rollback.andThen, accessesTold_append]
    exact back.append back'

end

end Completed

/-! ## Runs -/

/-- What a flow hands over is some of what its nodes hand over. -/
theorem flow_stages_sublist (place : Place) (info : FlowInfo) (m : Machine σ) (r : ListRun σ) :
    (Completed.stagesAll (r.flow place info m).completed.toList).Sublist
      (Completed.stagesAll r.completed) := by
  by_cases h : r.flowStatus = .finished <;>
    simp [ListRun.flow, h, Completed.stagesAll, Completed.stages]

theorem kept_stages_sublist (onFailure : OnFailure) (r : NodeRun σ) :
    (Completed.stagesAll (onFailure.kept r)).Sublist (Completed.stagesAll r.completed.toList) := by
  unfold OnFailure.kept
  split
  · exact List.nil_sublist _
  · exact .refl _

theorem Located.sublist {xs ys : List (Place × Leaf (Stage σ))} (h : Located leaf ys)
    (some : xs.Sublist ys) : Located leaf xs :=
  fun x hx => h x (some.subset hx)

theorem stageRun_course {info : FlowInfo} {path : String} {place : Place} {s : Stage σ}
    (here : leaf place = some (info.leaf path s)) (m : Machine σ) :
    Located leaf (Completed.stagesAll (stageRun info path place m s).completed.toList) ∧
      Course leaf m (stageRun info path place m s).moments (stageRun info path place m s).machine ∧
      MayCall info path place (.stage s)
        (accessesTold leaf (stageRun info path place m s).moments)
        (callsOf (Completed.stagesAll (stageRun info path place m s).completed.toList)) := by
  have ran : ∀ (e : Event) (left : List StageCall), e.isExecution →
      left.Subperm [(info.leaf path s).call place] →
      Course leaf m [⟨place, .stageStart (info.stage path s.name), m⟩, ⟨place, e, m⟩]
          (m.after (info.stage path s.name).id
            (s.execute (m.context (info.stage path s.name) info.scope) m.world)) ∧
        MayCall info path place (.stage s)
          (accessesTold leaf [⟨place, .stageStart (info.stage path s.name), m⟩, ⟨place, e, m⟩])
          left := by
    intro e left tells some_left
    have called : (Moment.mk place e m).called? leaf
        = some ((info.leaf path s).called ((info.leaf path s).call place) m s.execute) :=
      Moment.called?_execution here tells
    refine ⟨.append (.told m rfl rfl) (.called called), ?_⟩
    rw [← List.singleton_append, accessesTold_append, accessesTold_told rfl rfl,
      accessesTold_called called]
    exact .stage _ some_left
  cases ho : (s.execute (m.context (info.stage path s.name) info.scope) m.world).outcome with
  | ok u =>
    simp only [stageRun, Stage.run, ho, Option.map_some, Option.toList, Completed.stagesAll,
      Completed.stages, List.append_nil, List.map_cons, List.map_nil]
    refine ⟨fun x hx => ?_, ran _ _ rfl (.refl _)⟩
    obtain rfl := List.mem_singleton.mp hx
    exact here
  | error e =>
    simp only [stageRun, Stage.run, ho, Option.map_none, Option.toList, Completed.stagesAll,
      List.map_cons, List.map_nil]
    exact ⟨fun x hx => absurd hx List.not_mem_nil, ran _ _ rfl List.nil_subperm⟩

mutual

/-- In a run of a node nothing happens but calls of its stages, and what is left to be undone is
their work. -/
theorem run_course (info : FlowInfo) (path : String) (place : Place) (m : Machine σ)
    (node : FlowNode (Stage σ)) (located : ∀ q, leaf (place ++ q) = node.leaf? info path q) :
    Located leaf (Completed.stagesAll (run info path place m node).completed.toList) ∧
      Course leaf m (run info path place m node).moments (run info path place m node).machine := by
  cases node with
  | stage s =>
    have here : leaf place = some (info.leaf path s) := by simpa [FlowNode.leaf?] using located []
    obtain ⟨done, course, -⟩ := stageRun_course here m
    exact ⟨done, course⟩
  | flow header nodes =>
    rw [run_flow, runFlow]
    cases hs : header.skipReason with
    | some reason =>
      exact ⟨fun x hx => absurd hx (by simp [skippedRun, Completed.stagesAll]),
        .of_skips fun x hx => skippedRun_skips hx⟩
    | none =>
      obtain ⟨done, course⟩ := runAll_course (.ofStrategy header.strategy) (info.child header)
        (FlowNode.childPath path header.id) place 0 m [] nodes
        (fun k q => by simpa [FlowNode.leaf?, hs] using located (k :: q))
        fun x hx => absurd hx List.not_mem_nil
      exact ⟨done.sublist (flow_stages_sublist ..),
        .append (.append (.told m rfl rfl) course) (.told _ rfl rfl)⟩
  | parallel name children =>
    rw [run, group_stages]
    exact runAll_course .keep info (FlowNode.childPath path name) place 0 m [] children
      (fun k q => by simpa [FlowNode.leaf?] using located (k :: q))
      fun x hx => absurd hx List.not_mem_nil

theorem runAll_course (onFailure : OnFailure) (info : FlowInfo) (path : String) (place : Place)
    (i : Nat) (m : Machine σ) (completed : List (Completed σ)) (nodes : List (FlowNode (Stage σ)))
    (located : ∀ k q, leaf (place ++ (i + k) :: q) = FlowNode.leafIn? info path nodes k q)
    (done : Located leaf (Completed.stagesAll completed)) :
    Located leaf
        (Completed.stagesAll (runAll onFailure info path place i m completed nodes).completed) ∧
      Course leaf m (runAll onFailure info path place i m completed nodes).moments
        (runAll onFailure info path place i m completed nodes).machine := by
  cases nodes with
  | nil => exact ⟨done, .nil m⟩
  | cons node rest =>
    obtain ⟨own, first⟩ :=
      run_course info path (place ++ [i]) m node (FlowNode.located_head located)
    rcases stops_or_goes onFailure (run info path (place ++ [i]) m node) with ⟨rfl, hf⟩ | goes
    · have undone := (Completed.rollbackAll_course _ (own.stagesAll_append done)
        (run info path (place ++ [i]) m node).machine).1
      rw [runAll_stop hf]
      exact ⟨fun x hx => absurd hx List.not_mem_nil,
        (first.append undone).append (.of_skips fun x hx => skipAll_skips hx)⟩
    · have kept := own.sublist (kept_stages_sublist onFailure _)
      obtain ⟨left, later⟩ := runAll_course onFailure info path place (i + 1)
        (run info path (place ++ [i]) m node).machine _ rest (FlowNode.located_tail located)
        (kept.stagesAll_append done)
      rw [runAll_go goes]
      exact ⟨left, first.append later⟩

end

theorem ListRun.flow_accesses (place : Place) (info : FlowInfo) (m : Machine σ) (r : ListRun σ) :
    accessesTold leaf (r.flow place info m).moments = accessesTold leaf r.moments := by
  rw [flow, accessesTold_append, ← List.singleton_append, accessesTold_append,
    accessesTold_told rfl rfl, accessesTold_told rfl rfl, List.nil_append, List.append_nil]

theorem callsOf_append (xs ys : List (Place × Leaf (Stage σ))) :
    callsOf (xs ++ ys) = callsOf xs ++ callsOf ys :=
  List.map_append

mutual

/-- The calls of a run in which one child of a group comes after another are calls that a node may
make. -/
theorem run_mayCall (info : FlowInfo) (path : String) (place : Place) (m : Machine σ)
    (node : FlowNode (Stage σ)) (located : ∀ q, leaf (place ++ q) = node.leaf? info path q) :
    MayCall info path place node (accessesTold leaf (run info path place m node).moments)
      (callsOf (Completed.stagesAll (run info path place m node).completed.toList)) := by
  cases node with
  | stage s =>
    have here : leaf place = some (info.leaf path s) := by simpa [FlowNode.leaf?] using located []
    exact (stageRun_course here m).2.2
  | flow header nodes =>
    rw [run_flow, runFlow]
    cases hs : header.skipReason with
    | some reason =>
      simp only [accessesTold_skips fun x hx => skippedRun_skips hx]
      exact .skipped (by simp [hs])
    | none =>
      have ran := runSequence_mayCall (.ofStrategy header.strategy) (info.child header)
        (FlowNode.childPath path header.id) place 0 m [] nodes
        (fun k q => by simpa [FlowNode.leaf?, hs] using located (k :: q))
        fun x hx => absurd hx List.not_mem_nil
      simp only [ListRun.flow_accesses]
      exact .flow hs ran ((flow_stages_sublist ..).map _).subperm
  | parallel name children =>
    obtain ⟨work, ran, left⟩ := runEach_mayCall info (FlowNode.childPath path name) place 0 m []
      children (fun k q => by simpa [FlowNode.leaf?] using located (k :: q))
    rw [run, group_stages, left.trans (List.append_nil work)]
    exact .parallel ran (.refl _)

theorem runSequence_mayCall (onFailure : OnFailure) (info : FlowInfo) (path : String)
    (place : Place) (i : Nat) (m : Machine σ) (completed : List (Completed σ))
    (nodes : List (FlowNode (Stage σ)))
    (located : ∀ k q, leaf (place ++ (i + k) :: q) = FlowNode.leafIn? info path nodes k q)
    (done : Located leaf (Completed.stagesAll completed)) :
    SequenceMayCall info path place i (callsOf (Completed.stagesAll completed)) nodes
      (accessesTold leaf (runAll onFailure info path place i m completed nodes).moments)
      (callsOf (Completed.stagesAll
        (runAll onFailure info path place i m completed nodes).completed)) := by
  cases nodes with
  | nil => exact .nil
  | cons node rest =>
    have here := FlowNode.located_head located
    have first := run_mayCall info path (place ++ [i]) m node here
    have own := (run_course info path (place ++ [i]) m node here).1
    rcases stops_or_goes onFailure (run info path (place ++ [i]) m node) with ⟨rfl, hf⟩ | goes
    · have undone := (Completed.rollbackAll_course _ (own.stagesAll_append done)
        (run info path (place ++ [i]) m node).machine).2
      rw [Completed.stagesAll_append, callsOf_append] at undone
      rw [runAll_stop hf, ListRun.stop, accessesTold_append, accessesTold_append,
        accessesTold_skips fun x hx => skipAll_skips hx, List.append_nil]
      exact .stopped first undone
    · have some_kept := kept_stages_sublist onFailure (run info path (place ++ [i]) m node)
      have later := runSequence_mayCall onFailure info path place (i + 1)
        (run info path (place ++ [i]) m node).machine _ rest (FlowNode.located_tail located)
        ((own.sublist some_kept).stagesAll_append done)
      rw [Completed.stagesAll_append, callsOf_append] at later
      rw [runAll_go goes, ListRun.cons, accessesTold_append]
      exact .next (first.fewer (some_kept.map _).subperm) later

theorem runEach_mayCall (info : FlowInfo) (path : String) (place : Place) (i : Nat) (m : Machine σ)
    (completed : List (Completed σ)) (children : List (FlowNode (Stage σ)))
    (located : ∀ k q, leaf (place ++ (i + k) :: q) = FlowNode.leafIn? info path children k q) :
    ∃ work,
      EachMayCall info path place i children
        (accessesTold leaf (runAll .keep info path place i m completed children).moments) work ∧
      callsOf (Completed.stagesAll (runAll .keep info path place i m completed children).completed)
        = work ++ callsOf (Completed.stagesAll completed) := by
  cases children with
  | nil => exact ⟨[], .nil, rfl⟩
  | cons child rest =>
    have first := run_mayCall info path (place ++ [i]) m child (FlowNode.located_head located)
    obtain ⟨work, later, left⟩ := runEach_mayCall info path place (i + 1)
      (run info path (place ++ [i]) m child).machine
      ((run info path (place ++ [i]) m child).completed.toList ++ completed) rest
      (FlowNode.located_tail located)
    rw [runAll_go (by simp), OnFailure.kept_eq (by simp), ListRun.cons, accessesTold_append, left]
    refine ⟨_, .cons first later (.append _ _), ?_⟩
    rw [Completed.stagesAll_append, callsOf_append, List.append_assoc]

end

end Placed

/-! ## Flows -/

namespace Flow

/-- In a run of a flow nothing happens but calls of its stages. -/
theorem run_course (f : Flow (Stage σ)) (world : σ) :
    Course f.leaf? { world, results := .empty } (f.moments world) (f.run world).machine := by
  rw [run_machine, moments, placed, Placed.runFlow]
  cases hs : f.header.skipReason with
  | some reason => exact .of_skips fun x hx => Placed.skippedRun_skips hx
  | none =>
    have ran := (Placed.runAll_course (.ofStrategy f.header.strategy) (FlowInfo.root f.header) f.id
      [] 0 { world, results := .empty } [] f.nodes (located hs)
      fun x hx => absurd hx List.not_mem_nil).2
    exact .append (.append (.told _ rfl rfl) ran) (.told _ rfl rfl)

/-- The calls of a run are calls that the flow may make. -/
theorem run_mayCall (f : Flow (Stage σ)) (world : σ) :
    f.MayCall ((f.callsMade world).flatMap (·.accesses)) := by
  show f.MayCall (accessesTold f.leaf? (f.moments world))
  rw [MayCall, moments, placed, Placed.runFlow]
  cases hs : f.header.skipReason with
  | some reason => exact accessesTold_skips fun x hx => Placed.skippedRun_skips hx
  | none =>
    have ran := Placed.runSequence_mayCall (.ofStrategy f.header.strategy) (FlowInfo.root f.header)
      f.id [] 0 { world, results := .empty } [] f.nodes (located hs)
      fun x hx => absurd hx List.not_mem_nil
    simp only [Placed.ListRun.flow_accesses]
    exact ⟨_, ran⟩

/-- Whatever the stages do and however the calls of the children of a group are mixed, every stage
that is called, to do its work or to undo it, sees at any time the parameters of the flows around it
and of each stage what the stage itself has stored last. In the run with one child of a group after
another these are the contexts that the stages are given. -/
theorem contexts_isolated {f : Flow (Stage σ)} (distinct : f.stagePaths.Nodup) :
    (∀ as, f.MayCall as → ∀ before, before <+: as → ∀ c, .call c ∈ as →
      (c.context (resultsAfter before)).IsolatedAt f c.place fun q => lastStored q before) ∧
    ∀ world,
      Course f.leaf? { world, results := .empty } (f.moments world) (f.run world).machine ∧
      f.MayCall ((f.callsMade world).flatMap (·.accesses)) ∧
      ∀ before c after, f.callsMade world = before ++ c :: after →
        c.context.IsolatedAt f c.call.place fun q => lastStored q (before.flatMap (·.accesses)) := by
  have isolated : ∀ as, f.MayCall as → ∀ before, before <+: as → ∀ c, .call c ∈ as →
      (c.context (resultsAfter before)).IsolatedAt f c.place fun q => lastStored q before := by
    intro as may before early c called
    have own := may.isOf _ called
    exact context_isolated distinct (fun a ha => may.isOf a (early.subset ha)) own
  refine ⟨isolated, fun world => ⟨f.run_course world, f.run_mayCall world, ?_⟩⟩
  intro before c after split
  have start : ({ world, results := .empty } : Machine σ).results = resultsAfter [] := rfl
  rw [(f.run_course world).given start split]
  refine isolated _ (f.run_mayCall world) _ ?_ c.call ?_
  · rw [split, List.flatMap_append]
    exact List.prefix_append _ _
  · rw [split, List.mem_flatMap]
    exact ⟨c, by simp, List.mem_cons_self⟩

/-- A stage that stores a value, and another one when it is called to undo its work. -/
def storing (name : String) (works : Bool) (value : Data) : Stage Unit :=
  { name
    execute := fun _ _ =>
      { world := (), stored := some value
        outcome := if works then .ok () else .error (.internal name) }
    cancel := some fun _ _ => { world := (), stored := some .null, outcome := .ok () } }

/-- A flow with a nested flow that defines a parameter of its own, and with a stage that fails when
the nested flow has finished. -/
def shadowing : Flow (Stage Unit) :=
  { header := { id := "f", params := .ofList [("mode", .text "outer"), ("owner", .text "crew")] }
    nodes :=
      [.flow { id := "g", params := .ofList [("mode", .text "inner")] }
        [.stage (storing "a" true (.int 1)), .stage (storing "b" true (.int 2))],
        .stage (storing "a" false (.int 3))] }

/-- When the first stage is called to undo its work, the other stages have stored results and one of
them has been called to undo its work. -/
theorem contexts_isolated_shadowing :
    shadowing.stagePaths.Nodup ∧
      ∃ before c, shadowing.callsMade () = before ++ [c] ∧ before.length = 4 ∧
        c.call.place = [0, 0] ∧ c.call.undoes = true ∧
        c.context.result? = some (.int 1) ∧
        c.context.results.get? "f/g/b" = some .null ∧
        c.context.results.get? "f/a" = some (.int 3) ∧
        c.context.scope.get? "mode" = some (.text "inner") ∧
        c.context.scope.get? "owner" = some (.text "crew") := by
  have distinct : shadowing.stagePaths.Nodup := by decide
  have isolated := ((contexts_isolated distinct).2 ()).2.2
  have given := isolated ((shadowing.callsMade ()).take 4) _ [] rfl
  exact ⟨distinct, (shadowing.callsMade ()).take 4, _, rfl, rfl, rfl, rfl, given.result,
    given.results [0, 1] _ rfl, given.results [1] _ rfl, given.params "mode", given.params "owner"⟩

end Flow

end Provisioning
