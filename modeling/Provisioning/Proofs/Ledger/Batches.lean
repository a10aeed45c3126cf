import Provisioning.Proofs.Flow.Likeness
import Provisioning.Proofs.Ledger.Exactness
import Provisioning.Proofs.Ledger.Owners

/-!
# Changes one by one and all at once

An application can enable or disable its modules by groups of stages that make one change each, or
by a single stage that makes all of them. When a change is declined, the stages beside it run all
the same and are undone with the flow, while the single stage stops and undoes what it has made.
Over the ledger both come to the same: either all changes are made, and what is left behind undoes
them, or none is (`Performs`). So the flows around them run alike (`Performs.lists`).
-/

namespace Provisioning

open Ledger

/-- Whether an event tells of a flow. -/
def Event.tellsFlow : Event → Bool
  | flowQueued _ | flowStart _ | flowFinish _ _ => true
  | _ => false

/-- Runs over the ledger are compared in what they tell of flows. They lead to the same machine, and
what is undone has to find the modules that it has left. -/
def Ledger.likeness (tenantId : String) : Likeness Store (Set String) where
  machines := Eq
  view m := modules tenantId m.world
  told := Event.tellsFlow
  listed _ := false

/-- No entries are compared. -/
theorem Ledger.filter_listed (tenantId : String) (entries : List StageReport) :
    entries.filter (likeness tenantId).listed = [] :=
  List.filter_eq_nil_iff.mpr fun _ _ => Bool.false_ne_true

namespace FlowNode

variable {α : Type} [Named α] {info : FlowInfo} {reason : String}

theorem announceAll_append (path : String) (ns ms : List (FlowNode α)) :
    announceAll info path (ns ++ ms) = announceAll info path ns ++ announceAll info path ms := by
  induction ns with
  | nil => rfl
  | cons node rest ih => simp only [List.cons_append, announceAll, ih, List.append_assoc]

theorem skipAll_append (path : String) (ns ms : List (FlowNode α)) :
    skipAll info path reason (ns ++ ms)
      = skipAll info path reason ns ++ skipAll info path reason ms := by
  induction ns with
  | nil => rfl
  | cons node rest ih => simp only [List.cons_append, skipAll, ih, List.append_assoc]

mutual

/-- Where there is no flow, none is announced. -/
theorem announce_flat {path : String} {node : FlowNode α} (h : node.flat) :
    (node.announce info path).filter Event.tellsFlow = [] := by
  cases node with
  | stage s => rfl
  | flow header nodes => simp [flat] at h
  | parallel name children =>
    rw [announce]
    exact announceAll_flat h

theorem announceAll_flat {path : String} {nodes : List (FlowNode α)} (h : flatIn nodes) :
    (announceAll info path nodes).filter Event.tellsFlow = [] := by
  cases nodes with
  | nil => rfl
  | cons node rest =>
    rw [flatIn, Bool.and_eq_true] at h
    rw [announceAll, List.filter_append, announce_flat h.1, announceAll_flat h.2, List.append_nil]

end

mutual

/-- Where there is no flow, none is skipped. -/
theorem skip_flat {path : String} {node : FlowNode α} (h : node.flat) :
    (node.skip info path reason).filter Event.tellsFlow = [] := by
  cases node with
  | stage s => rfl
  | flow header nodes => simp [flat] at h
  | parallel name children =>
    rw [skip]
    exact skipAll_flat h

theorem skipAll_flat {path : String} {nodes : List (FlowNode α)} (h : flatIn nodes) :
    (skipAll info path reason nodes).filter Event.tellsFlow = [] := by
  cases nodes with
  | nil => rfl
  | cons node rest =>
    rw [flatIn, Bool.and_eq_true] at h
    rw [skipAll, List.filter_append, skip_flat h.1, skipAll_flat h.2, List.append_nil]

end

end FlowNode

/-! ## Undoing -/

section

variable {m m₁ m₂ : Machine Store} {ds ds' : List (Completed Store)}

/-- Undoing work leads from one machine to another one, with nothing told of flows. -/
structure Restores (m : Machine Store) (ds : List (Completed Store)) (m' : Machine Store) :
    Prop where
  complete : (Completed.rollbackAll m ds).complete = true
  quiet : (Completed.rollbackAll m ds).events.filter Event.tellsFlow = []
  machine : (Completed.rollbackAll m ds).machine = m'

theorem Restores.nil (m : Machine Store) : Restores m [] m := ⟨rfl, rfl, rfl⟩

theorem Restores.append (first : Restores m ds m₁) (second : Restores m₁ ds' m₂) :
    Restores m (ds ++ ds') m₂ := by
  obtain ⟨complete, quiet, rfl⟩ := first
  obtain ⟨complete', quiet', machine⟩ := second
  constructor
  · rw [Likeness.rollbackAll_append, Rollback.andThen, complete, complete', Bool.and_self]
  · rw [Likeness.rollbackAll_append, Rollback.andThen, List.filter_append, quiet, quiet',
      List.nil_append]
  · rw [Likeness.rollbackAll_append, Rollback.andThen, machine]

end

section

variable (retry : RetryConfig) (tenantId : String)

/-- What changes have left behind: undoing it undoes the changes wherever that is possible. -/
def Reverts (cs : List ModuleChange) (ds : List (Completed Store)) : Prop :=
  ∀ ⦃m : Machine Store⦄ ⦃w : Store⦄,
    collaborators.Made retry tenantId (ModuleChange.inverses cs) m.world w →
      Restores m ds { m with world := w }

variable {retry tenantId} {cs cs' : List ModuleChange} {ds ds' : List (Completed Store)}

theorem Reverts.nil : Reverts retry tenantId [] [] := by
  intro m w made
  obtain rfl := made.unique (.nil m.world)
  exact .nil m

theorem Reverts.append (first : Reverts retry tenantId cs ds)
    (second : Reverts retry tenantId cs' ds') : Reverts retry tenantId (cs ++ cs') (ds' ++ ds) := by
  intro m w made
  rw [ModuleChange.inverses, List.reverse_append, List.map_append] at made
  obtain ⟨w₁, later, earlier⟩ := made.of_append
  exact (second later).append (first earlier)

theorem Reverts.ofGroup (h : Reverts retry tenantId cs ds) :
    Reverts retry tenantId cs (Likeness.ofGroup ds).toList := by
  intro m w made
  obtain ⟨complete, quiet, machine⟩ := h made
  constructor <;> rwa [Likeness.rollbackAll_ofGroup]

end

/-! ## Nodes -/

/-- The run of a node that fails and leaves nothing. -/
def NodeRun.failure (m : Machine Store) : NodeRun Store :=
  { status := .failed, completed := none, entries := [], events := [], machine := m }

section

variable (retry : RetryConfig) (tenantId : String)

/-- An attempt to make changes: all of them are made, or only some because not all can be made. What
is left behind undoes those that are made. -/
structure Attempt (m : Machine Store) (cs : List ModuleChange) (good : Bool)
    (ds : List (Completed Store)) (m' : Machine Store) (done : List ModuleChange) : Prop where
  simple : ∀ c ∈ done, c.Simple
  made : collaborators.Made retry tenantId done m.world m'.world
  results : m'.results = m.results
  reverts : Reverts retry tenantId done ds
  all : good = true → done = cs
  cannot : good = false → ¬∃ w, collaborators.Made retry tenantId cs m.world w

/-- The run of a node that is to make changes, and fails if it cannot make all of them. -/
def Tries (m : Machine Store) (cs : List ModuleChange) (r : NodeRun Store) : Prop :=
  ∃ good done, Attempt retry tenantId m cs good r.completed.toList r.machine done ∧
    r.status = if good then .finished else .failed

/-- Runs of sequences that tell the same of flows, end in the same way and lead to the same
machine. -/
structure SameFlows (r r' : SequenceRun Store) : Prop where
  ending : r.ending = r'.ending
  events : r.events.filter Event.tellsFlow = r'.events.filter Event.tellsFlow
  machine : r.machine = r'.machine

/-- Nodes of a flow that make changes: they make all of them and leave behind what undoes them, or
they stop the flow as if nothing had happened. -/
structure Performs (info : FlowInfo) (path : String) (cs : List ModuleChange)
    (ns : List (FlowNode (Stage Store))) : Prop where
  made : ∀ {m : Machine Store} {w : Store} (completed : List (Completed Store))
    (rest : List (FlowNode (Stage Store))), collaborators.Made retry tenantId cs m.world w →
    ∃ ds, Reverts retry tenantId cs ds ∧
      SameFlows (FlowNode.runSequence .cancelOnError info path m completed (ns ++ rest))
        (FlowNode.runSequence .cancelOnError info path { m with world := w } (ds ++ completed) rest)
  failed : ∀ {m : Machine Store} (completed : List (Completed Store))
    (rest : List (FlowNode (Stage Store))),
    (¬∃ w, collaborators.Made retry tenantId cs m.world w) →
      SameFlows (FlowNode.runSequence .cancelOnError info path m completed (ns ++ rest))
        (info.stopped path (.failure m) completed rest)
  flat : FlowNode.flatIn ns

end

section

variable {retry : RetryConfig} {tenantId : String} {cs cs' done done' : List ModuleChange}
  {m m₁ m₂ : Machine Store} {ds ds' : List (Completed Store)} {good good' : Bool}

theorem Attempt.whole {w : Store} (simple : ∀ c ∈ cs, c.Simple)
    (made : collaborators.Made retry tenantId cs m.world w)
    (reverts : Reverts retry tenantId cs ds) :
    Attempt retry tenantId m cs true ds { m with world := w } cs :=
  ⟨simple, made, rfl, reverts, fun _ => rfl, fun h => absurd h.symm Bool.false_ne_true⟩

theorem Attempt.none (cannot : ¬∃ w, collaborators.Made retry tenantId cs m.world w) :
    Attempt retry tenantId m cs false [] m [] :=
  ⟨fun _ h => absurd h List.not_mem_nil, .nil _, rfl, .nil,
    fun h => absurd h Bool.false_ne_true, fun _ => cannot⟩

theorem Attempt.nil (m : Machine Store) : Attempt retry tenantId m [] true [] m [] :=
  .whole (fun _ h => absurd h List.not_mem_nil) (.nil _) .nil

theorem Attempt.append (first : Attempt retry tenantId m cs good ds m₁ done)
    (second : Attempt retry tenantId m₁ cs' good' ds' m₂ done') :
    Attempt retry tenantId m (cs ++ cs') (good && good') (ds' ++ ds) m₂ (done ++ done') := by
  refine ⟨?_, first.made.append second.made, second.results.trans first.results,
    first.reverts.append second.reverts, ?_, ?_⟩
  · intro c hc
    exact (List.mem_append.mp hc).elim (first.simple c) (second.simple c)
  · intro both
    rw [Bool.and_eq_true] at both
    rw [first.all both.1, second.all both.2]
  · rintro some ⟨w, made⟩
    obtain ⟨w₁, made₁, made₂⟩ := made.of_append
    cases good with
    | false => exact first.cannot rfl ⟨w₁, made₁⟩
    | true =>
      have same : w₁ = m₁.world := made₁.unique (first.all rfl ▸ first.made)
      exact second.cannot some ⟨w, same ▸ made₂⟩

/-- What an attempt leaves behind leads back to where it began. -/
theorem Attempt.restores (h : Attempt retry tenantId m cs good ds m₁ done) : Restores m₁ ds m := by
  have back := h.reverts (made_back h.made h.simple)
  rwa [h.results] at back

end

theorem SameFlows.trans {r r' r'' : SequenceRun Store} (h : SameFlows r r')
    (h' : SameFlows r' r'') : SameFlows r r'' :=
  ⟨h.ending.trans h'.ending, h.events.trans h'.events, h.machine.trans h'.machine⟩

/-- Sequences are alike if others are that end like them. -/
theorem SameFlows.sequences {tenantId : String} {a : Set String} {r r' q q' : SequenceRun Store}
    (left : SameFlows r q) (right : SameFlows r' q')
    (alike : (likeness tenantId).Sequences .cancelOnError a q q') :
    (likeness tenantId).Sequences .cancelOnError a r r' := by
  constructor
  · rw [left.ending, right.ending, left.machine]
    exact alike.ending
  · rw [filter_listed, filter_listed]
  · exact left.events.trans (alike.events.trans right.events.symm)
  · exact left.machine.trans (Eq.trans alike.machine right.machine.symm)

section

variable {retry : RetryConfig} {tenantId : String} {info : FlowInfo} {path : String}
  {cs cs' : List ModuleChange} {n : FlowNode (Stage Store)} {ns ms : List (FlowNode (Stage Store))}
  {ds : List (Completed Store)} {m : Machine Store} {r : NodeRun Store}

/-- Where undoing what has been done last leads back, the flow is stopped as if it had not been
done. -/
theorem stopped_restored (status : r.status = .failed)
    (quiet : r.events.filter Event.tellsFlow = [])
    (restores : Restores r.machine (r.completed.toList ++ ds) m)
    (completed : List (Completed Store)) (rest : List (FlowNode (Stage Store))) :
    SameFlows (info.stopped path r (ds ++ completed) rest)
      (info.stopped path (.failure m) completed rest) := by
  obtain ⟨complete, silent, machine⟩ := restores
  have undone : Completed.rollbackAll r.machine (r.completed.toList ++ (ds ++ completed))
      = (Completed.rollbackAll r.machine (r.completed.toList ++ ds)).andThen
        fun m => Completed.rollbackAll m completed := by
    rw [← List.append_assoc, Likeness.rollbackAll_append]
  unfold FlowInfo.stopped
  rw [undone]
  simp only [Rollback.andThen, machine, complete, Bool.true_and, status]
  refine ⟨rfl, ?_, rfl⟩
  simp only [List.filter_append, quiet, silent, List.nil_append]
  rfl

/-- Of the nodes after one that stops a flow, those without flows do not matter. -/
theorem stopped_append (completed : List (Completed Store)) (rest : List (FlowNode (Stage Store)))
    (flat : FlowNode.flatIn ns) :
    SameFlows (info.stopped path r completed (ns ++ rest))
      (info.stopped path r completed rest) := by
  refine ⟨rfl, ?_, rfl⟩
  unfold FlowInfo.stopped
  simp only [FlowNode.skipAll_append, List.filter_append, FlowNode.skipAll_flat flat,
    List.nil_append]

theorem Performs.nil : Performs retry tenantId info path [] [] := by
  constructor
  · intro m w completed rest made
    obtain rfl := made.unique (.nil m.world)
    exact ⟨[], .nil, rfl, rfl, rfl⟩
  · exact fun {m} _ _ cannot => absurd ⟨m.world, .nil _⟩ cannot
  · rfl

theorem Performs.node
    (tries : ∀ m, Tries retry tenantId m cs (n.run info path m))
    (quiet : ∀ m, (n.run info path m).events.filter Event.tellsFlow = []) (flat : n.flat) :
    Performs retry tenantId info path cs [n] := by
  constructor
  · intro m w completed rest made
    obtain ⟨good, done, attempt, status⟩ := tries m
    cases good with
    | false => exact absurd ⟨w, made⟩ (attempt.cannot rfl)
    | true =>
      obtain rfl := attempt.all rfl
      have machine : (n.run info path m).machine = { m with world := w } := by
        rw [← attempt.results, made.unique attempt.made]
      have on : (n.run info path m).status.isFailure = false := by
        rw [status]
        rfl
      refine ⟨_, attempt.reverts, ?_⟩
      rw [List.singleton_append, FlowNode.runSequence, on, machine]
      refine ⟨rfl, ?_, rfl⟩
      show ((n.run info path m).events ++ _).filter Event.tellsFlow = _
      rw [List.filter_append, quiet, List.nil_append]
  · intro m completed rest cannot
    obtain ⟨good, done, attempt, status⟩ := tries m
    cases good with
    | true =>
      obtain rfl := attempt.all rfl
      exact absurd ⟨_, attempt.made⟩ cannot
    | false =>
      have restores := attempt.restores
      rw [← List.append_nil (Option.toList _)] at restores
      rw [List.singleton_append, FlowNode.runSequence, status]
      exact stopped_restored status (quiet m) restores completed rest
  · rw [FlowNode.flatIn, FlowNode.flatIn, flat, Bool.and_true]

theorem Performs.append (simple : ∀ c ∈ cs, c.Simple)
    (first : Performs retry tenantId info path cs ns)
    (second : Performs retry tenantId info path cs' ms) :
    Performs retry tenantId info path (cs ++ cs') (ns ++ ms) := by
  constructor
  · intro m w completed rest made
    obtain ⟨w₁, made₁, made₂⟩ := made.of_append
    obtain ⟨ds, reverts, run⟩ := first.made completed (ms ++ rest) made₁
    obtain ⟨ds', reverts', run'⟩ := second.made (m := { m with world := w₁ }) (ds ++ completed)
      rest made₂
    refine ⟨ds' ++ ds, reverts.append reverts', ?_⟩
    rw [List.append_assoc, List.append_assoc]
    exact run.trans run'
  · intro m completed rest cannot
    rw [List.append_assoc]
    by_cases can : ∃ w, collaborators.Made retry tenantId cs m.world w
    · obtain ⟨w, made⟩ := can
      obtain ⟨ds, reverts, run⟩ := first.made completed (ms ++ rest) made
      have stuck : ¬∃ w', collaborators.Made retry tenantId cs' w w' := by
        rintro ⟨w', later⟩
        exact cannot ⟨w', made.append later⟩
      have restores : Restores { m with world := w } ds m := reverts (made_back made simple)
      refine (run.trans (second.failed (m := { m with world := w }) _ rest stuck)).trans ?_
      exact stopped_restored rfl rfl restores completed rest
    · exact (first.failed completed (ms ++ rest) can).trans
        (stopped_append completed rest second.flat)
  · rw [FlowNode.flatIn_append, first.flat, second.flat, Bool.and_self]

/-- Nodes that make the same changes, each with nodes after them that run alike. -/
theorem Performs.lists {rest rest' : List (FlowNode (Stage Store))}
    (simple : ∀ c ∈ cs, c.Simple) (one : Performs retry tenantId info path cs ns)
    (other : Performs retry tenantId info path cs ms)
    (later : (likeness tenantId).Lists .cancelOnError info path rest rest') :
    (likeness tenantId).Lists .cancelOnError info path (ns ++ rest) (ms ++ rest') := by
  constructor
  · rintro m m' a completed completed' rfl undone
    by_cases can : ∃ w, collaborators.Made retry tenantId cs m.world w
    · obtain ⟨w, made⟩ := can
      obtain ⟨ds, reverts, run⟩ := one.made completed rest made
      obtain ⟨ds', reverts', run'⟩ := other.made completed' rest' made
      refine run.sequences run' (later.run rfl (Likeness.Undone.append ?_ undone))
      rintro u u' rfl same
      obtain ⟨u', back, view⟩ := made_transfer (made_back made simple) same
      obtain ⟨complete, quiet, machine⟩ := reverts back
      obtain ⟨complete', quiet', machine'⟩ := reverts' back
      refine ⟨⟨?_, ?_, ?_, ?_⟩, ?_⟩
      · rw [complete, complete']
      · rw [filter_listed, filter_listed]
      · exact quiet.trans quiet'.symm
      · exact machine.trans machine'.symm
      · rw [machine]
        exact view
    · refine (one.failed completed rest can).sequences (other.failed completed' rest' can) ?_
      exact Likeness.Nodes.stopped ⟨⟨rfl, rfl, rfl, rfl⟩, .nil⟩ undone later.skip
  · intro goesOn
    cases goesOn
  · rw [FlowNode.announceAll_append, FlowNode.announceAll_append, List.filter_append,
      List.filter_append, later.announce]
    show (FlowNode.announceAll info path ns).filter Event.tellsFlow ++ _
      = (FlowNode.announceAll info path ms).filter Event.tellsFlow ++ _
    rw [FlowNode.announceAll_flat one.flat, FlowNode.announceAll_flat other.flat]
  · intro reason
    rw [FlowNode.skipAll_append, FlowNode.skipAll_append, List.filter_append, List.filter_append,
      later.skip]
    show (FlowNode.skipAll info path reason ns).filter Event.tellsFlow ++ _
      = (FlowNode.skipAll info path reason ms).filter Event.tellsFlow ++ _
    rw [FlowNode.skipAll_flat one.flat, FlowNode.skipAll_flat other.flat]

end

/-! ## Stages that make changes -/

namespace EntitlementStage

variable {s : EntitlementStage} {retry : RetryConfig} {tenantId : String} {info : FlowInfo}
  {path : String}

theorem changesModules_of_makesChanges (h : s.makesChanges) : s.changesModules := by
  cases s <;> simp_all [makesChanges, changesModules]

variable (changes : s.makesChanges)

include changes

/-- A stage that makes changes undoes them wherever that is possible. -/
theorem reverts_stage (stage : StageInfo) {scope : Scope}
    (tenant : scope.text? tenantParam = some tenantId) :
    Reverts retry tenantId s.changes [.stage (s.toStage collaborators retry) stage scope] := by
  intro m w made
  have undone : s.cancel collaborators retry (m.context stage scope).result? tenantId m.world
      = (.ok none, w) := by
    rw [cancel_eq_undo, undo_changes (changesModules_of_makesChanges changes), made.changeAll]
    · rfl
    · intro moduleIds h
      rw [h] at changes
      cases changes
  have step := StageWork.step_ok (m.context stage scope) tenant undone
  have rollback : Completed.rollbackAll m [.stage (s.toStage collaborators retry) stage scope]
      = { complete := true
          entries := [.ofOutcome stage.id (.cancelled ExecutionStatus.cancelled.text)]
          events := [.stageRollback stage .cancelled ExecutionStatus.cancelled.text]
          machine := { m with world := w } } := by
    unfold toStage
    simp only [Completed.rollbackAll, Completed.rollback, Completed.rollbackStage, step,
      Rollback.andThen, Rollback.none, Machine.after]
    rfl
  constructor <;> rw [rollback]
  rfl

omit changes in
theorem run_of_ok {m : Machine Store} {w : Store}
    (tenant : info.scope.text? tenantParam = some tenantId)
    (executed : s.execute collaborators retry tenantId m.world = (.ok none, w)) :
    (s.toStage collaborators retry).run info path m
      = { status := .finished
          completed := some (.stage (s.toStage collaborators retry) (info.stage path s.name)
            info.scope)
          entries := []
          events := [.stageStart (info.stage path s.name), .stageSuccess (info.stage path s.name)]
          machine := { m with world := w } } := by
  have step := StageWork.step_ok (m.context (info.stage path s.name) info.scope) tenant executed
  unfold Stage.run toStage
  simp only [step, Machine.after]

omit changes in
theorem run_of_error {m : Machine Store} {e : StageError}
    (tenant : info.scope.text? tenantParam = some tenantId)
    (executed : s.execute collaborators retry tenantId m.world = (.error e, m.world)) :
    (s.toStage collaborators retry).run info path m
      = { status := .failed
          completed := none
          entries := [.ofOutcome (FlowNode.childPath path s.name) (.failed s!"FAILED: {e.detail}")]
          events := [.stageStart (info.stage path s.name),
            .stageError (info.stage path s.name) s!"FAILED: {e.detail}"]
          machine := m } := by
  have step := StageWork.step_error (m.context (info.stage path s.name) info.scope) tenant executed
  unfold Stage.run toStage
  simp only [step, Machine.after]
  rfl

/-- A stage that makes all of its changes stores nothing. -/
theorem execute_made {w w' : Store} (made : collaborators.Made retry tenantId s.changes w w') :
    s.execute collaborators retry tenantId w = (.ok none, w') := by
  obtain ⟨stored, executed⟩ := execute_changes (changesModules_of_makesChanges changes)
    collaborators retry tenantId w
  rw [made.changeAll] at executed
  cases stored with
  | none => exact executed
  | some d =>
    have stores := (execute_stored (congrArg Prod.fst executed)).1
    cases s <;> simp_all [makesChanges, EntitlementStage.stores]

/-- It makes all of its changes, or none. -/
theorem stage_tries (simple : ∀ c ∈ s.changes, c.Simple)
    (tenant : info.scope.text? tenantParam = some tenantId) (m : Machine Store) :
    Tries retry tenantId m s.changes ((s.toStage collaborators retry).run info path m) := by
  rcases changeAll_exact retry tenantId simple m.world with ⟨w, made⟩ | ⟨cannot, e, declined⟩
  · rw [run_of_ok tenant (execute_made changes made)]
    exact ⟨true, s.changes, .whole simple made (reverts_stage changes _ tenant), rfl⟩
  · obtain ⟨stored, executed⟩ := execute_changes (changesModules_of_makesChanges changes)
      collaborators retry tenantId m.world
    rw [declined] at executed
    rw [run_of_error tenant executed]
    exact ⟨false, [], .none cannot, rfl⟩

omit changes in
theorem stage_quiet (m : Machine Store) :
    ((s.toStage collaborators retry).run info path m).events.filter Event.tellsFlow = [] := by
  unfold Stage.run
  dsimp only
  split <;> rfl

end EntitlementStage

/-- The nodes of a flow, over the ledger. -/
abbrev overLedger (retry : RetryConfig) (ns : StageNodes) : List (FlowNode (Stage Store)) :=
  FlowNode.mapAll (EntitlementStage.toStage collaborators retry) ns

theorem overLedger_append (retry : RetryConfig) (ns ms : StageNodes) :
    overLedger retry (ns ++ ms) = overLedger retry ns ++ overLedger retry ms :=
  FlowNode.mapAll_append _ ns ms

section

variable {retry : RetryConfig} {tenantId : String} {info : FlowInfo} {path : String}
  {cs : List ModuleChange}

/-- The children of a group that make one change each, behind children that have run. -/
theorem children_try (retry : RetryConfig) (path : String) (simple : ∀ c ∈ cs, c.Simple)
    (tenant : info.scope.text? tenantParam = some tenantId) (m : Machine Store)
    {status : ExecutionStatus} (undone : status ≠ .cancellationFailed)
    (completed : List (Completed Store)) :
    let r := FlowNode.runChildren info path m status completed
      (overLedger retry (cs.map fun c => .stage (.module c)))
    r.events.filter Event.tellsFlow = [] ∧
      ∃ good ds done, Attempt retry tenantId m cs good ds r.machine done ∧
        r.completed = ds ++ completed ∧ r.status = if good then status else .failed := by
  induction cs generalizing m status completed with
  | nil => exact ⟨rfl, true, [], [], .nil m, rfl, rfl⟩
  | cons c cs ih =>
    rw [List.forall_mem_cons] at simple
    have single : ∀ d ∈ (EntitlementStage.module c).changes, d.Simple := by
      rintro d hd
      rw [List.mem_singleton.mp hd]
      exact simple.1
    let first := ((EntitlementStage.module c).toStage collaborators retry).run info path m
    have tries : Tries retry tenantId m [c] first :=
      EntitlementStage.stage_tries rfl single tenant m
    obtain ⟨good, done, attempt, ran⟩ := tries
    have joined : groupStatus status first.status = if good then status else .failed := by
      rw [ran]
      cases good <;> simp [groupStatus, undone, ExecutionStatus.isFailure]
    have next : groupStatus status first.status ≠ .cancellationFailed := by
      rw [joined]
      cases good <;> simp [undone]
    obtain ⟨quiet, good', ds, done', later, left, ended⟩ := ih simple.2 first.machine next
      (first.completed.toList ++ completed)
    refine ⟨?_, good && good', ds ++ first.completed.toList, done ++ done', attempt.append later,
      left.trans (List.append_assoc _ _ _).symm, ?_⟩
    · show (first.events ++ _).filter Event.tellsFlow = []
      rw [List.filter_append, EntitlementStage.stage_quiet, List.nil_append]
      exact quiet
    · refine Eq.trans ended ?_
      rw [joined]
      cases good <;> cases good' <;> rfl

/-- A group of stages that make one change each. -/
theorem Performs.group (simple : ∀ c ∈ cs, c.Simple)
    (tenant : info.scope.text? tenantParam = some tenantId) (name : String) :
    Performs retry tenantId info path cs
      [.parallel name (overLedger retry (cs.map fun c => .stage (.module c)))] := by
  have children (m : Machine Store) := children_try retry (FlowNode.childPath path name) simple
    tenant m (by decide : ExecutionStatus.finished ≠ .cancellationFailed) []
  refine .node (fun m => ?_) (fun m => (children m).1) ?_
  · obtain ⟨-, good, ds, done, attempt, left, ended⟩ := children m
    rw [List.append_nil] at left
    refine ⟨good, done, ?_, ended⟩
    have kept := attempt.reverts.ofGroup
    rw [← left] at kept
    exact { attempt with reverts := kept }
  · have flat := FlowPlan.flatIn_map_stage (cs.map EntitlementStage.module)
    rw [List.map_map, ← FlowNode.flatIn_mapAll (EntitlementStage.toStage collaborators retry)]
      at flat
    exact flat

/-- One stage that makes all changes. -/
theorem Performs.stage {s : EntitlementStage} (changes : s.makesChanges)
    (simple : ∀ c ∈ s.changes, c.Simple)
    (tenant : info.scope.text? tenantParam = some tenantId) :
    Performs retry tenantId info path s.changes [.stage (s.toStage collaborators retry)] := by
  refine .node (fun m => ?_) (fun m => ?_) rfl
  · rw [FlowNode.run]
    exact EntitlementStage.stage_tries changes simple tenant m
  · rw [FlowNode.run]
    exact EntitlementStage.stage_quiet m

/-- Groups, one for each layer of changes. -/
theorem Performs.groups {layers : List (List ModuleChange)}
    (simple : ∀ c ∈ layers.flatten, c.Simple)
    (tenant : info.scope.text? tenantParam = some tenantId) (groupName : String) :
    Performs retry tenantId info path layers.flatten
      (overLedger retry (FlowPlan.moduleGroups groupName layers)) := by
  unfold FlowPlan.moduleGroups
  rw [← List.flatten_filter_not_isEmpty] at simple ⊢
  generalize layers.filter (!·.isEmpty) = layers at simple ⊢
  suffices general : ∀ name : Nat → String, Performs retry tenantId info path layers.flatten
      (overLedger retry
        (layers.mapIdx fun i (layer : List ModuleChange) => FlowNode.parallel (name i)
          (layer.map fun change => .stage (.module change)))) from
    general fun i => s!"{groupName}-l{i}"
  induction layers with
  | nil => exact fun _ => .nil
  | cons layer rest ih =>
    intro name
    rw [List.flatten_cons] at simple
    have here : ∀ c ∈ layer, c.Simple := fun c hc => simple c (List.mem_append_left _ hc)
    have later : ∀ c ∈ rest.flatten, c.Simple := fun c hc => simple c (List.mem_append_right _ hc)
    rw [List.mapIdx_cons, List.flatten_cons]
    exact .append here (.group here tenant (name 0)) (ih later fun i => name (i + 1))

/-- A batch. -/
theorem Performs.batch {stage : List ModuleChange → EntitlementStage}
    (makes : ∀ cs, (stage cs).makesChanges) (all : ∀ cs, (stage cs).changes = cs)
    (simple : ∀ c ∈ cs, c.Simple) (tenant : info.scope.text? tenantParam = some tenantId) :
    Performs retry tenantId info path cs
      (overLedger retry (FlowPlan.batch stage cs)) := by
  unfold FlowPlan.batch
  split
  · rename_i empty
    rw [List.isEmpty_iff] at empty
    subst empty
    exact .nil
  · have made : Performs retry tenantId info path (stage cs).changes
        [.stage ((stage cs).toStage collaborators retry)] :=
      .stage (makes cs) ((all cs).symm ▸ simple) tenant
    rwa [all cs] at made

end

/-! ## Other stages -/

namespace EntitlementStage

variable {s : EntitlementStage} {tenantId : String}

theorem modules_step {work : String → StageWork Store}
    (keeps : ∀ t w, modules tenantId (work t w).2 = modules tenantId w) (ctx : StageContext)
    (w : Store) : modules tenantId (StageWork.step work ctx w).world = modules tenantId w := by
  cases tenant : ctx.scope.text? tenantParam with
  | none => simp only [StageWork.step, tenant]
  | some t => rw [StageWork.step_world ctx tenant, keeps]

/-- A stage that does not change modules leaves them as they are, and so does undoing it. -/
theorem indifferent (other : s.changesModules = false) (retry : RetryConfig) :
    (likeness tenantId).Indifferent (s.toStage collaborators retry) := by
  constructor
  · rintro m m' info scope rfl
    exact ⟨rfl, rfl, modules_step (fun t w => (execute_hands other retry t w).modules) _ _⟩
  · rintro call can m m' info scope rfl
    obtain rfl := Option.some.inj can
    refine ⟨rfl, rfl, modules_step (fun t w => ?_) _ _⟩
    rw [cancel_eq_undo]
    · exact (undo_hands other retry t w).modules
    · intro moduleIds h
      rw [h] at other
      cases other

end EntitlementStage

/-- Groups of two kinds of modules run like one batch. -/
theorem groups_batch_lists {retry : RetryConfig} {tenantId : String} {info : FlowInfo}
    {path : String} {rest rest' : List (FlowNode (Stage Store))}
    {first second : List (List ModuleChange)} {stage : List ModuleChange → EntitlementStage}
    (makes : ∀ cs, (stage cs).makesChanges) (all : ∀ cs, (stage cs).changes = cs)
    (simple : ∀ c ∈ first.flatten ++ second.flatten, c.Simple)
    (tenant : info.scope.text? tenantParam = some tenantId)
    (later : (likeness tenantId).Lists .cancelOnError info path rest rest')
    (firstName secondName : String) :
    (likeness tenantId).Lists .cancelOnError info path
      (overLedger retry
        (FlowPlan.moduleGroups firstName first ++ FlowPlan.moduleGroups secondName second) ++ rest)
      (overLedger retry (FlowPlan.batch stage (first.flatten ++ second.flatten)) ++ rest') := by
  have before : ∀ c ∈ first.flatten, c.Simple := fun c hc => simple c (List.mem_append_left _ hc)
  have after : ∀ c ∈ second.flatten, c.Simple := fun c hc => simple c (List.mem_append_right _ hc)
  rw [overLedger_append]
  exact Performs.lists simple
    (.append before (.groups before tenant firstName) (.groups after tenant secondName))
    (.batch makes all simple tenant) later

end Provisioning
