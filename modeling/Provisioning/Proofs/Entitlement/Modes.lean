import Mathlib.Data.List.Forall2
import Provisioning.Proofs.Entitlement.Schedules
import Provisioning.Proofs.Ledger.Batches

/-!
# Modes of installing modules

With one worker, a request that entitles a tenant to applications or revokes them comes to the same
whether modules are enabled and disabled one by one or in batches: it is refused for the same reason,
or all flows have the same fate and the store is the same, up to what is said of stages. With two
workers this fails for applications that share modules (`Service.execute_modes_contending`).
-/

namespace Provisioning

open Ledger

/-! ## Results that correspond -/

/-- Two results that are the same error, or that are related. -/
inductive Corresponds {ε α β : Type} (R : α → β → Prop) : Except ε α → Except ε β → Prop where
  /-- Both are the same error. -/
  | error (e : ε) : Corresponds R (.error e) (.error e)
  /-- Both are results, which are related. -/
  | ok {a : α} {b : β} (h : R a b) : Corresponds R (.ok a) (.ok b)

namespace Corresponds

variable {ε α β γ δ : Type} {R : α → β → Prop} {S : γ → δ → Prop} {x : Except ε α} {y : Except ε β}

theorem refl (x : Except ε α) : Corresponds Eq x x := by
  cases x with
  | error e => exact .error e
  | ok a => exact .ok rfl

theorem bind {f : α → Except ε γ} {g : β → Except ε δ} (h : Corresponds R x y)
    (later : ∀ a b, R a b → Corresponds S (f a) (g b)) : Corresponds S (x >>= f) (y >>= g) := by
  cases h with
  | error e => exact .error e
  | ok h => exact later _ _ h

theorem ofRefusal {x : Except Refusal α} {y : Except Refusal β} (h : Corresponds R x y) :
    Corresponds R (Failure.ofRefusal x) (Failure.ofRefusal y) := by
  cases h with
  | error e => exact .error _
  | ok h => exact .ok h

end Corresponds

/-! ## Plans -/

/-- The capabilities with another way to install modules. -/
def Capabilities.withInstaller (c : Capabilities) (mode : ModuleInstallerMode) : Capabilities :=
  { c with moduleInstaller := mode }

section

variable (retry : RetryConfig) (tenantId : String)

/-- Nodes of two flows of an application that run alike for the tenant. -/
def Twins (ns ms : StageNodes) : Prop :=
  ∀ ⦃info : FlowInfo⦄ ⦃path : String⦄, info.scope.text? tenantParam = some tenantId →
    (likeness tenantId).Lists .cancelOnError info path
      (overLedger retry ns)
      (overLedger retry ms)

/-- The same is done with an application, by nodes that run alike. -/
structure ApplicationWork.Twins (w w' : ApplicationWork) : Prop where
  type : w.type = w'.type
  nodes : Provisioning.Twins retry tenantId w.nodes w'.nodes

/-- Flows of the same application, with nodes that run alike. -/
structure FlowPlan.ApplicationFlow.Twins (f f' : ApplicationFlow) : Prop where
  ref : f.ref = f'.ref
  nodes : Provisioning.Twins retry tenantId f.nodes f'.nodes

end

variable {retry : RetryConfig} {tenantId : String}

theorem Twins.nil : Twins retry tenantId [] [] := fun _ _ _ => .nil

theorem Twins.cons {s : EntitlementStage} (other : s.changesModules = false) {ns ms : StageNodes}
    (h : Twins retry tenantId ns ms) : Twins retry tenantId (.stage s :: ns) (.stage s :: ms) :=
  fun _ _ tenant => .cons (.stage (s.indifferent other retry)) (h tenant)

theorem Twins.onlyIf (condition : Bool) {s : EntitlementStage} (other : s.changesModules = false)
    {ns ms : StageNodes} (h : Twins retry tenantId ns ms) :
    Twins retry tenantId (FlowPlan.onlyIf condition s ++ ns)
      (FlowPlan.onlyIf condition s ++ ms) := by
  unfold FlowPlan.onlyIf
  split
  · exact h.cons other
  · exact h

theorem Twins.modules {first second : List (List ModuleChange)}
    {stage : List ModuleChange → EntitlementStage} (makes : ∀ cs, (stage cs).makesChanges)
    (all : ∀ cs, (stage cs).changes = cs)
    (simple : ∀ c ∈ first.flatten ++ second.flatten, c.Simple) {ns ms : StageNodes}
    (h : Twins retry tenantId ns ms) (firstName secondName : String) :
    Twins retry tenantId
      (FlowPlan.moduleGroups firstName first ++ FlowPlan.moduleGroups secondName second ++ ns)
      (FlowPlan.batch stage (first.flatten ++ second.flatten) ++ ms) := by
  intro info path tenant
  rw [overLedger_append, overLedger_append _ (FlowPlan.batch _ _)]
  exact groups_batch_lists makes all simple tenant (h tenant) firstName secondName

namespace FlowPlan

variable {c : Capabilities}

theorem simple_changesOf (change : String → ModuleChange) (simple : ∀ id, (change id).Simple)
    (first second : ModuleSequence) :
    ∀ d ∈ (changesOf (fun s => some (change s.new.id)) first).flatten
      ++ (changesOf (fun s => some (change s.new.id)) second).flatten, d.Simple := by
  have each (q : ModuleSequence) :
      ∀ d ∈ (changesOf (fun s => some (change s.new.id)) q).flatten, d.Simple := by
    intro d hd
    obtain ⟨layer, hlayer, hd⟩ := List.mem_flatten.mp hd
    obtain ⟨steps, -, rfl⟩ := List.mem_map.mp hlayer
    obtain ⟨step, -, made⟩ := List.mem_filterMap.mp hd
    obtain rfl := Option.some.inj made
    exact simple _
  intro d hd
  exact (List.mem_append.mp hd).elim (each first d) (each second d)

theorem entitleWork_corresponds (a : Application) :
    Corresponds (ApplicationWork.Twins retry tenantId) (entitleWork (c.withInstaller .folio) a)
      (entitleWork (c.withInstaller .okapi) a) := by
  refine Corresponds.bind (.refl _) fun backend _ same => ?_
  subst same
  refine Corresponds.bind (.refl _) fun ui _ same => ?_
  subst same
  have simple := simple_changesOf .enable
    (fun _ => by simp [ModuleChange.Simple, ModuleChange.enable]) backend ui
  refine .ok ⟨rfl, ?_⟩
  simp only [List.append_assoc]
  exact .modules (fun _ => rfl) (fun _ => rfl) simple
    (.onlyIf _ rfl (.onlyIf _ rfl (.cons rfl .nil))) _ _

theorem revokeWork_corresponds (a : Application) :
    Corresponds (ApplicationWork.Twins retry tenantId) (revokeWork (c.withInstaller .folio) a)
      (revokeWork (c.withInstaller .okapi) a) := by
  refine Corresponds.bind (.refl _) fun backend _ same => ?_
  subst same
  refine Corresponds.bind (.refl _) fun ui _ same => ?_
  subst same
  have simple := simple_changesOf .disable
    (fun _ => by simp [ModuleChange.Simple, ModuleChange.disable]) ui backend
  refine .ok ⟨rfl, ?_⟩
  simp only [List.append_assoc]
  exact .onlyIf _ rfl (.onlyIf _ rfl
    (.modules (fun _ => rfl) (fun _ => rfl) simple (.cons rfl .nil) _ _))

/-! ## Layers -/

theorem flowsFor_twins {work work' : ApplicationWork} (h : work.Twins retry tenantId work')
    (ids : FlowIds) (start : Nat) (id : String) (repetitions : Nat) :
    List.Forall₂ (ApplicationFlow.Twins retry tenantId) (flowsFor ids start id work repetitions)
      (flowsFor ids start id work' repetitions) := by
  unfold flowsFor
  rw [List.forall₂_map_left_iff, List.forall₂_map_right_iff, List.forall₂_same]
  intro i _
  refine ⟨by rw [h.type], ?_⟩
  dsimp only
  split
  · exact h.nodes
  · exact .nil

section

variable {l : Layout} {work' : Application → Except Refusal ApplicationWork}
  (works : ∀ a, Corresponds (ApplicationWork.Twins retry tenantId) (l.work a) (work' a))
  (ids : FlowIds)

include works

theorem layerFlows_correspond (start : Nat) (layer : List String) :
    Corresponds (List.Forall₂ (ApplicationFlow.Twins retry tenantId)) (l.layerFlows ids start layer)
      ({ l with work := work' }.layerFlows ids start layer) := by
  induction layer generalizing start with
  | nil => exact .ok .nil
  | cons id rest ih =>
    cases found : l.applications.get? id with
    | none =>
      simp only [Layout.layerFlows, found]
      exact ih start
    | some a =>
      simp only [Layout.layerFlows, found]
      refine Corresponds.bind (works a) fun work work' twins => ?_
      have first := flowsFor_twins twins ids start id (l.repetitions id)
      rw [first.length_eq]
      refine Corresponds.bind (ih _) fun flows flows' later => .ok ?_
      exact List.rel_append first later

theorem allFlows_correspond (start : Nat) (layers : List (List String)) :
    Corresponds (List.Forall₂ (List.Forall₂ (ApplicationFlow.Twins retry tenantId)))
      (l.allFlows ids start layers) ({ l with work := work' }.allFlows ids start layers) := by
  induction layers generalizing start with
  | nil => exact .ok .nil
  | cons layer rest ih =>
    refine Corresponds.bind (layerFlows_correspond works ids start layer) fun _ _ first => ?_
    rw [first.length_eq]
    exact Corresponds.bind (ih _) fun _ _ later => .ok (.cons first later)

end

/-! ## Runs -/

section

variable {strategy : ExecutionStrategy} {info : FlowInfo} {path : String}
  (tenant : info.scope.text? tenantParam = some tenantId)

include tenant

theorem node_alike {f f' : ApplicationFlow} (twins : f.Twins retry tenantId f') :
    (likeness tenantId).Alike info path
      (f.node.map (EntitlementStage.toStage collaborators retry))
      (f'.node.map (EntitlementStage.toStage collaborators retry)) := by
  obtain ⟨ref, nodes⟩ := f
  obtain ⟨ref', nodes'⟩ := f'
  obtain ⟨same, alike⟩ := twins
  obtain rfl : ref = ref' := same
  refine .flow (alike ?_) (.inl rfl)
  rw [tenant_of_child]
  exact tenant

theorem groups_lists {layers layers' : List (List ApplicationFlow)}
    (twins : List.Forall₂ (List.Forall₂ (ApplicationFlow.Twins retry tenantId)) layers layers')
    (groupName : String) :
    (likeness tenantId).Lists strategy info path
      (overLedger retry (groups groupName layers))
      (overLedger retry (groups groupName layers')) := by
  unfold groups
  have group (path : String) {flows flows' : List ApplicationFlow}
      (twins : List.Forall₂ (ApplicationFlow.Twins retry tenantId) flows flows') :
      (likeness tenantId).Group info path
        (overLedger retry (flows.map (·.node)))
        (overLedger retry (flows'.map (·.node))) := by
    induction twins with
    | nil => exact .nil
    | cons first _ ih => exact .cons (node_alike tenant first) ih
  suffices general : ∀ name : Nat → String, (likeness tenantId).Lists strategy info path
      (overLedger retry
        (layers.mapIdx fun i flows => .parallel (name i) (flows.map (·.node))))
      (overLedger retry
        (layers'.mapIdx fun i flows => .parallel (name i) (flows.map (·.node)))) from
    general fun i => s!"{groupName}-l{i}"
  induction twins with
  | nil => exact fun _ => .nil
  | cons first _ ih =>
    intro name
    rw [List.mapIdx_cons, List.mapIdx_cons]
    exact .cons (.parallel (group _ first)) (ih fun i => name (i + 1))

end

/-! ## Requests -/

/-- Plans for the same flow of a request, with nodes that run alike. -/
structure Twins (retry : RetryConfig) (tenantId : String) (p p' : FlowPlan) : Prop where
  header : p'.flow.header = p.flow.header
  applicationFlows : p.applicationFlows = p'.applicationFlows
  nodes : (likeness tenantId).Lists p.flow.header.strategy (.root p.flow.header) p.flow.id
    (overLedger retry p.flow.nodes)
    (overLedger retry p'.flow.nodes)

theorem refs_eq {layers layers' : List (List ApplicationFlow)}
    (twins : List.Forall₂ (List.Forall₂ (ApplicationFlow.Twins retry tenantId)) layers layers') :
    layers.flatten.map (·.ref) = layers'.flatten.map (·.ref) := by
  have flat : List.Forall₂ (ApplicationFlow.Twins retry tenantId) layers.flatten layers'.flatten :=
    List.rel_flatten twins
  rw [← List.forall₂_eq_eq_eq, List.forall₂_map_left_iff, List.forall₂_map_right_iff]
  exact flat.imp fun _ _ same => same.ref

/-- Nodes of the flow of a request that run alike, with the same flows of applications. -/
structure TwinNodes (retry : RetryConfig) (ids : FlowIds) (r : EntitlementRequest)
    (x y : StageNodes × List ApplicationFlowRef) : Prop where
  applicationFlows : x.2 = y.2
  nodes : (likeness r.tenantId).Lists r.strategy (.root (rootHeader ids r)) ids.root
    (overLedger retry x.1) (overLedger retry y.1)

theorem make_corresponds (c : Capabilities) (ids : FlowIds) {r : EntitlementRequest}
    (input : FlowInput) (plain : r.type = .entitle ∨ r.type = .revoke) :
    Corresponds (Twins retry r.tenantId) (make (c.withInstaller .folio) ids r input)
      (make (c.withInstaller .okapi) ids r input) := by
  have built {work work' : Application → Except Refusal ApplicationWork}
      (works : ∀ a, Corresponds (ApplicationWork.Twins retry r.tenantId) (work a) (work' a))
      (layers : Except Refusal (List (List String))) :
      Corresponds (TwinNodes retry ids r)
        (Failure.ofRefusal do (layout r input.applications work).build ids 0 (← layers))
        (Failure.ofRefusal do (layout r input.applications work').build ids 0 (← layers)) := by
    refine .ofRefusal (Corresponds.bind (.refl layers) fun layers _ same => ?_)
    subst same
    refine Corresponds.bind (allFlows_correspond works ids 0 layers) fun _ _ twins => .ok ?_
    exact ⟨refs_eq twins, groups_lists (root_tenant ids r) twins requestedGroup⟩
  have nodes : Corresponds (TwinNodes retry ids r)
      (requestNodes (c.withInstaller .folio) ids r input)
      (requestNodes (c.withInstaller .okapi) ids r input) := by
    unfold requestNodes
    rcases plain with type | type <;> rw [type]
    · exact built entitleWork_corresponds _
    · exact built revokeWork_corresponds _
  exact Corresponds.bind nodes fun _ _ same => .ok ⟨rfl, same.applicationFlows, same.nodes⟩

end FlowPlan

/-! ## Recording -/

/-- The store without the rows of stages. -/
def Store.withoutStages (s : Store) : Store := { s with stages := [] }

/-- What an execution says of flows: the status of the outermost flow, what happens to flows, and a
store without the rows of stages. -/
def Execution.withoutStages (e : Execution Store) : Execution Store :=
  { applicationFlows := e.applicationFlows
    report := { e.report with stages := [] }
    events := e.events.filter Event.tellsFlow
    world := e.world.withoutStages }

/-- Rows of stages are recorded beside the others. -/
theorem Store.record_withoutStages (s : Store) (e : Event) :
    (s.record e).withoutStages
      = if e.tellsFlow then s.withoutStages.record e else s.withoutStages := by
  cases e with
  | flowQueued flow =>
    show (s.recordFlow flow).withoutStages = s.withoutStages.recordFlow flow
    unfold recordFlow insertFlow insertApplicationFlow
    dsimp only [withoutStages]
    split
    · cases s.flows.insert? flow.id _ <;> rfl
    · cases s.applicationFlows.insert? flow.id _ <;> rfl
  | stageQueued stage =>
    show (s.orUnchanged (s.insertStage stage.id stage.flowId stage.name)).withoutStages
      = s.withoutStages
    unfold insertStage
    split <;> rfl
  | flowStart flow =>
    show (s.recordFlowStatus flow .inProgress).withoutStages
      = s.withoutStages.recordFlowStatus flow .inProgress
    unfold recordFlowStatus
    split <;> rfl
  | flowFinish flow status =>
    show (s.recordFlowStatus flow status).withoutStages
      = s.withoutStages.recordFlowStatus flow status
    unfold recordFlowStatus
    split <;> rfl
  | _ => rfl

theorem Store.recordAll_withoutStages (s : Store) (events : List Event) :
    (s.recordAll events).withoutStages
      = s.withoutStages.recordAll (events.filter Event.tellsFlow) := by
  induction events generalizing s with
  | nil => rfl
  | cons e rest ih =>
    rw [recordAll, List.foldl_cons, ← recordAll, ih, record_withoutStages, List.filter_cons]
    split <;> rfl

namespace Service

/-- The service with another way to install modules. -/
def withInstaller (s : Service Store) (mode : ModuleInstallerMode) : Service Store :=
  { s with capabilities := s.capabilities.withInstaller mode }

/-- What is left of a run without its stages depends on what it tells of flows and on the store that
it leads to. -/
theorem runPlan_withoutStages {s : Service Store} (ledger : s.collaborators = Ledger.collaborators)
    (w : Store) (p : FlowPlan) :
    let f := p.flow.map (EntitlementStage.toStage Ledger.collaborators s.retry)
    let events := f.announce.filter Event.tellsFlow ++ (f.runNodes w).events.filter Event.tellsFlow
    (s.runPlan w p).withoutStages
      = { applicationFlows := p.applicationFlows
          report := { flowId := p.flow.id, status := (f.runNodes w).status, stages := [] }
          events
          world := (f.runNodes w).machine.world.withoutStages.recordAll events } := by
  intro f events
  have told : events = (f.announce ++ (f.runNodes w).events).filter Event.tellsFlow :=
    (List.filter_append _ _).symm
  rw [told, ← Store.recordAll_withoutStages]
  unfold runPlan
  rw [ledger]
  rfl

theorem runPlan_twins {s : Service Store} (ledger : s.collaborators = Ledger.collaborators)
    (w : Store) {p p' : FlowPlan} (twins : p.Twins s.retry tenantId p') :
    (s.runPlan w p).withoutStages = (s.runPlan w p').withoutStages := by
  obtain ⟨header, flows, nodes⟩ := twins
  have id : p.flow.id = p'.flow.id := congrArg FlowHeader.id header.symm
  let g := EntitlementStage.toStage Ledger.collaborators s.retry
  have announced : (p.flow.map g).announce.filter Event.tellsFlow
      = (p'.flow.map g).announce.filter Event.tellsFlow :=
    Likeness.flow_announce (l := likeness tenantId) header nodes
  have runs : (likeness tenantId).Runs ((p.flow.map g).runNodes w) ((p'.flow.map g).runNodes w) :=
    Likeness.flow_runs header nodes rfl
  obtain ⟨status, -, events, machine⟩ := runs
  simp only [likeness, g] at announced status events machine
  rw [runPlan_withoutStages ledger, runPlan_withoutStages ledger]
  rw [flows, id, announced, status, events, machine]

/-- With one worker, it does not matter whether modules are enabled and disabled one by one or in
batches. From the same store, a request that entitles a tenant to applications or revokes them is
refused for the same reason, or its flows have the same fate and the store is the same, up to what is
said of stages. -/
theorem execute_modes (s : Service Store) (ledger : s.collaborators = Ledger.collaborators)
    (w : Store) (ids : FlowIds) (r : EntitlementRequest)
    (plain : r.type = .entitle ∨ r.type = .revoke) :
    ((s.withInstaller .folio).execute w ids r).map Execution.withoutStages
      = ((s.withInstaller .okapi).execute w ids r).map Execution.withoutStages := by
  have prepared : Corresponds (FlowPlan.Twins s.retry r.tenantId)
      ((s.withInstaller .folio).prepare w ids r) ((s.withInstaller .okapi).prepare w ids r) := by
    refine Corresponds.bind (.refl ((s.withInstaller .folio).load w r)) fun loaded _ same => ?_
    subst same
    refine Corresponds.bind (.refl _) fun _ _ _ => ?_
    exact FlowPlan.make_corresponds s.capabilities ids _ plain
  unfold execute
  generalize (s.withInstaller .folio).prepare w ids r = x at prepared ⊢
  generalize (s.withInstaller .okapi).prepare w ids r = y at prepared ⊢
  cases prepared with
  | error failure => rfl
  | ok twins => exact congrArg Except.ok (runPlan_twins ledger w twins)

/-- A store in which the tenant has a module, and no application. -/
def occupied : Store := (Store.empty.insertResource (moduleResource "t" "n-1.0.0")).2

/-- The second one of two modules is there already. One by one, the first one is enabled and then
disabled by a stage of its own, of which the batch tells nothing. -/
theorem execute_modes_occupied :
    sharing.collaborators = Ledger.collaborators ∧
      ∃ e e', (sharing.withInstaller .folio).execute occupied (named "first")
          (requesting .entitle ["b-1.0.0"]) = .ok e ∧
        (sharing.withInstaller .okapi).execute occupied (named "first")
          (requesting .entitle ["b-1.0.0"]) = .ok e' ∧
        e.report.status = .cancelled ∧ e.report.stages.length = 2 ∧
        e'.report.status = .cancelled ∧ e'.report.stages.length = 1 ∧
        e.world.resources = e'.world.resources := by
  have same := execute_modes sharing rfl occupied (named "first") (requesting .entitle ["b-1.0.0"])
    (.inl rfl)
  have loaded (mode : ModuleInstallerMode) :
      (sharing.withInstaller mode).load occupied (requesting .entitle ["b-1.0.0"])
        = .ok (loading [] [bundle "b" "1.0.0" ["m-2.0.0", "n-1.0.0"]]) := rfl
  have valid := ValidationContext.validate_of_free
    ((loading [] [bundle "b" "1.0.0" ["m-2.0.0", "n-1.0.0"]]).context .entitle)
    (by decide) rfl (by decide) rfl rfl
  obtain ⟨e, ran, shows⟩ := execute_of_made (named "first") (loaded .folio) valid
    (f := fun e => (e.report.status, e.report.stages.length)) (b := (.cancelled, 2))
    (by decide +kernel)
  obtain ⟨e', ran', shows'⟩ := execute_of_made (named "first") (loaded .okapi) valid
    (f := fun e => e.report.stages.length) (b := 1) (by decide +kernel)
  obtain ⟨cancelled, stages⟩ := Prod.mk.inj shows
  rw [ran, ran'] at same
  have agree : e.withoutStages = e'.withoutStages := Except.ok.inj same
  have status : e.report.status = e'.report.status := congrArg (·.report.status) agree
  have world : e.world.withoutStages = e'.world.withoutStages := congrArg (·.world) agree
  have resources : e.world.resources = e'.world.resources := congrArg (·.resources) world
  exact ⟨rfl, e, e', ran, ran', cancelled, stages, status ▸ cancelled, shows', resources⟩

/-! ### Two workers -/

/-- The flow for both of them on the ledger. -/
def contendingFlow (modules : StageNodes) : Flow (Stage Store) :=
  (contentionPlan modules).flow.map (·.toStage Ledger.collaborators .noRetry)

theorem contending_prepare {mode : ModuleInstallerMode} {modules : StageNodes}
    (made : FlowPlan.make { moduleInstaller := mode } (named "first") contention
      { applications := contenders, entitled := [] } = .ok (contentionPlan modules)) :
    ((contending Ledger.collaborators .noRetry).withInstaller mode).prepare .empty (named "first")
      contention = .ok (contentionPlan modules) :=
  prepare_eq_ok ⟨contention_load rfl .noRetry, contention_valid, made⟩

/-- One by one, each of the two may get the module that the other one lacks: both are cancelled. -/
theorem oneByOne_mayRun :
    ∃ r, (contendingFlow oneByOne).MayRun r ∧
      (replay? (contendingFlow oneByOne).leaf? ⟨.empty, .empty⟩ r.told).map (fun m =>
        (m.world.entitledIds "t",
          ((contendingFlow oneByOne).eventsOf r).any Event.isFinishedFlow))
        = some ([], false) := by
  -- The first application gets `m-1.0.0`, then the second one gets `n-1.0.0`; the other calls come
  -- afterwards.
  have ran : (contendingFlow oneByOne).MayRun _ :=
    .ended rfl (.ignored
      (.parallel
        (.cons
          (.flow (.ended rfl (.stopped
            (.parallel
              (.cons (.stage (.ok ()))
                (.cons (.stage (.error (refusedFor "n-1.0.0"))) .nil (.of_mix [] _ _))
                (.of_mix [] _ _))
              (.refl _))
            rfl (.cons (.cancelled (.ok ())) .nil))))
          (.cons
            (.flow (.ended rfl (.stopped
              (.parallel
                (.cons (.stage (.error (refusedFor "m-1.0.0")))
                  (.cons (.stage (.ok ())) .nil (.of_mix [] _ _))
                  (.of_mix [] _ _))
                (.refl _))
              rfl (.cons (.cancelled (.ok ())) .nil))))
            .nil (.of_mix [] _ _))
          (.of_mix [true, true, true, false, false, false, false, false] _ _))
        (.refl _))
      rfl .nil)
  exact ⟨_, ran, by decide +kernel⟩

/-- In batches, one of the two finishes. -/
theorem atOnce_finishes {r : NodeResult} {m : Machine Store}
    (ran : (contendingFlow atOnce).MayRunOn .empty r m) :
    ∃ t ∈ r.told, t.event.isFinishedFlow := by
  obtain ⟨ran, replayed⟩ := ran
  obtain ⟨r₁, r₂, told, one, other, mixed, within, calls⟩ := ran.pair rfl rfl rfl
  have replayed : replay? (contendingFlow atOnce).leaf? ⟨.empty, .empty⟩ told = some m := by
    rwa [← replay?_calls, ← calls, replay?_calls]
  cases one with
  | flow one =>
    cases other with
    | flow other =>
      rcases one.two_stages rfl rfl with finished | ⟨stage, reason, fails⟩ | ⟨stage, reason, only⟩
      · exact ⟨_, within _ (mixed.mem.mpr (.inl finished)), rfl⟩
      · exact absurd (mixed.mem.mpr (.inl fails)) (replay?_no_error replayed rfl fun m => rfl)
      rcases other.two_stages rfl rfl with
        finished | ⟨stage, reason, fails⟩ | ⟨stage', reason', only'⟩
      · exact ⟨_, within _ (mixed.mem.mpr (.inr finished)), rfl⟩
      · exact absurd (mixed.mem.mpr (.inr fails)) (replay?_no_error replayed rfl fun m => rfl)
      -- Both batches fail, but the one that is called first meets the empty store.
      have among := mixed.filter Told.isCall
      rw [only, only'] at among
      rw [← replay?_calls] at replayed
      generalize told.filter Told.isCall = calls at among replayed
      cases among with
      | left => exact absurd rfl (replay?_error_first rfl replayed)
      | right => exact absurd rfl (replay?_error_first rfl replayed)

/-- Two workers entitle a tenant to two applications with the same modules, and go on if one fails.
One by one, each application may get the module that the other one lacks: no flow finishes, and the
tenant is entitled to nothing. In batches, the application whose batch is made first gets both
modules: some flow finishes, whichever batch that is, and with one worker it is the first one. -/
theorem execute_modes_contending :
    let s := contending Ledger.collaborators .noRetry
    contention.type = .entitle ∧
      (∃ e, (s.withInstaller .folio).MayExecute .empty (named "first") contention e ∧
        e.events.any Event.isFinishedFlow = false ∧ e.world.entitledIds "t" = []) ∧
      (∃ e, (s.withInstaller .okapi).execute .empty (named "first") contention = .ok e ∧
        e.world.entitledIds "t" = ["a-1.0.0"]) ∧
      ∀ e, (s.withInstaller .okapi).MayExecute .empty (named "first") contention e →
        e.events.any Event.isFinishedFlow = true := by
  intro s
  obtain ⟨oneByOne_made, atOnce_made⟩ := contention_make
  refine ⟨rfl, ?_, ?_, ?_⟩
  · obtain ⟨r, ran, shows⟩ := oneByOne_mayRun
    obtain ⟨m, replayed, shows⟩ := Option.map_eq_some_iff.mp shows
    obtain ⟨entitled, unfinished⟩ := Prod.mk.inj shows
    obtain ⟨e, comes, events, kept⟩ := exists_mayRunPlan (s := s.withInstaller .folio)
      keepsEntitlements (f := contendingFlow oneByOne) rfl ⟨ran, replayed⟩
    exact ⟨e, ⟨_, contending_prepare oneByOne_made, comes⟩, events ▸ unfinished,
      (kept "t").trans entitled⟩
  · exact execute_of_made (named "first") (s := s.withInstaller .okapi) (r := contention)
      (l := loading [] contenders) (contention_load rfl .noRetry) contention_valid
      (f := fun e => e.world.entitledIds "t") (by decide +kernel)
  · rintro e ⟨plan, planned, r, m, ran, rfl⟩
    obtain rfl : contentionPlan atOnce = plan :=
      Except.ok.inj ((contending_prepare atOnce_made).symm.trans planned)
    obtain ⟨t, told, finished⟩ := atOnce_finishes ran
    refine List.any_eq_true.mpr ⟨t.event, ?_, finished⟩
    exact List.mem_append_right _ (List.mem_map_of_mem told)

end Service

end Provisioning
