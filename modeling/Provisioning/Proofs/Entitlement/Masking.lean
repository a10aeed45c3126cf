import Provisioning.Entitlement.Service
import Provisioning.Proofs.Collaborator.Delays
import Provisioning.Proofs.Collaborator.Transience
import Provisioning.Proofs.Entitlement.Schedules
import Provisioning.Proofs.Flow.Likeness

/-!
# Failures that do not show

A platform that cannot be reached for fewer calls of an operation on a target than there are
attempts does not change what comes of a request with one worker: neither the report, nor the store,
nor what the platform keeps. Every call of a stage goes through its attempts, in a run as well as when
it is undone, and the calls that are refused have changed nothing. This fails with two workers, and
where the delay between two attempts cannot be computed (`Service.execute_unmasked`).
-/

namespace Provisioning

variable {α β : Type} {retry : RetryConfig}

/-- Work that gives the same in a troubled world. -/
def Steady (limit : Nat) (work : Simulation → α × Simulation) : Prop :=
  ∀ ⦃calm w⦄, Simulation.Troubled limit calm w → Agree limit (work calm) (work w)

theorem Steady.map {limit : Nat} {work : Simulation → α × Simulation} (h : Steady limit work)
    (f : α → β) : Steady limit fun w => (f (work w).1, (work w).2) := by
  intro calm w troubled
  obtain ⟨same, after⟩ := h troubled
  exact ⟨congrArg f same, after⟩

namespace Collaborators

section

variable {limit : Nat} (id tenantId : String)

theorem steady_save : Steady limit (Simulation.collaborators.save id tenantId) := by
  intro calm w troubled
  unfold save
  simp only [Simulation.collaborators, troubled.store]
  exact ⟨rfl, rfl, troubled.platform⟩

theorem steady_remove : Steady limit (Simulation.collaborators.remove id tenantId) := by
  intro calm w troubled
  unfold remove
  simp only [Simulation.collaborators, troubled.store]
  exact ⟨rfl, rfl, troubled.platform⟩

theorem steady_removeExisting :
    Steady limit (Simulation.collaborators.removeExisting id tenantId) := by
  intro calm w troubled
  unfold removeExisting
  simp only [Simulation.collaborators, troubled.store]
  cases calm.store.removeEntitlement tenantId id with
  | mk found store => cases found <;> exact ⟨rfl, rfl, troubled.platform⟩

theorem steady_replace (failure old : String) :
    Steady limit (Simulation.collaborators.replace failure old id tenantId) := by
  intro calm w troubled
  unfold replace
  simp only [Simulation.collaborators, troubled.store]
  cases calm.store.updateEntitlement tenantId old id with
  | ok store => exact ⟨rfl, rfl, troubled.platform⟩
  | error e => exact ⟨rfl, troubled⟩

end

/-- What the attempts of a call come to. -/
theorem steady_attempt (delays : ∀ n, n + 1 < retry.attempts → (retry.delay? n).isSome = true)
    {call : Call Simulation α} (h : Interruptible retry.attempts call) (failure : String) :
    Steady retry.attempts (attempt retry failure call) := by
  intro calm w troubled
  obtain ⟨pending, masked⟩ := h
  obtain ⟨same, after⟩ := masked.run delays troubled
  unfold attempt
  rw [masked.run_calm troubled]
  dsimp only
  rw [same]
  cases (call calm).1 with
  | ok a => exact ⟨rfl, after⟩
  | error e => exact ⟨rfl, after⟩

variable (delays : ∀ n, n + 1 < retry.attempts → (retry.delay? n).isSome = true)
  (tenantId : String)

include delays

theorem steady_change (change : ModuleChange) :
    Steady retry.attempts (Simulation.collaborators.change retry tenantId change) :=
  steady_attempt delays (interruptible_applyChange tenantId change) _

theorem troubled_revert {calm w : Simulation}
    (troubled : Simulation.Troubled retry.attempts calm w) (changes : List ModuleChange) :
    Simulation.Troubled retry.attempts
      (Simulation.collaborators.revert retry tenantId calm changes)
      (Simulation.collaborators.revert retry tenantId w changes) := by
  induction changes generalizing calm w with
  | nil => exact troubled
  | cons change rest ih => exact ih (steady_change delays tenantId change.inverse troubled).2

theorem steady_changeAll (made changes : List ModuleChange) :
    Steady retry.attempts (Simulation.collaborators.changeAll retry tenantId made changes) := by
  intro calm w troubled
  induction changes generalizing calm w made with
  | nil => exact ⟨rfl, troubled⟩
  | cons change rest ih =>
    obtain ⟨same, after⟩ := steady_change delays tenantId change troubled
    unfold changeAll
    generalize Simulation.collaborators.change retry tenantId change calm = x at same after ⊢
    generalize Simulation.collaborators.change retry tenantId change w = y at same after ⊢
    obtain ⟨outcome, calm'⟩ := x
    obtain ⟨outcome', w'⟩ := y
    obtain rfl : outcome' = outcome := same
    cases outcome' with
    | ok done => exact ih _ after
    | error e => exact ⟨rfl, troubled_revert delays tenantId after made⟩

end Collaborators

/-! ## Stages -/

namespace EntitlementStage

variable (delays : ∀ n, n + 1 < retry.attempts → (retry.delay? n).isSome = true)
  (tenantId : String)

theorem steady_ofUnit {limit : Nat} {work : Simulation → Except StageError Unit × Simulation}
    (h : Steady limit work) : Steady limit (StageWork.ofUnit work) :=
  h.map fun outcome => outcome.map fun _ => none

include delays

theorem steady_call {call : Call Simulation Unit} (h : Interruptible retry.attempts call)
    (failure : String) :
    Steady retry.attempts (StageWork.ofUnit (Collaborators.attempt retry failure call)) :=
  steady_ofUnit (Collaborators.steady_attempt delays h failure)

theorem steady_execute (s : EntitlementStage) :
    Steady retry.attempts (s.execute Simulation.collaborators retry tenantId) := by
  cases s with
  | module change => exact steady_ofUnit (Collaborators.steady_change delays tenantId change)
  | installBatch changes =>
    exact steady_ofUnit (Collaborators.steady_changeAll delays tenantId [] changes)
  | uninstallBatch changes =>
    exact steady_ofUnit (Collaborators.steady_changeAll delays tenantId [] changes)
  | deprecatedModules moduleIds =>
    exact (Collaborators.steady_changeAll delays tenantId [] (moduleIds.map .disable)).map
      fun outcome => outcome.map fun _ => some (Data.ofTexts moduleIds)
  | createRoutes id moduleIds =>
    exact (Collaborators.steady_attempt delays (interruptible_createRoutes tenantId id moduleIds)
      "Failed to create routes").map
        fun outcome => outcome.map fun routes => some (Data.ofTexts routes)
  | removeRoutes id moduleIds => exact steady_call delays (interruptible_removeRoutes tenantId id) _
  | updateRoutes u =>
    exact steady_call delays (interruptible_updateRoutes tenantId u.replacedId u.id u.moduleIds) _
  | createResources id moduleIds =>
    exact steady_call delays (interruptible_createResources tenantId id moduleIds) _
  | removeResources id moduleIds =>
    exact steady_call delays (interruptible_removeResources tenantId id) _
  | updateResources u =>
    exact steady_call delays
      (interruptible_updateResources tenantId u.replacedId u.id u.moduleIds) _
  | saveEntitlement id => exact steady_ofUnit (Collaborators.steady_save id tenantId)
  | removeEntitlement id => exact steady_ofUnit (Collaborators.steady_removeExisting id tenantId)
  | updateEntitlement old id =>
    exact steady_ofUnit (Collaborators.steady_replace id tenantId _ old)

theorem steady_cancel (s : EntitlementStage) (result : Option Data) :
    Steady retry.attempts (s.cancel Simulation.collaborators retry result tenantId) := by
  cases s with
  | module change =>
    exact steady_ofUnit (Collaborators.steady_change delays tenantId change.inverse)
  | installBatch changes =>
    exact steady_ofUnit (Collaborators.steady_changeAll delays tenantId [] _)
  | uninstallBatch changes =>
    exact steady_ofUnit (Collaborators.steady_changeAll delays tenantId [] _)
  | deprecatedModules moduleIds =>
    exact steady_ofUnit (Collaborators.steady_changeAll delays tenantId [] _)
  | createRoutes id moduleIds => exact steady_call delays (interruptible_removeRoutes tenantId id) _
  | removeRoutes id moduleIds =>
    exact steady_call delays (interruptible_createRoutes tenantId id moduleIds).map _
  | updateRoutes u =>
    exact steady_call delays
      (interruptible_updateRoutes tenantId u.id u.replacedId u.replacedModuleIds) _
  | createResources id moduleIds =>
    exact steady_call delays (interruptible_removeResources tenantId id) _
  | removeResources id moduleIds =>
    exact steady_call delays (interruptible_createResources tenantId id moduleIds) _
  | updateResources u =>
    exact steady_call delays
      (interruptible_updateResources tenantId u.id u.replacedId u.replacedModuleIds) _
  | saveEntitlement id => exact steady_ofUnit (Collaborators.steady_remove id tenantId)
  | removeEntitlement id => exact steady_ofUnit (Collaborators.steady_save id tenantId)
  | updateEntitlement old id =>
    exact steady_ofUnit (Collaborators.steady_replace old tenantId _ id)

end EntitlementStage

/-! ## Runs -/

/-- Runs are compared in everything, in worlds of which one is troubled. -/
def masking (limit : Nat) : Likeness Simulation Unit where
  machines m m' := Simulation.Troubled limit m.world m'.world ∧ m'.results = m.results
  view _ := ()
  told _ := true
  listed _ := true

theorem steady_step {limit : Nat} {work : String → StageWork Simulation}
    (h : ∀ tenantId, Steady limit (work tenantId)) (ctx : StageContext) {calm w : Simulation}
    (troubled : Simulation.Troubled limit calm w) :
    (StageWork.step work ctx w).outcome = (StageWork.step work ctx calm).outcome ∧
      (StageWork.step work ctx w).stored = (StageWork.step work ctx calm).stored ∧
      Simulation.Troubled limit (StageWork.step work ctx calm).world
        (StageWork.step work ctx w).world := by
  unfold StageWork.step
  cases ctx.scope.text? tenantParam with
  | none => exact ⟨rfl, rfl, troubled⟩
  | some tenantId =>
    obtain ⟨same, after⟩ := h tenantId troubled
    dsimp only
    generalize work tenantId calm = x at same after ⊢
    generalize work tenantId w = y at same after ⊢
    obtain ⟨outcome, calm'⟩ := x
    obtain ⟨outcome', w'⟩ := y
    obtain rfl : outcome' = outcome := same
    cases outcome' with
    | ok stored => exact ⟨rfl, rfl, after⟩
    | error e => exact ⟨rfl, rfl, after⟩

theorem respects_step {limit : Nat} {work : StageContext → String → StageWork Simulation}
    (h : ∀ ctx tenantId, Steady limit (work ctx tenantId)) :
    (masking limit).Respects fun ctx => StageWork.step (work ctx) ctx := by
  intro m m' info scope ⟨troubled, results⟩
  have context : m'.context info scope = m.context info scope := by
    unfold Machine.context
    rw [results]
  obtain ⟨outcome, stored, after⟩ := steady_step (h (m.context info scope))
    (m.context info scope) troubled
  rw [context]
  refine ⟨outcome.symm, ⟨after, ?_⟩, rfl⟩
  unfold Machine.after
  dsimp only
  rw [stored, results]

theorem indifferent_toStage
    (delays : ∀ n, n + 1 < retry.attempts → (retry.delay? n).isSome = true)
    (s : EntitlementStage) :
    (masking retry.attempts).Indifferent (s.toStage Simulation.collaborators retry) := by
  constructor
  · exact respects_step fun _ tenantId => s.steady_execute delays tenantId
  · intro call can
    obtain rfl := Option.some.inj can
    exact respects_step fun ctx tenantId => s.steady_cancel delays tenantId ctx.result?

/-- A world whose platform has the failures to come, and no others. -/
def Simulation.failing (w : Simulation) (fs : List PlannedFailure) : Simulation :=
  { w with platform := { w.platform with failures := fs } }

/-- What is seen of a run: its report and events, and what the world keeps afterwards. -/
structure Visible where
  /-- The flows of applications, in order. -/
  applicationFlows : List ApplicationFlowRef
  /-- The report. -/
  report : FlowReport
  /-- What happened. -/
  events : List Event
  /-- The store, with the entitlements and what has been recorded. -/
  store : Store
  /-- The modules of each tenant. -/
  modules : OrderedMap String (OrderedSet String)
  /-- The routes of each application. -/
  routes : OrderedMap TenantApplication (List String)
  /-- The auth resources of each application. -/
  resources : OrderedMap TenantApplication (List String)

/-- What is seen of a run on a simulated platform. -/
def Execution.visible (e : Execution Simulation) : Visible :=
  { applicationFlows := e.applicationFlows
    report := e.report
    events := e.events
    store := e.world.store
    modules := e.world.platform.modules
    routes := e.world.platform.routes
    resources := e.world.platform.resources }

namespace Service

theorem prepare_congr {σ : Type} (s : Service σ) {w w' : σ}
    (same : s.collaborators.store w' = s.collaborators.store w) (ids : FlowIds)
    (r : EntitlementRequest) : s.prepare w' ids r = s.prepare w ids r := by
  unfold prepare load planState
  rw [same]

theorem runPlan_visible {s : Service Simulation}
    (simulated : s.collaborators = Simulation.collaborators)
    (delays : ∀ n, n + 1 < s.retry.attempts → (s.retry.delay? n).isSome = true)
    {calm w : Simulation}
    (troubled : Simulation.Troubled s.retry.attempts calm w) (plan : FlowPlan) :
    (s.runPlan w plan).visible = (s.runPlan calm plan).visible := by
  obtain ⟨status, entries, events, after, -⟩ := Likeness.flow_runs rfl
    (Likeness.lists_map (indifferent_toStage delays) plan.flow.nodes)
    (show (masking s.retry.attempts).machines ⟨calm, .empty⟩ ⟨w, .empty⟩ from ⟨troubled, rfl⟩)
    (f := plan.flow.map (·.toStage Simulation.collaborators s.retry))
  simp only [masking, List.filter_true] at entries events
  unfold runPlan Execution.visible Flow.run
  rw [simulated]
  simp only [Simulation.collaborators] at status entries events after ⊢
  rw [status, entries, events, after.store, after.platform.modules, after.platform.routes,
    after.platform.resources]

/-- In runs with one worker, failures to reach the platform that concern fewer calls of each operation
on each target than there are attempts do not show, if the delays between attempts can be computed:
so they can if delays do not shrink and the longest one is a number of milliseconds with 64 bits. -/
theorem execute_masks_failures (s : Service Simulation)
    (simulated : s.collaborators = Simulation.collaborators)
    (delays : ∀ n, n + 1 < s.retry.attempts → (s.retry.delay? n).isSome = true)
    (w : Simulation) {fs : List PlannedFailure}
    (transient : PlannedFailure.Transient s.retry.attempts fs) (ids : FlowIds)
    (r : EntitlementRequest) :
    (s.execute (w.failing fs) ids r).map Execution.visible
      = (s.execute (w.failing []) ids r).map Execution.visible := by
  have troubled : Simulation.Troubled s.retry.attempts (w.failing []) (w.failing fs) :=
    ⟨rfl, rfl, rfl, rfl, rfl, transient⟩
  have prepared : s.prepare (w.failing fs) ids r = s.prepare (w.failing []) ids r := by
    refine s.prepare_congr ?_ ids r
    rw [simulated]
    rfl
  unfold execute
  rw [prepared]
  cases s.prepare (w.failing []) ids r with
  | error failure => rfl
  | ok plan => exact congrArg Except.ok (runPlan_visible simulated delays troubled plan)

/-- A simulated installation with one application, and three attempts for each call. -/
def onTrial : Service Simulation :=
  { registry := .ofList [bundle "a" "1.0.0" ["m-1.0.0"]]
    capabilities := {}
    retry := {}
    collaborators := Simulation.collaborators }

/-- The platform cannot be reached for two calls that enable the module. -/
def twoRefusals : List PlannedFailure :=
  [{ operation := .install, target := "m-1.0.0", error := .network "timeout", remaining := some 2 }]

theorem twoRefusals_transient : PlannedFailure.Transient onTrial.retry.attempts twoRefusals := by
  constructor
  · intro f hf
    obtain rfl := List.mem_singleton.1 hf
    exact ⟨⟨"timeout", rfl⟩, rfl⟩
  · intro operation target
    unfold twoRefusals
    rw [PlannedFailure.pending_cons]
    show (if _ then 2 else 0) + 0 < 3
    split <;> decide

/-- An entitlement goes through although the module is enabled only at the third attempt. -/
theorem execute_masks_two_refusals :
    (∀ n, n + 1 < onTrial.retry.attempts → (onTrial.retry.delay? n).isSome = true) ∧
      PlannedFailure.Transient onTrial.retry.attempts twoRefusals ∧
      ∃ e, onTrial.execute (Simulation.failing {} twoRefusals) (named "first")
          (requesting .entitle ["a-1.0.0"]) = .ok e ∧
        e.report.status = .finished ∧ e.world.store.isEntitled "t" "a-1.0.0" := by
  have delays (n : Nat) (_ : n + 1 < onTrial.retry.attempts) :
      (onTrial.retry.delay? n).isSome = true :=
    RetryConfig.delay?_isSome (by decide +kernel) (by decide +kernel) n
  refine ⟨delays, twoRefusals_transient, ?_⟩
  have same := execute_masks_failures onTrial rfl delays {} twoRefusals_transient (named "first")
    (requesting .entitle ["a-1.0.0"])
  have loaded : onTrial.load (Simulation.failing {} []) (requesting .entitle ["a-1.0.0"])
      = .ok (loading [] [bundle "a" "1.0.0" ["m-1.0.0"]]) := rfl
  have valid := ValidationContext.validate_of_free
    ((loading [] [bundle "a" "1.0.0" ["m-1.0.0"]]).context .entitle)
    (by decide) rfl (by decide) rfl rfl
  obtain ⟨calm, ran, shows⟩ := execute_of_made (named "first") loaded valid
    (f := fun e => (e.report.status, e.world.store.isEntitled "t" "a-1.0.0"))
    (b := (.finished, true)) (by decide +kernel)
  obtain ⟨finished, entitled⟩ := Prod.mk.inj shows
  rw [ran] at same
  obtain ⟨e, troubled, visible⟩ := Except.map_eq_ok.mp same
  refine ⟨e, troubled, ?_, ?_⟩
  · rw [← finished]
    exact congrArg (·.report.status) visible
  · rw [← entitled]
    exact congrArg (·.store.isEntitled "t" "a-1.0.0") visible

/-! ### Two workers, and delays that cannot be computed -/

/-- The platform cannot be reached for one call that enables the module. -/
def oneRefusal : List PlannedFailure :=
  [{ operation := .install, target := "m-1.0.0", error := .network "timeout", remaining := some 1 }]

theorem oneRefusal_transient : PlannedFailure.Transient 2 oneRefusal := by
  constructor
  · intro f hf
    obtain rfl := List.mem_singleton.1 hf
    exact ⟨⟨"timeout", rfl⟩, rfl⟩
  · intro operation target
    unfold oneRefusal
    rw [PlannedFailure.pending_cons]
    show (if _ then 1 else 0) + 0 < 2
    split <;> decide

/-- Two attempts for each call. -/
def twice : RetryConfig := { maxAttempts := 2 }

/-- Two attempts for each call, and the longest delay in between. -/
def patient : RetryConfig := { twice with baseDelay := .longest, maxDelay := .longest }

/-- The flow for the two applications that contend, on a simulated platform. -/
def simulatedFlow : Flow (Stage Simulation) :=
  (contentionPlan oneByOne).flow.map (·.toStage Simulation.collaborators twice)

/-- The second application may go first, with a refusal and without one. -/
theorem simulatedFlow_mayRun :
    ∃ r, simulatedFlow.MayRun r ∧ ∀ fs ∈ [[], oneRefusal],
      (replay? simulatedFlow.leaf? ⟨Simulation.failing {} fs, .empty⟩ r.told).map
        (fun m => m.world.store.entitledIds "t") = some ["b-1.0.0"] := by
  -- All that is told of the second application stands before what is told of the first one.
  have ran : simulatedFlow.MayRun _ :=
    .ended rfl (.ignored
      (.parallel
        (.cons
          (.flow (.ended rfl (.stopped
            (.parallel
              (.cons (.stage (.error (refusedFor "m-1.0.0")))
                (.cons (.stage (.error (refusedFor "n-1.0.0"))) .nil (.of_mix [] _ _))
                (.of_mix [] _ _))
              (.refl _))
            rfl .nil)))
          (.cons
            (.flow (.ended rfl (.next
              (.parallel
                (.cons (.stage (.ok ())) (.cons (.stage (.ok ())) .nil (.of_mix [] _ _))
                  (.of_mix [] _ _))
                (.refl _))
              rfl (.next (.stage (.ok ())) rfl .nil))))
            .nil (.of_mix [] _ _))
          (.of_mix (List.replicate 20 false) _ _))
        (.refl _))
      rfl .nil)
  refine ⟨_, ran, ?_⟩
  rw [List.forall_mem_cons, List.forall_mem_singleton]
  exact ⟨by decide +kernel, by decide +kernel⟩

/-- With a refusal and without one, both applications may get the modules: with one worker the first
one does, with two workers it may be the second one. -/
theorem contending_either {fs : List PlannedFailure} (few : fs ∈ [[], oneRefusal]) :
    let s := contending Simulation.collaborators twice
    (∃ e, s.execute (Simulation.failing {} fs) (named "first") contention = .ok e ∧
        e.world.store.entitledIds "t" = ["a-1.0.0"]) ∧
      ∃ e, s.MayExecute (Simulation.failing {} fs) (named "first") contention e ∧
        e.world.store.entitledIds "t" = ["b-1.0.0"] := by
  intro s
  have loaded : s.load (Simulation.failing {} fs) contention = .ok (loading [] contenders) :=
    contention_load rfl twice
  constructor
  · have shows : ∀ fs ∈ [[], oneRefusal],
        ((FlowPlan.make s.capabilities (named "first") contention
          (loading [] contenders).input).toOption.map fun plan =>
            (s.runPlan (Simulation.failing {} fs) plan).world.store.entitledIds "t")
          = some ["a-1.0.0"] := by
      rw [List.forall_mem_cons, List.forall_mem_singleton]
      exact ⟨by decide +kernel, by decide +kernel⟩
    exact execute_of_made (named "first") loaded contention_valid (shows fs few)
  · obtain ⟨r, ran, shows⟩ := simulatedFlow_mayRun
    obtain ⟨m, replayed, entitled⟩ := Option.map_eq_some_iff.mp (shows fs few)
    obtain ⟨e, comes, -, kept⟩ := exists_mayRunPlan (s := s) Simulation.keepsEntitlements
      (f := simulatedFlow) rfl ⟨ran, replayed⟩
    have prepared : s.prepare (Simulation.failing {} fs) (named "first") contention
        = .ok (contentionPlan oneByOne) :=
      prepare_eq_ok ⟨loaded, contention_valid, contention_make.1⟩
    exact ⟨e, ⟨_, prepared, comes⟩, (kept "t").trans entitled⟩

/-- A refusal shows where there are two workers, or where the delay after it cannot be computed. Of
two applications with the same modules, either one may go first, with the refusal and without it.
With the longest delay there is no second attempt, so an entitlement that goes through without the
refusal does not finish with it. -/
theorem execute_unmasked :
    let s := contending Simulation.collaborators twice
    let s' := { onTrial with retry := patient }
    (∀ retry ∈ [twice, patient], ¬retry.factor.toFloat < 1 ∧
        PlannedFailure.Transient retry.attempts oneRefusal) ∧
      (∀ fs ∈ [[], oneRefusal],
        (∃ e, s.execute (Simulation.failing {} fs) (named "first") contention = .ok e ∧
            e.world.store.entitledIds "t" = ["a-1.0.0"]) ∧
          ∃ e, s.MayExecute (Simulation.failing {} fs) (named "first") contention e ∧
            e.world.store.entitledIds "t" = ["b-1.0.0"]) ∧
      patient.delay? 0 = none ∧
      (∃ e, s'.execute (Simulation.failing {} []) (named "first")
        (requesting .entitle ["a-1.0.0"]) = .ok e ∧ e.report.status = .finished) ∧
      ∀ e, s'.execute (Simulation.failing {} oneRefusal) (named "first")
        (requesting .entitle ["a-1.0.0"]) = .ok e → e.report.status ≠ .finished := by
  intro s s'
  have valid := ValidationContext.validate_of_free
    ((loading [] [bundle "a" "1.0.0" ["m-1.0.0"]]).context .entitle)
    (by decide) rfl (by decide) rfl rfl
  have loaded (fs : List PlannedFailure) :
      s'.load (Simulation.failing {} fs) (requesting .entitle ["a-1.0.0"])
        = .ok (loading [] [bundle "a" "1.0.0" ["m-1.0.0"]]) := rfl
  refine ⟨?_, fun fs few => contending_either few, RetryConfig.delay?_longest rfl rfl, ?_, ?_⟩
  · rw [List.forall_mem_cons, List.forall_mem_singleton]
    exact ⟨⟨by decide +kernel, oneRefusal_transient⟩, by decide +kernel, oneRefusal_transient⟩
  · exact execute_of_made (named "first") (loaded []) valid (f := fun e => e.report.status)
      (by decide +kernel)
  · intro e ran
    obtain ⟨e', ran', cancelled⟩ := execute_of_made (named "first") (loaded oneRefusal) valid
      (f := fun e => e.report.status) (b := .cancelled) (by decide +kernel)
    obtain rfl : e' = e := Except.ok.inj (ran'.symm.trans ran)
    rw [cancelled]
    decide

end Service

end Provisioning
