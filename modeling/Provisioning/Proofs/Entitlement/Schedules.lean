import Provisioning.Proofs.Entitlement.Versions
import Provisioning.Proofs.Flow.Schedules
import Provisioning.Proofs.Ledger.Cancellation

/-!
# Requests with any number of workers

What comes of a request with several workers depends on how they take turns. `Service.MayExecute`
relates a request to all that may come of it; what `Service.execute` gives, where one worker does
everything, is one of these.
-/

namespace Provisioning

namespace Service

section

variable {σ : Type} {s : Service σ} {w : σ} {ids : FlowIds} {r : EntitlementRequest}
  {e : Execution σ}

/-- What may come of running the flow of a request and recording it. -/
def MayRunPlan (s : Service σ) (w : σ) (plan : FlowPlan) (e : Execution σ) : Prop :=
  let f := plan.flow.map (·.toStage s.collaborators s.retry)
  ∃ result machine, f.MayRunOn w result machine ∧
    e = { applicationFlows := plan.applicationFlows
          report := f.reportOf result
          events := f.eventsOf result
          world := s.collaborators.withStore machine.world
            ((s.collaborators.store machine.world).recordAll (f.eventsOf result)) }

/-- What may come of running a request. -/
def MayExecute (s : Service σ) (w : σ) (ids : FlowIds) (r : EntitlementRequest)
    (e : Execution σ) : Prop :=
  ∃ plan, s.prepare w ids r = .ok plan ∧ s.MayRunPlan w plan e

theorem runPlan_mayRunPlan (s : Service σ) (w : σ) (plan : FlowPlan) :
    s.MayRunPlan w plan (s.runPlan w plan) := by
  refine ⟨_, _, Flow.run_mayRunOn _ w, ?_⟩
  rw [← Flow.run_report, ← Flow.run_eventsOf]
  rfl

/-- What comes of a request with one worker is one of the things that may come of it. -/
theorem execute_mayExecute (h : s.execute w ids r = .ok e) : s.MayExecute w ids r e := by
  obtain ⟨plan, prepared, rfl⟩ := Except.map_eq_ok.mp h
  exact ⟨plan, prepared, s.runPlan_mayRunPlan w plan⟩

/-- A run of the flow of a request leads to something that may come of the request: what is told are
its events, and the tenants are entitled to what its stages leave. -/
theorem exists_mayRunPlan (keeps : s.collaborators.KeepsEntitlements) {plan : FlowPlan}
    {f : Flow (Stage σ)} (flow : plan.flow.map (·.toStage s.collaborators s.retry) = f)
    {result : NodeResult} {machine : Machine σ} (ran : f.MayRunOn w result machine) :
    ∃ e, s.MayRunPlan w plan e ∧ e.events = f.eventsOf result ∧
      ∀ tenantId, (s.collaborators.store e.world).entitledIds tenantId
        = (s.collaborators.store machine.world).entitledIds tenantId := by
  subst flow
  refine ⟨_, ⟨result, machine, ran, rfl⟩, rfl, fun tenantId => ?_⟩
  dsimp only
  rw [keeps.store_withStore, Store.recordAll_entitledIds]

end

/-! ## Two applications that contend -/

/-- Two applications with the same modules. -/
def contenders : List Application :=
  [bundle "a" "1.0.0" ["m-1.0.0", "n-1.0.0"], bundle "b" "1.0.0" ["m-1.0.0", "n-1.0.0"]]

/-- A request for both that goes on if one of them fails. -/
def contention : EntitlementRequest :=
  { requesting .entitle ["a-1.0.0", "b-1.0.0"] with ignoreErrors := true }

/-- The flow of one of them, given the nodes for its modules. -/
def contender (modules : StageNodes) (flowId applicationId : String) :
    FlowNode EntitlementStage :=
  .flow
    { id := flowId
      params := .ofList [(applicationIdParam, .text applicationId), (typeParam, .text "ENTITLE")] }
    (modules ++ [.stage (.saveEntitlement applicationId)])

/-- The flow for both. -/
def contentionPlan (modules : StageNodes) : FlowPlan where
  flow :=
    { header := FlowPlan.rootHeader (named "first") contention
      nodes :=
        [.parallel "appi-l0"
          [contender modules "first-0" "a-1.0.0", contender modules "first-1" "b-1.0.0"]] }
  applicationFlows :=
    [⟨"a-1.0.0", "first-0", .entitle, false⟩, ⟨"b-1.0.0", "first-1", .entitle, false⟩]

/-- The modules of one of them, one by one. -/
def oneByOne : StageNodes :=
  [.parallel "modules-l0"
    [.stage (.module (.enable "m-1.0.0")), .stage (.module (.enable "n-1.0.0"))]]

/-- The modules of one of them in a batch. -/
def atOnce : StageNodes := [.stage (.installBatch [.enable "m-1.0.0", .enable "n-1.0.0"])]

/-- What a stage says that cannot enable a module because it is there. -/
def refusedFor (moduleId : String) : StageError :=
  .integration (Collaborators.changeFailure (.enable moduleId))
    (some (CollaboratorError.alreadyEnabled "t" moduleId).message)

/-- An installation with the two of them. -/
def contending {σ : Type} (c : Collaborators σ) (retry : RetryConfig) : Service σ where
  registry := .ofList contenders
  capabilities := {}
  retry
  collaborators := c

theorem contention_load {σ : Type} {c : Collaborators σ} {w : σ} (start : c.store w = .empty)
    (retry : RetryConfig) :
    (contending c retry).load w contention = .ok (loading [] contenders) := by
  unfold load
  dsimp only [contending]
  rw [start]
  rfl

theorem contention_make :
    FlowPlan.make { moduleInstaller := .folio } (named "first") contention
        { applications := contenders, entitled := [] } = .ok (contentionPlan oneByOne) ∧
      FlowPlan.make { moduleInstaller := .okapi } (named "first") contention
        { applications := contenders, entitled := [] } = .ok (contentionPlan atOnce) := by
  constructor <;> with_unfolding_all rfl

theorem contention_valid : ((loading [] contenders).context .entitle).validate = .ok () :=
  ValidationContext.validate_of_free _ (by decide) rfl (by decide) rfl rfl

end Service

end Provisioning
