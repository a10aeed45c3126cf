import Provisioning.Entitlement.FlowPlan
import Provisioning.Entitlement.Validation
import Provisioning.Flow.Run
import Provisioning.Registry
import Provisioning.Store.Recorder

/-!
# The service

The service takes requests: it looks up the applications, checks the request, makes a flow of it and
runs it. What happens in the run is recorded in the store of the world.
-/

namespace Provisioning

/-- An installation that takes requests. -/
structure Service (σ : Type) where
  /-- What is known about applications. -/
  registry : Registry
  /-- What the installation can do. -/
  capabilities : Capabilities
  /-- How often calls are tried. -/
  retry : RetryConfig
  /-- The other systems. -/
  collaborators : Collaborators σ

/-- What a request is about. -/
structure LoadedRequest where
  /-- The requested applications. -/
  applications : List Application
  /-- The applications that the tenant has. -/
  entitled : List Application
  /-- The plan of a request for a state. -/
  plan : Option TransitionPlan

namespace LoadedRequest

/-- The applications of the tenant that the request is checked against. A request for a state
revokes all those whose names it does not mention, so they do not count. -/
def checkedEntitled (l : LoadedRequest) (type : EntitlementType) : List Application :=
  if type = .state then
    l.entitled.filter fun a => (l.applications.map (·.name)).contains a.name
  else
    l.entitled

/-- What checks look at. -/
def context (l : LoadedRequest) (type : EntitlementType) : ValidationContext :=
  { type, applications := l.applications, entitled := l.checkedEntitled type }

end LoadedRequest

/-- A run of a request. -/
structure Execution (σ : Type) where
  /-- The flows of applications, in order. -/
  applicationFlows : List ApplicationFlowRef
  /-- The report. -/
  report : FlowReport
  /-- What happened. -/
  events : List Event
  /-- The world afterwards. -/
  world : σ

namespace Service

variable {σ : Type}

/-- The plan that leads a tenant to a set of applications. -/
def planState (s : Service σ) (w : σ) (tenantId : String) (desired : List String) :
    Except Refusal TransitionPlan :=
  TransitionPlan.ofIds ((s.collaborators.store w).entitledIds tenantId) desired

/-- The plan that leads a tenant to a set of applications, all of which have to be identifiers. -/
def plan (s : Service σ) (w : σ) (tenantId : String) (desired : List String) :
    Except Failure TransitionPlan :=
  Failure.ofRefusal do
    desired.forM fun id => discard (VersionedName.parse id)
    s.planState w tenantId desired

/-- Looks up what a request is about. -/
def load (s : Service σ) (w : σ) (r : EntitlementRequest) : Except Failure LoadedRequest := do
  Failure.ofRefusal r.check
  let applications ← s.registry.find r.uniqueIds
  let entitled ← (s.registry.find ((s.collaborators.store w).entitledIds r.tenantId)).mapError
    .entitledMissing
  let plan ←
    if r.type = .state then
      some <$> Failure.ofRefusal (s.planState w r.tenantId r.uniqueIds)
    else
      pure none
  return { applications, entitled, plan }

/-- Checks a request and makes a flow of it. -/
def prepare (s : Service σ) (w : σ) (ids : FlowIds) (r : EntitlementRequest) :
    Except Failure FlowPlan := do
  let loaded ← s.load w r
  Failure.ofRefusal (loaded.context r.type).validate
  FlowPlan.make s.capabilities ids r
    { applications := loaded.applications, entitled := loaded.entitled, plan := loaded.plan }

/-- Runs one check on a request. -/
def validate (s : Service σ) (w : σ) (r : EntitlementRequest) (validator : String) :
    Except Failure Unit := do
  let loaded ← s.load w r
  Failure.ofRefusal ((loaded.context r.type).runNamed validator)

/-- Runs the flow of a request with one worker and records it. -/
def runPlan (s : Service σ) (w : σ) (plan : FlowPlan) : Execution σ :=
  let run := (plan.flow.map (·.toStage s.collaborators s.retry)).run w
  let world := run.machine.world
  { applicationFlows := plan.applicationFlows
    report := run.report
    events := run.events
    world := s.collaborators.withStore world
      ((s.collaborators.store world).recordAll run.events) }

/-- Runs a request with one worker. -/
def execute (s : Service σ) (w : σ) (ids : FlowIds) (r : EntitlementRequest) :
    Except Failure (Execution σ) :=
  (s.prepare w ids r).map (s.runPlan w)

end Service

end Provisioning
