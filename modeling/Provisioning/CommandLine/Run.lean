import Provisioning.CommandLine.Invocation
import Provisioning.CommandLine.Output
import Provisioning.Collaborator.Ledger
import Provisioning.Config.Basic
import Provisioning.Display.Progress
import Provisioning.Entitlement.Service

/-!
# Running commands

A command prints lines, may fail, and may change the store. One command asks before it changes
anything; everything else is a function of what it finds around it.
-/

namespace Provisioning

/-- What a command finds around it. -/
structure Environment where
  /-- The configuration, or why there is none. -/
  config : Except Failure Config
  /-- The home directory. -/
  home : String
  /-- The applications below the directory of the configuration. -/
  registry : Registry
  /-- The store in the database of the configuration; none when it cannot be opened. -/
  store : Option Store
  /-- The identifiers of the flows to be made. -/
  ids : FlowIds

/-- What comes of a command. -/
structure CommandRun where
  /-- The lines it prints. -/
  lines : List Line
  /-- Why it fails, if it does. -/
  failure : Option Failure := none
  /-- The store afterwards, if the command has opened it. -/
  store : Option Store := none

/-- A command that may ask a question. -/
inductive Dialogue where
  /-- It is done. -/
  | done (run : CommandRun)
  /-- It prints lines, asks a question and goes on as it is answered. -/
  | ask (lines : List Line) (question : String) (answered : Bool → CommandRun)

namespace CommandRun

/-- A command that fails. -/
def failed (f : Failure) : CommandRun := { lines := [], failure := some f }

/-- The run behind lines that are printed before it. -/
def after (lines : List Line) (r : CommandRun) : CommandRun := { r with lines := lines ++ r.lines }

/-- A run that fails where the result does. -/
def ofResult {α : Type} (x : Except Failure α) (run : α → CommandRun) : CommandRun :=
  match x with
  | .ok a => run a
  | .error f => failed f

end CommandRun

namespace Environment

/-- The store of the configuration. -/
def openStore (env : Environment) : Except Failure Store := do
  let config ← env.config
  match env.store with
  | some s => return s
  | none => throw (.unusableDatabase (config.databasePath env.home))

/-- The service of the configuration and its store. -/
def openService (env : Environment) : Except Failure (Service Store × Store) := do
  let config ← env.config
  let s ← env.openStore
  return ({
    registry := env.registry, capabilities := config.capabilities, retry := config.retry.config
    collaborators := Ledger.collaborators }, s)

end Environment

/-- The title of a command for requests of a type. -/
def EntitlementType.title : EntitlementType → String
  | .entitle => "Entitle"
  | .revoke => "Revoke"
  | .upgrade => "Upgrade"
  | .state => "Sync"

/-- The request of a command that changes applications. -/
def ChangeCommand.request (c : ChangeCommand) (type : EntitlementType) (runAsync : Bool) :
    EntitlementRequest :=
  { tenantId := c.tenantId, type, applicationIds := c.applicationIds
    ignoreErrors := c.ignoreErrors, purge := c.purge, runAsync }

namespace Invocation

variable (i : Invocation) (env : Environment)

/-- Lines that are printed unless only what is essential is told. -/
def unlessQuiet (lines : List Line) : List Line := if i.quiet then [] else lines

/-! ## Requests -/

/-- What is printed about a run: first its flow, if it runs in the background, then the progress,
the flows of applications and a summary. -/
def executionLines (runAsync : Bool) (e : Execution Store) : List Line :=
  (if runAsync then [.plain s!"Flow submitted: {e.report.flowId}"] else [])
    ++ i.unlessQuiet (e.events.flatMap (·.progress))
    ++ i.unlessQuiet (Output.applicationFlows e.applicationFlows)
    ++ Output.summary (0 < i.verbose) e.report

/-- Runs a request. -/
def runRequest (service : Service Store) (s : Store) (r : EntitlementRequest) : CommandRun :=
  match service.execute s env.ids r with
  | .error f => { lines := [], failure := some f, store := some s }
  | .ok e =>
    { lines := i.executionLines r.runAsync e
      failure :=
        if e.report.isSuccess then none else some (.flow e.report.flowId e.report.status)
      store := some e.world }

/-- Entitles to applications, revokes or upgrades them. -/
def runChange (type : EntitlementType) (c : ChangeCommand) (runAsync : Bool) : CommandRun :=
  .ofResult env.openService fun (service, s) =>
    (i.runRequest env service s (c.request type runAsync)).after
      (i.unlessQuiet (Line.header s!"{type.title} {c.tenantId}"))

/-- Makes the applications of a tenant those that are named. -/
def runSync (c : ChangeCommand) (confirmed dryRun : Bool) : Dialogue :=
  let planned : Except Failure (Service Store × Store × TransitionPlan) := do
    let (service, s) ← env.openService
    return (service, s, ← service.plan s c.tenantId c.applicationIds)
  match planned with
  | .error f => .done (.failed f)
  | .ok (service, s, plan) =>
    let lines := Line.header s!"Sync {c.tenantId}" ++ Output.plan plan
    let stop (more : List Line) : CommandRun := { lines := lines ++ more, store := some s }
    let run := i.runRequest env service s (c.request .state false)
    if plan.isEmpty then
      .done (stop [.success "Tenant already matches the desired applications"])
    else if dryRun then
      .done (stop [.empty, .info "Dry run - no changes made"])
    else if confirmed then
      .done (run.after lines)
    else
      .ask (lines ++ [.empty]) "Continue?" fun yes =>
        if yes then run else { lines := [.warning "Aborted"], store := some s }

/-- Tells what would be done. -/
def runPlan (tenantId : String) (applicationIds : List String) : CommandRun :=
  let planned : Except Failure (Store × TransitionPlan) := do
    let (service, s) ← env.openService
    return (s, ← service.plan s tenantId applicationIds)
  .ofResult planned fun (s, plan) =>
    { lines := Line.header s!"Plan for {tenantId}" ++ Output.plan plan
        ++ if plan.isEmpty then [.success "Nothing to change"] else []
      store := some s }

/-- Runs one check on a request of a type. -/
def runValidate (tenantId validator type : String) (applicationIds : List String) : CommandRun :=
  let checked : Except Failure Store := do
    let type ← match EntitlementType.read? type with
      | some type => pure type
      | none => throw (.refused (.unknownType type))
    let (service, s) ← env.openService
    service.validate s { tenantId, type, applicationIds } validator
    return s
  .ofResult checked fun s =>
    { lines := i.unlessQuiet [.success s!"{validator} validation passed"], store := some s }

/-! ## Queries -/

/-- Runs a query on the store. -/
def runQuery (query : Store → Except Failure (List Line)) : CommandRun :=
  let result : Except Failure (Store × List Line) := do
    let s ← env.openStore
    return (s, ← query s)
  .ofResult result fun (s, lines) => { lines, store := some s }

/-- Shows a flow. -/
def showFlow (id : String) (stages : Bool) (s : Store) : Except Failure (List Line) := do
  match ← (s.findFlow id stages).mapError .store with
  | some r => return Output.flowDetails r
  | none => throw (.refused (.flowNotFound id))

/-- Shows the flow of an application. -/
def showApplicationFlow (id : String) (stages : Bool) (s : Store) :
    Except Failure (List Line) := do
  match ← (s.findApplicationFlow id stages).mapError .store with
  | some r => return Output.applicationFlowDetails r
  | none => throw (.refused (.applicationFlowNotFound id))

/-- Lists the flows of a tenant, the latest first. -/
def listFlows (tenantId : String) (limit : Nat) (s : Store) : Except Failure (List Line) := do
  let found ← (s.findFlowsByTenant tenantId limit).mapError .store
  return Line.header s!"Flows of {tenantId}" ++
    if found.isEmpty then [Output.noFlows] else found.map Output.flow

/-- Lists the flows of an application of a tenant, the latest first. -/
def listApplicationFlows (tenantId applicationId : String) (limit : Nat) (s : Store) :
    Except Failure (List Line) := do
  let found ← (s.findApplicationFlows tenantId (some applicationId)).mapError .store
  return Line.header s!"Flows of {applicationId} for {tenantId}" ++
    if found.isEmpty then [Output.noFlows]
    else (found.reverse.take limit).flatMap Output.applicationFlow

/-! ## Commands -/

/-- Runs the command of an invocation. -/
def run : Dialogue :=
  match i.command with
  | .change type change runAsync => .done (i.runChange env type change runAsync)
  | .sync change confirmed dryRun => i.runSync env change confirmed dryRun
  | .plan tenantId ids => .done (runPlan env tenantId ids)
  | .validate tenantId validator type ids => .done (i.runValidate env tenantId validator type ids)
  | .showFlow id stages => .done (runQuery env (showFlow id stages))
  | .listFlows tenantId none limit => .done (runQuery env (listFlows tenantId limit))
  | .listFlows tenantId (some id) limit =>
    .done (runQuery env (listApplicationFlows tenantId id limit))
  | .showApplicationFlow id stages => .done (runQuery env (showApplicationFlow id stages))
  | .listEntitlements tenantId =>
    .done (runQuery env fun s => .ok (Output.entitlements tenantId (s.entitlementsOf tenantId)))
  | .completions shell =>
    .done { lines := [.plain (shell.completion programName spec.commandNames)] }

end Invocation

end Provisioning
