import Provisioning.Entitlement.Capabilities
import Provisioning.Entitlement.Request
import Provisioning.Entitlement.Stage
import Provisioning.Failure
import Provisioning.Layering.Applications
import Provisioning.Layering.Modules
import Provisioning.Plan

/-!
# Flows for requests

A request becomes a flow with one parallel group for each layer of applications, in which each
application has a flow of its own. Applications come after those that they depend on and go before
them. The flow of an application that comes works on modules, routes, auth resources and the
entitlement in this order, that of an application that goes in the opposite one.
-/

namespace Provisioning

/-- The identifiers of the flows to be made. -/
structure FlowIds where
  /-- The identifier of the outermost flow. -/
  root : String
  /-- The identifiers of the flows of applications, in the order in which they are made. -/
  application : Nat → String

/-- What a flow is made from. -/
structure FlowInput where
  /-- The requested applications, each once. -/
  applications : List Application
  /-- The applications that the tenant has. -/
  entitled : List Application
  /-- The plan, which a request for a state needs. -/
  plan : Option TransitionPlan := none

/-- The flow of an application within the flow of a request. -/
structure ApplicationFlowRef where
  /-- The application. -/
  applicationId : String
  /-- The flow. -/
  flowId : String
  /-- What is done with the application. -/
  type : EntitlementType
  /-- Whether the flow is not to be run. -/
  skipped : Bool
deriving DecidableEq, Repr

/-- A flow that is ready to run. -/
structure FlowPlan where
  /-- The flow. -/
  flow : Flow EntitlementStage
  /-- The flows of applications in it, in order. -/
  applicationFlows : List ApplicationFlowRef

/-- The reason given for an application that is requested more than once. -/
def duplicateReason : String := "Duplicate application id in request"

/-- The nodes of a flow of stages. -/
abbrev StageNodes := List (FlowNode EntitlementStage)

/-- What is to be done with an application: the type, and the nodes that do it. -/
structure ApplicationWork where
  /-- What is done. -/
  type : EntitlementType
  /-- The nodes of the flow. -/
  nodes : StageNodes

namespace FlowPlan

/-! ## Modules -/

/-- Groups of stages, one for each layer of changes that is not empty. -/
def moduleGroups (groupName : String) (layers : List (List ModuleChange)) : StageNodes :=
  (layers.filter (!·.isEmpty)).mapIdx fun i layer =>
    .parallel s!"{groupName}-l{i}" (layer.map fun change => .stage (.module change))

/-- The name of the groups of modules that run on the server. -/
def backendGroup : String := "modules"

/-- The name of the groups of modules of the user interface. -/
def uiGroup : String := "ui-modules"

/-- The nodes that make one batch of changes, if there are any. -/
def batch (stage : List ModuleChange → EntitlementStage) (changes : List ModuleChange) :
    StageNodes :=
  if changes.isEmpty then [] else [.stage (stage changes)]

/-- The nodes that change the modules of an application that comes: first those on the server. -/
def moduleNodes (mode : ModuleInstallerMode) (backend ui : List (List ModuleChange)) : StageNodes :=
  match mode with
  | .folio => moduleGroups backendGroup backend ++ moduleGroups uiGroup ui
  | .okapi => batch .installBatch (backend.flatten ++ ui.flatten)

/-- The nodes that change the modules of an application that goes: those on the server last. -/
def moduleRemovalNodes (mode : ModuleInstallerMode) (backend ui : List (List ModuleChange)) :
    StageNodes :=
  match mode with
  | .folio => moduleGroups uiGroup ui ++ moduleGroups backendGroup backend
  | .okapi => batch .uninstallBatch (ui.flatten ++ backend.flatten)

/-- The changes of a sequence of modules, layer by layer. -/
def changesOf (change : ModuleStep → Option ModuleChange) (s : ModuleSequence) :
    List (List ModuleChange) :=
  s.layers.map (·.filterMap change)

/-- What an upgrade does with a module: a module of a new name is enabled, one of another
identifier takes the place of its predecessor, and one that is the same stays as it is. -/
def upgradeChange? (s : ModuleStep) : Option ModuleChange :=
  match s.old with
  | none => some (.enable s.new.id)
  | some old => if old.id = s.new.id then none else some (.upgrade old.id s.new.id)

/-! ## Applications -/

/-- A node that there is only under a condition. -/
def onlyIf (condition : Bool) (stage : EntitlementStage) : StageNodes :=
  if condition then [.stage stage] else []

/-- What entitles the tenant to an application. -/
def entitleWork (c : Capabilities) (a : Application) : Except Refusal ApplicationWork := do
  let backend ← moduleSequence a none .entitle .backend
  let ui ← moduleSequence a none .entitle .ui
  let changes := changesOf fun s => some (.enable s.new.id)
  return {
    type := .entitle
    nodes := moduleNodes c.moduleInstaller (changes backend) (changes ui)
      ++ onlyIf (c.gateway == .kong) (.createRoutes a.id a.moduleIds)
      ++ onlyIf (c.auth == .keycloak) (.createResources a.id a.moduleIds)
      ++ [.stage (.saveEntitlement a.id)] }

/-- What revokes an application. -/
def revokeWork (c : Capabilities) (a : Application) : Except Refusal ApplicationWork := do
  let backend ← moduleSequence a none .revoke .backend
  let ui ← moduleSequence a none .revoke .ui
  let changes := changesOf fun s => some (.disable s.new.id)
  return {
    type := .revoke
    nodes := onlyIf (c.auth == .keycloak) (.removeResources a.id a.moduleIds)
      ++ onlyIf (c.gateway == .kong) (.removeRoutes a.id a.moduleIds)
      ++ moduleRemovalNodes c.moduleInstaller (changes backend) (changes ui)
      ++ [.stage (.removeEntitlement a.id)] }

/-- What moves the tenant from one version of an application to another one. -/
def upgradeWork (c : Capabilities) (a old : Application) : Except Refusal ApplicationWork := do
  let backend ← moduleSequence a (some old) .upgrade .backend
  let ui ← moduleSequence a (some old) .upgrade .ui
  let deprecated := (backend.deprecated ++ ui.deprecated).flatten.map (·.id)
  let upgrade : ApplicationUpgrade :=
    { replacedId := old.id, id := a.id, replacedModuleIds := old.moduleIds
      moduleIds := a.moduleIds }
  return {
    type := .upgrade
    nodes := moduleNodes c.moduleInstaller (changesOf upgradeChange? backend)
        (changesOf upgradeChange? ui)
      ++ onlyIf (!deprecated.isEmpty) (.deprecatedModules deprecated)
      ++ onlyIf (c.gateway == .kong) (.updateRoutes upgrade)
      ++ onlyIf (c.auth == .keycloak) (.updateResources upgrade)
      ++ [.stage (.updateEntitlement old.id a.id)] }

/-- The version of an application that the tenant has; the last one, if there are several. -/
def installedVersion (entitled : List Application) (a : Application) :
    Except Refusal Application :=
  match entitled.reverse.find? (·.name = a.name) with
  | some old => .ok old
  | none => .error (.nothingToUpgrade a.name)

/-! ## Layers -/

/-- The flow of an application. -/
structure ApplicationFlow where
  /-- What it refers to. -/
  ref : ApplicationFlowRef
  /-- Its nodes. -/
  nodes : StageNodes

namespace ApplicationFlow

/-- The flow as a node of the flow of the request. -/
def node (f : ApplicationFlow) : FlowNode EntitlementStage :=
  .flow
    { id := f.ref.flowId
      params := .ofList
        [(applicationIdParam, .text f.ref.applicationId), (typeParam, .text f.ref.type.text)]
      skipReason := if f.ref.skipped then some duplicateReason else none }
    f.nodes

end ApplicationFlow

/-- How often an identifier is repeated in a request. -/
def repetitions (ids : List String) (id : String) : Nat := ids.count id - 1

/-- The flows for one application: that which does the work, and one that is skipped for each
repetition. -/
def flowsFor (ids : FlowIds) (start : Nat) (applicationId : String) (work : ApplicationWork)
    (repetitions : Nat) : List ApplicationFlow :=
  (List.range (repetitions + 1)).map fun i =>
    { ref := { applicationId, flowId := ids.application (start + i), type := work.type
               skipped := i != 0 }
      nodes := if i = 0 then work.nodes else [] }

/-- How the layers of a set of applications become flows. -/
structure Layout where
  /-- The name of the groups. -/
  groupName : String
  /-- The applications by their identifiers. -/
  applications : OrderedMap String Application
  /-- How often each identifier is repeated. -/
  repetitions : String → Nat
  /-- What is done with an application. -/
  work : Application → Except Refusal ApplicationWork

namespace Layout

/-- The flows of a layer; the first one takes the given place among all. -/
def layerFlows (l : Layout) (ids : FlowIds) (start : Nat) :
    List String → Except Refusal (List ApplicationFlow)
  | [] => .ok []
  | id :: rest =>
    match l.applications.get? id with
    | none => l.layerFlows ids start rest
    | some a => do
      let flows := flowsFor ids start id (← l.work a) (l.repetitions id)
      return flows ++ (← l.layerFlows ids (start + flows.length) rest)

/-- The flows of layers, layer by layer; the first one takes the given place among all. -/
def allFlows (l : Layout) (ids : FlowIds) (start : Nat) :
    List (List String) → Except Refusal (List (List ApplicationFlow))
  | [] => .ok []
  | layer :: rest => do
    let flows ← l.layerFlows ids start layer
    return flows :: (← l.allFlows ids (start + flows.length) rest)

end Layout

/-- The groups of layers. -/
def groups (groupName : String) (layers : List (List ApplicationFlow)) : StageNodes :=
  layers.mapIdx fun i flows => .parallel s!"{groupName}-l{i}" (flows.map (·.node))

/-- The name of the groups of applications that come, or of all that a request names. -/
def requestedGroup : String := "appi"

/-- The name of the groups of applications that go, in a request for a state. -/
def revokedGroup : String := "appr"

/-- The flow of a request without its nodes. -/
def rootHeader (ids : FlowIds) (r : EntitlementRequest) : FlowHeader :=
  { id := ids.root
    strategy := r.strategy
    params := .ofList
      [(tenantParam, .text r.tenantId), (typeParam, .text r.type.text),
        (purgeParam, .bool r.purge)] }

/-- The layout of the applications of a request. -/
def layout (r : EntitlementRequest) (applications : List Application)
    (work : Application → Except Refusal ApplicationWork) : Layout :=
  { groupName := requestedGroup
    applications := .ofList (applications.map fun a => (a.id, a))
    repetitions := repetitions r.applicationIds
    work }

/-- The layout of the applications of a state, none of which is repeated. -/
def stateLayout (groupName : String) (applications : List Application)
    (work : Application → Except Refusal ApplicationWork) : Layout :=
  { groupName
    applications := .ofList (applications.map fun a => (a.id, a))
    repetitions := fun _ => 0
    work }

/-- The groups of a layout, with the flows in them. -/
def Layout.build (l : Layout) (ids : FlowIds) (start : Nat) (layers : List (List String)) :
    Except Refusal (StageNodes × List ApplicationFlowRef) := do
  let flows ← l.allFlows ids start layers
  return (groups l.groupName flows, flows.flatten.map (·.ref))

/-- The nodes for a request for a state: what goes, then what comes. -/
def stateNodes (c : Capabilities) (ids : FlowIds) (input : FlowInput) (plan : TransitionPlan) :
    Except Refusal (StageNodes × List ApplicationFlowRef) := do
  let revoked := input.entitled.filter fun a => plan.revoke.contains a.name
  let layers ← (InstallationGraph.ofApplications revoked).removalLayers
  let (goingNodes, going) ←
    (stateLayout revokedGroup revoked (revokeWork c)).build ids 0 layers
  let targets := input.applications.filter fun a =>
    plan.entitle.contains a.name || plan.upgrade.contains a.name
  let layers ← (InstallationGraph.ofApplications targets).installationLayers
  let work (a : Application) : Except Refusal ApplicationWork :=
    if plan.upgrade.contains a.name then do
      upgradeWork c a (← installedVersion input.entitled a)
    else
      entitleWork c a
  let (comingNodes, coming) ←
    (stateLayout requestedGroup targets work).build ids going.length layers
  return (goingNodes ++ comingNodes, going ++ coming)

/-- The nodes for a request that names applications. -/
def requestNodes (c : Capabilities) (ids : FlowIds) (r : EntitlementRequest) (input : FlowInput) :
    Except Failure (StageNodes × List ApplicationFlowRef) :=
  let graph := InstallationGraph.ofApplications input.applications
  let build (layers : Except Refusal (List (List String)))
      (work : Application → Except Refusal ApplicationWork) :
      Except Failure (StageNodes × List ApplicationFlowRef) :=
    Failure.ofRefusal do (layout r input.applications work).build ids 0 (← layers)
  match r.type with
  | .entitle => build graph.installationLayers (entitleWork c)
  | .revoke => build graph.removalLayers (revokeWork c)
  | .upgrade =>
    build graph.installationLayers fun a => do
      upgradeWork c a (← installedVersion input.entitled a)
  | .state =>
    match input.plan with
    | some plan => Failure.ofRefusal (stateNodes c ids input plan)
    | none => .error .planRequired

/-- The flow for a request. -/
def make (c : Capabilities) (ids : FlowIds) (r : EntitlementRequest) (input : FlowInput) :
    Except Failure FlowPlan := do
  let (nodes, applicationFlows) ← requestNodes c ids r input
  return { flow := { header := rootHeader ids r, nodes }, applicationFlows }

end FlowPlan

end Provisioning
