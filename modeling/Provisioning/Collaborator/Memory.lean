import Provisioning.Collaborator.Basic

/-!
# A simulated platform

A platform in memory takes the place of the other systems for trials. It remembers the calls that it
receives, and fails where it is told to: each time, or for a number of calls.
-/

namespace Provisioning

/-- An operation of the platform. -/
inductive PlatformOperation where
  /-- A module is enabled. -/
  | install
  /-- A module takes the place of another one. -/
  | upgrade
  /-- A module is disabled. -/
  | uninstall
  /-- Routes are created. -/
  | createRoutes
  /-- Routes are removed. -/
  | removeRoutes
  /-- Routes are replaced. -/
  | updateRoutes
  /-- Auth resources are created. -/
  | createResources
  /-- Auth resources are removed. -/
  | removeResources
  /-- Auth resources are replaced. -/
  | updateResources
deriving DecidableEq, Repr

namespace PlatformOperation

/-- The word for the operation. -/
def text : PlatformOperation → String
  | install => "install"
  | upgrade => "upgrade"
  | uninstall => "uninstall"
  | createRoutes => "create-routes"
  | removeRoutes => "remove-routes"
  | updateRoutes => "update-routes"
  | createResources => "create-resources"
  | removeResources => "remove-resources"
  | updateResources => "update-resources"

/-- The operation that a word names. -/
def read? : String → Option PlatformOperation
  | "install" => some install
  | "upgrade" => some upgrade
  | "uninstall" => some uninstall
  | "create-routes" => some createRoutes
  | "remove-routes" => some removeRoutes
  | "update-routes" => some updateRoutes
  | "create-resources" => some createResources
  | "remove-resources" => some removeResources
  | "update-resources" => some updateResources
  | _ => none

end PlatformOperation

/-- A failure to come. -/
structure PlannedFailure where
  /-- The operation that fails. -/
  operation : PlatformOperation
  /-- The module or application on which it fails. -/
  target : String
  /-- How it fails. -/
  error : CollaboratorError
  /-- How many more calls fail; without a number all of them do. -/
  remaining : Option Nat
deriving DecidableEq, Repr

/-- A platform in memory. -/
structure Platform where
  /-- The modules of each tenant. -/
  modules : OrderedMap String (OrderedSet String) := .empty
  /-- The routes of each application. -/
  routes : OrderedMap TenantApplication (List String) := .empty
  /-- The auth resources of each application. -/
  resources : OrderedMap TenantApplication (List String) := .empty
  /-- The calls received, in order. -/
  calls : List String := []
  /-- The failures to come. -/
  failures : List PlannedFailure := []

namespace PlannedFailure

/-- Whether the failure concerns a call. -/
def concerns (f : PlannedFailure) (operation : PlatformOperation) (target : String) : Bool :=
  f.operation == operation && f.target == target && f.remaining != some 0

/-- The first failure that concerns a call, and the failures that are left after it. -/
def take? (operation : PlatformOperation) (target : String) :
    List PlannedFailure → Option (CollaboratorError × List PlannedFailure)
  | [] => none
  | f :: rest =>
    if f.concerns operation target then
      some (f.error, { f with remaining := f.remaining.map (· - 1) } :: rest)
    else
      (take? operation target rest).map fun (e, left) => (e, f :: left)

end PlannedFailure

namespace Platform

/-- Plans a failure. -/
def plan (p : Platform) (f : PlannedFailure) : Platform := { p with failures := p.failures ++ [f] }

/-- The modules of a tenant. -/
def modulesOf (p : Platform) (tenantId : String) : OrderedSet String :=
  (p.modules.get? tenantId).getD .empty

/-- The platform with other modules of a tenant. -/
def setModules (p : Platform) (tenantId : String) (modules : OrderedSet String) : Platform :=
  { p with modules := p.modules.insert tenantId modules }

/-- Receives a call: remembers it, then fails if a failure is planned, else performs it. -/
def receive {α : Type} (operation : PlatformOperation) (tenantId target : String)
    (perform : Call Platform α) : Call Platform α := fun p =>
  let p := { p with calls := p.calls ++ [s!"{operation.text}:{tenantId}:{target}"] }
  match PlannedFailure.take? operation target p.failures with
  | some (e, failures) => (.error e, { p with failures })
  | none => perform p

/-- Enables a module, unless it is enabled. -/
def install (tenantId moduleId : String) : Call Platform Unit :=
  receive .install tenantId moduleId fun p =>
    if (p.modulesOf tenantId).contains moduleId then
      (.error (.alreadyEnabled tenantId moduleId), p)
    else
      (.ok (), p.setModules tenantId ((p.modulesOf tenantId).insert moduleId))

/-- Disables a module and enables another one, whether or not that is enabled. -/
def upgrade (tenantId replaced moduleId : String) : Call Platform Unit :=
  receive .upgrade tenantId moduleId fun p =>
    if (p.modulesOf tenantId).contains replaced then
      (.ok (), p.setModules tenantId (((p.modulesOf tenantId).erase replaced).insert moduleId))
    else
      (.error (.notFound replaced), p)

/-- Disables a module. -/
def uninstall (tenantId moduleId : String) : Call Platform Unit :=
  receive .uninstall tenantId moduleId fun p =>
    if (p.modulesOf tenantId).contains moduleId then
      (.ok (), p.setModules tenantId ((p.modulesOf tenantId).erase moduleId))
    else
      (.error (.notFound moduleId), p)

/-- The path of the route of a module. -/
def routePath (moduleId : String) : String := "/" ++ moduleId

/-- Creates the routes of an application instead of those that it has. -/
def createRoutes (tenantId applicationId : String) (moduleIds : List String) :
    Call Platform (List String) :=
  receive .createRoutes tenantId applicationId fun p =>
    let created := moduleIds.map routePath
    (.ok created, { p with routes := p.routes.insert { tenantId, applicationId } created })

/-- Removes the routes of an application. -/
def removeRoutes (tenantId applicationId : String) : Call Platform Unit :=
  receive .removeRoutes tenantId applicationId fun p =>
    (.ok (), { p with routes := p.routes.erase { tenantId, applicationId } })

/-- Removes the routes of one application and creates those of another one. -/
def updateRoutes (tenantId replaced applicationId : String) (moduleIds : List String) :
    Call Platform Unit :=
  receive .updateRoutes tenantId applicationId fun p =>
    (.ok (), { p with
      routes := (p.routes.erase { tenantId, applicationId := replaced }).insert
        { tenantId, applicationId } (moduleIds.map routePath) })

/-- Creates the auth resources of an application instead of those that it has. -/
def createResources (tenantId applicationId : String) (moduleIds : List String) :
    Call Platform Unit :=
  receive .createResources tenantId applicationId fun p =>
    (.ok (), { p with resources := p.resources.insert { tenantId, applicationId } moduleIds })

/-- Removes the auth resources of an application. -/
def removeResources (tenantId applicationId : String) : Call Platform Unit :=
  receive .removeResources tenantId applicationId fun p =>
    (.ok (), { p with resources := p.resources.erase { tenantId, applicationId } })

/-- Removes the auth resources of one application and creates those of another one. -/
def updateResources (tenantId replaced applicationId : String) (moduleIds : List String) :
    Call Platform Unit :=
  receive .updateResources tenantId applicationId fun p =>
    (.ok (), { p with
      resources := (p.resources.erase { tenantId, applicationId := replaced }).insert
        { tenantId, applicationId } moduleIds })

end Platform

/-- A world with a store and a platform in memory. -/
structure Simulation where
  /-- The store. -/
  store : Store := .empty
  /-- The platform. -/
  platform : Platform := {}

namespace Simulation

/-- A call to the platform of a world. -/
def onPlatform {α : Type} (call : Call Platform α) : Call Simulation α := fun w =>
  let (result, platform) := call w.platform
  (result, { w with platform })

/-- The collaborators of a world with a platform in memory. -/
def collaborators : Collaborators Simulation where
  store w := w.store
  withStore w store := { w with store }
  install tenantId moduleId := onPlatform (Platform.install tenantId moduleId)
  upgrade tenantId replaced moduleId := onPlatform (Platform.upgrade tenantId replaced moduleId)
  uninstall tenantId moduleId := onPlatform (Platform.uninstall tenantId moduleId)
  installedModules tenantId w := (w.platform.modulesOf tenantId).toList
  createRoutes tenantId applicationId moduleIds :=
    onPlatform (Platform.createRoutes tenantId applicationId moduleIds)
  removeRoutes tenantId applicationId := onPlatform (Platform.removeRoutes tenantId applicationId)
  updateRoutes tenantId replaced applicationId moduleIds :=
    onPlatform (Platform.updateRoutes tenantId replaced applicationId moduleIds)
  routes tenantId applicationId w := (w.platform.routes.get? { tenantId, applicationId }).getD []
  createResources tenantId applicationId moduleIds :=
    onPlatform (Platform.createResources tenantId applicationId moduleIds)
  removeResources tenantId applicationId :=
    onPlatform (Platform.removeResources tenantId applicationId)
  updateResources tenantId replaced applicationId moduleIds :=
    onPlatform (Platform.updateResources tenantId replaced applicationId moduleIds)
  resources tenantId applicationId w :=
    (w.platform.resources.get? { tenantId, applicationId }).getD []

end Simulation

end Provisioning
