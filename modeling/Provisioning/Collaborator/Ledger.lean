import Provisioning.Application.Basic
import Provisioning.Collaborator.Basic

/-!
# The ledger

Without other systems, modules, routes and auth resources are kept in the store. A module belongs to
its name; routes and auth resources belong to their application, and are named after modules.
-/

namespace Provisioning.Ledger

/-- The kind of the resources that are modules. -/
def moduleKind : String := "module"

/-- The kind of the resources that are routes. -/
def routeKind : String := "route"

/-- The kind of the resources that permissions refer to. -/
def authKind : String := "auth-resource"

/-- The resource of a module. -/
def moduleResource (tenantId moduleId : String) : Resource :=
  { tenantId, kind := moduleKind, name := moduleId, owner := ModuleDescriptor.nameOf moduleId }

/-- The path of the route of a module. -/
def routePath (moduleId : String) : String := "/" ++ ModuleDescriptor.nameOf moduleId

/-- Enables a module, unless it is enabled. -/
def install (tenantId moduleId : String) : Call Store Unit := fun s =>
  match s.insertResource (moduleResource tenantId moduleId) with
  | (true, s) => (.ok (), s)
  | (false, s) => (.error (.alreadyEnabled tenantId moduleId), s)

/-- Disables a module and enables another one, whether or not that is enabled. -/
def upgrade (tenantId replaced moduleId : String) : Call Store Unit := fun s =>
  match s.deleteResource (moduleResource tenantId replaced) with
  | (true, s) => (.ok (), (s.insertResource (moduleResource tenantId moduleId)).2)
  | (false, s) => (.error (.notFound replaced), s)

/-- Disables a module. -/
def uninstall (tenantId moduleId : String) : Call Store Unit := fun s =>
  match s.deleteResource (moduleResource tenantId moduleId) with
  | (true, s) => (.ok (), s)
  | (false, s) => (.error (.notFound moduleId), s)

/-- Adds resources of a kind to an application, and tells which of them are new. -/
def addAll (tenantId kind owner : String) (s : Store) : List String → List String × Store
  | [] => ([], s)
  | name :: rest =>
    let (isNew, s) := s.insertResource { tenantId, kind, name, owner }
    let (added, s) := addAll tenantId kind owner s rest
    (if isNew then name :: added else added, s)

/-- Creates routes, and tells which of them are new. -/
def createRoutes (tenantId applicationId : String) (moduleIds : List String) :
    Call Store (List String) := fun s =>
  let (added, s) := addAll tenantId routeKind applicationId s (moduleIds.map routePath)
  (.ok added, s)

/-- Removes the routes of an application. -/
def removeRoutes (tenantId applicationId : String) : Call Store Unit := fun s =>
  (.ok (), (s.deleteResources tenantId routeKind applicationId).2)

/-- Removes the routes of one application and creates those of another one. -/
def updateRoutes (tenantId replaced applicationId : String) (moduleIds : List String) :
    Call Store Unit := fun s =>
  (.ok (), (createRoutes tenantId applicationId moduleIds
    (removeRoutes tenantId replaced s).2).2)

/-- Creates auth resources. -/
def createResources (tenantId applicationId : String) (moduleIds : List String) :
    Call Store Unit := fun s =>
  (.ok (), (addAll tenantId authKind applicationId s (moduleIds.map ModuleDescriptor.nameOf)).2)

/-- Removes the auth resources of an application. -/
def removeResources (tenantId applicationId : String) : Call Store Unit := fun s =>
  (.ok (), (s.deleteResources tenantId authKind applicationId).2)

/-- Removes the auth resources of one application and creates those of another one. -/
def updateResources (tenantId replaced applicationId : String) (moduleIds : List String) :
    Call Store Unit := fun s =>
  createResources tenantId applicationId moduleIds (removeResources tenantId replaced s).2

/-- The collaborators of a world that is nothing but the store. -/
def collaborators : Collaborators Store where
  store := id
  withStore _ s := s
  install := install
  upgrade := upgrade
  uninstall := uninstall
  installedModules tenantId s := s.resourceNames tenantId moduleKind none
  createRoutes := createRoutes
  removeRoutes := removeRoutes
  updateRoutes := updateRoutes
  routes tenantId applicationId s := s.resourceNames tenantId routeKind (some applicationId)
  createResources := createResources
  removeResources := removeResources
  updateResources := updateResources
  resources tenantId applicationId s := s.resourceNames tenantId authKind (some applicationId)

end Provisioning.Ledger
