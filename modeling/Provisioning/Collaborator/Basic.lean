import Provisioning.Collaborator.Change
import Provisioning.Collaborator.Retry
import Provisioning.Store.Basic

/-!
# Collaborators

Stages call other systems: one enables modules, one keeps the routes of a gateway, one the resources
that permissions refer to. `Collaborators σ` is what they can do to a world of type `σ`, which also
holds the store.
-/

namespace Provisioning

/-- What other systems can do to a world. Tenants come first, then applications or modules. -/
structure Collaborators (σ : Type) where
  /-- The store of the world. -/
  store : σ → Store
  /-- The world with another store. -/
  withStore : σ → Store → σ
  /-- Enables a module. -/
  install : String → String → Call σ Unit
  /-- Puts a module (the second one) in the place of another one. -/
  upgrade : String → String → String → Call σ Unit
  /-- Disables a module. -/
  uninstall : String → String → Call σ Unit
  /-- The modules that a tenant has, in ascending order. -/
  installedModules : String → σ → List String
  /-- Creates the routes of the modules of an application, and tells which ones. -/
  createRoutes : String → String → List String → Call σ (List String)
  /-- Removes the routes of an application. -/
  removeRoutes : String → String → Call σ Unit
  /-- Replaces the routes of an application by those of another one with its modules. -/
  updateRoutes : String → String → String → List String → Call σ Unit
  /-- The routes of an application. -/
  routes : String → String → σ → List String
  /-- Creates the auth resources of the modules of an application. -/
  createResources : String → String → List String → Call σ Unit
  /-- Removes the auth resources of an application. -/
  removeResources : String → String → Call σ Unit
  /-- Replaces the auth resources of an application by those of another one with its modules. -/
  updateResources : String → String → String → List String → Call σ Unit
  /-- The auth resources of an application. -/
  resources : String → String → σ → List String

namespace Collaborators

variable {σ : Type}

/-- Makes one change. An upgrade of no module enables its target. -/
def applyChange (c : Collaborators σ) (tenantId : String) (change : ModuleChange) : Call σ Unit :=
  match change.action, change.replaced with
  | .enable, _ | .upgrade, none => c.install tenantId change.id
  | .upgrade, some replaced => c.upgrade tenantId replaced change.id
  | .disable, _ => c.uninstall tenantId change.id

/-- Makes changes one after another, up to the first one that fails. -/
def applyChanges (c : Collaborators σ) (tenantId : String) : List ModuleChange → Call σ Unit
  | [], w => (.ok (), w)
  | change :: rest, w =>
    match c.applyChange tenantId change w with
    | (.ok (), w) => c.applyChanges tenantId rest w
    | (.error e, w) => (.error e, w)

end Collaborators

end Provisioning
