import Provisioning.Application.Basic
import Provisioning.Collaborator.Basic
import Provisioning.Flow.Stage
import Provisioning.Store.Recorder

/-!
# Stages of entitlement flows

Each stage changes modules, routes, auth resources or entitlements of the tenant, and can be
cancelled. Calls to collaborators are tried again where that is worth while. Entitlements are
changed last, so that they stand for everything else.
-/

namespace Provisioning

/-- The parameter that says whether data of modules is to be removed. -/
def purgeParam : String := "purge"

/-- An application that takes the place of another version. -/
structure ApplicationUpgrade where
  /-- The version that goes. -/
  replacedId : String
  /-- The version that comes. -/
  id : String
  /-- The modules of the version that goes. -/
  replacedModuleIds : List String
  /-- The modules of the version that comes. -/
  moduleIds : List String
deriving DecidableEq, Repr

/-- A stage of an entitlement flow. -/
inductive EntitlementStage where
  /-- Makes one change. -/
  | module (change : ModuleChange)
  /-- Makes all changes of an application that comes. -/
  | installBatch (changes : List ModuleChange)
  /-- Makes all changes of an application that goes. -/
  | uninstallBatch (changes : List ModuleChange)
  /-- Disables the modules that an upgrade leaves behind. -/
  | deprecatedModules (moduleIds : List String)
  /-- Creates the routes of an application. -/
  | createRoutes (applicationId : String) (moduleIds : List String)
  /-- Removes the routes of an application. -/
  | removeRoutes (applicationId : String) (moduleIds : List String)
  /-- Replaces the routes of an application. -/
  | updateRoutes (upgrade : ApplicationUpgrade)
  /-- Creates the auth resources of an application. -/
  | createResources (applicationId : String) (moduleIds : List String)
  /-- Removes the auth resources of an application. -/
  | removeResources (applicationId : String) (moduleIds : List String)
  /-- Replaces the auth resources of an application. -/
  | updateResources (upgrade : ApplicationUpgrade)
  /-- Entitles the tenant to an application. -/
  | saveEntitlement (applicationId : String)
  /-- Removes the entitlement to an application. -/
  | removeEntitlement (applicationId : String)
  /-- Replaces the entitlement to an application by that to another version. -/
  | updateEntitlement (replacedId applicationId : String)
deriving DecidableEq, Repr

/-- What the name of a stage says about the action. -/
def ModuleAction.agent : ModuleAction → String
  | enable => "installer"
  | upgrade => "upgrader"
  | disable => "uninstaller"

namespace EntitlementStage

/-- The name of a stage. -/
def name : EntitlementStage → String
  | module change => s!"{ModuleDescriptor.nameOf change.id}-{change.action.agent}"
  | installBatch _ => "OkapiModulesInstaller"
  | uninstallBatch _ => "OkapiModulesUninstaller"
  | deprecatedModules _ => "DeprecatedModulesUninstaller"
  | createRoutes _ _ => "KongRouteCreator"
  | removeRoutes _ _ => "KongRouteCleaner"
  | updateRoutes _ => "KongRouteUpdater"
  | createResources _ _ => "KeycloakAuthResourceCreator"
  | removeResources _ _ => "KeycloakAuthResourceCleaner"
  | updateResources _ => "KeycloakAuthResourceUpdater"
  | saveEntitlement _ => "EntitlementSaver"
  | removeEntitlement _ => "EntitlementRemover"
  | updateEntitlement _ _ => "EntitlementUpdater"

instance : Named EntitlementStage := ⟨name⟩

end EntitlementStage

variable {σ : Type}

/-- Work on a world that may fail and may give a result to store. -/
abbrev StageWork (σ : Type) := σ → Except StageError (Option Data) × σ

namespace StageWork

/-- Work without a result. -/
def ofUnit (work : σ → Except StageError Unit × σ) : StageWork σ := fun w =>
  let (outcome, w) := work w
  (outcome.map fun _ => none, w)

/-- One piece of work after another that does not fail; the second one gives the result. -/
def andStore (work : σ → Except StageError Unit × σ) (result : Data) : StageWork σ := fun w =>
  let (outcome, w) := work w
  (outcome.map fun _ => some result, w)

/-- The work for the tenant of a context, as a step of a stage. Without a tenant nothing is done. -/
def step (work : String → StageWork σ) (ctx : StageContext) (w : σ) : StageStep σ :=
  match ctx.scope.text? tenantParam with
  | none =>
    { world := w, stored := none
      outcome := .error (.validation s!"Missing flow parameter: {tenantParam}") }
  | some tenantId =>
    match work tenantId w with
    | (.ok stored, w) => { world := w, stored, outcome := .ok () }
    | (.error e, w) => { world := w, stored := none, outcome := .error e }

end StageWork

namespace Collaborators

variable (c : Collaborators σ) (retry : RetryConfig)

/-! ## Calls -/

/-- Tries a call. A failure is an error of the stage, with what the collaborator said as cause. -/
def attempt {α : Type} (failure : String) (call : Call σ α) (w : σ) : Except StageError α × σ :=
  let tries := retry.run call w
  match tries.result with
  | some (.ok a) => (.ok a, tries.world)
  | some (.error e) => (.error (.integration failure (some e.message)), tries.world)
  | none => (.error (.internal "The delay before the next attempt cannot be computed"), tries.world)

/-- What is said when a change fails. -/
def changeFailure (change : ModuleChange) : String :=
  s!"Failed to {change.action.text} module {change.id}"

/-- Makes a change. -/
def change (tenantId : String) (change : ModuleChange) (w : σ) : Except StageError Unit × σ :=
  attempt retry (changeFailure change) (c.applyChange tenantId change) w

/-- Undoes changes in the order of the list, as far as that is possible. -/
def revert (tenantId : String) (w : σ) : List ModuleChange → σ
  | [] => w
  | change :: rest => revert tenantId (c.change retry tenantId change.inverse w).2 rest

/-- Makes changes one after another. When one fails, those made before it (last first) are
undone. -/
def changeAll (tenantId : String) (made : List ModuleChange) :
    List ModuleChange → σ → Except StageError Unit × σ
  | [], w => (.ok (), w)
  | change :: rest, w =>
    match c.change retry tenantId change w with
    | (.ok (), w) => changeAll tenantId (change :: made) rest w
    | (.error e, w) => (.error e, c.revert retry tenantId w made)

/-! ## Entitlements -/

/-- What is said when the store fails. -/
def storeFailure (failure : String) (e : StoreError) : StageError :=
  .integration failure (some e.message)

/-- Entitles a tenant to an application, whether or not it was. -/
def save (applicationId tenantId : String) (w : σ) : Except StageError Unit × σ :=
  (.ok (), c.withStore w ((c.store w).saveEntitlement tenantId applicationId).2)

/-- Removes an entitlement, whether or not there was one. -/
def remove (applicationId tenantId : String) (w : σ) : Except StageError Unit × σ :=
  (.ok (), c.withStore w ((c.store w).removeEntitlement tenantId applicationId).2)

/-- Removes an entitlement, which has to be there. -/
def removeExisting (applicationId tenantId : String) (w : σ) : Except StageError Unit × σ :=
  match (c.store w).removeEntitlement tenantId applicationId with
  | (true, s) => (.ok (), c.withStore w s)
  | (false, s) => (.error (.notFound s!"Entitlement not found: {applicationId}"), c.withStore w s)

/-- Replaces an entitlement. -/
def replace (failure replacedId applicationId tenantId : String) (w : σ) :
    Except StageError Unit × σ :=
  match (c.store w).updateEntitlement tenantId replacedId applicationId with
  | .ok s => (.ok (), c.withStore w s)
  | .error e => (.error (storeFailure failure e), w)

end Collaborators

namespace EntitlementStage

variable (c : Collaborators σ) (retry : RetryConfig)

/-- What the stage does for a tenant. -/
def execute (s : EntitlementStage) (tenantId : String) : StageWork σ :=
  let call (failure : String) (call : Call σ Unit) : StageWork σ :=
    .ofUnit (Collaborators.attempt retry failure call)
  match s with
  | module change => .ofUnit (c.change retry tenantId change)
  | installBatch changes | uninstallBatch changes => .ofUnit (c.changeAll retry tenantId [] changes)
  | deprecatedModules moduleIds =>
    .andStore (c.changeAll retry tenantId [] (moduleIds.map .disable)) (.ofTexts moduleIds)
  | createRoutes applicationId moduleIds => fun w =>
    let (outcome, w) := Collaborators.attempt retry "Failed to create routes"
      (c.createRoutes tenantId applicationId moduleIds) w
    (outcome.map fun routes => some (.ofTexts routes), w)
  | removeRoutes applicationId _ =>
    call "Failed to remove routes" (c.removeRoutes tenantId applicationId)
  | updateRoutes u =>
    call "Failed to update routes" (c.updateRoutes tenantId u.replacedId u.id u.moduleIds)
  | createResources applicationId moduleIds =>
    call "Failed to create auth resources" (c.createResources tenantId applicationId moduleIds)
  | removeResources applicationId _ =>
    call "Failed to remove auth resources" (c.removeResources tenantId applicationId)
  | updateResources u =>
    call "Failed to update auth resources"
      (c.updateResources tenantId u.replacedId u.id u.moduleIds)
  | saveEntitlement applicationId => .ofUnit (c.save applicationId tenantId)
  | removeEntitlement applicationId => .ofUnit (c.removeExisting applicationId tenantId)
  | updateEntitlement replacedId applicationId =>
    .ofUnit (c.replace "Failed to update entitlement" replacedId applicationId tenantId)

/-- How the stage is undone for a tenant, given the result that it stored. -/
def cancel (s : EntitlementStage) (result : Option Data) (tenantId : String) : StageWork σ :=
  let call (failure : String) (call : Call σ Unit) : StageWork σ :=
    .ofUnit (Collaborators.attempt retry failure call)
  let restoreRoutes (applicationId : String) (moduleIds : List String) : Call σ Unit := fun w =>
    let (outcome, w) := c.createRoutes tenantId applicationId moduleIds w
    (outcome.map fun _ => (), w)
  match s with
  | module change => .ofUnit (c.change retry tenantId change.inverse)
  | installBatch changes | uninstallBatch changes =>
    .ofUnit (c.changeAll retry tenantId [] (ModuleChange.inverses changes))
  | deprecatedModules moduleIds =>
    let removed := (result.bind (·.texts?)).getD moduleIds
    .ofUnit (c.changeAll retry tenantId [] (removed.reverse.map .enable))
  | createRoutes applicationId _ =>
    call "Failed to remove routes" (c.removeRoutes tenantId applicationId)
  | removeRoutes applicationId moduleIds =>
    call "Failed to restore routes" (restoreRoutes applicationId moduleIds)
  | updateRoutes u =>
    call "Failed to restore routes" (c.updateRoutes tenantId u.id u.replacedId u.replacedModuleIds)
  | createResources applicationId _ =>
    call "Failed to remove auth resources" (c.removeResources tenantId applicationId)
  | removeResources applicationId moduleIds =>
    call "Failed to restore auth resources" (c.createResources tenantId applicationId moduleIds)
  | updateResources u =>
    call "Failed to restore auth resources"
      (c.updateResources tenantId u.id u.replacedId u.replacedModuleIds)
  | saveEntitlement applicationId => .ofUnit (c.remove applicationId tenantId)
  | removeEntitlement applicationId => .ofUnit (c.save applicationId tenantId)
  | updateEntitlement replacedId applicationId =>
    .ofUnit (c.replace "Failed to restore entitlement" applicationId replacedId tenantId)

/-- The stage on a world with collaborators. -/
def toStage (s : EntitlementStage) : Stage σ :=
  { name := s.name
    execute := StageWork.step (s.execute c retry)
    cancel := some fun ctx => StageWork.step (s.cancel c retry ctx.result?) ctx }

end EntitlementStage

end Provisioning
