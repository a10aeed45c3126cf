import Provisioning.Entitlement.Request
import Provisioning.Integrity.Dependencies
import Provisioning.Integrity.Interfaces

/-!
# Validation of requests

A request is checked against the applications that the tenant has. What is new has to be new, what
is revoked has to be there, an upgrade has to lead to a later version. After the request, all
dependencies and interfaces of the requested applications have to be met, and nothing that is left
may need what is revoked.
-/

namespace Provisioning

/-- What a check looks at. -/
structure ValidationContext where
  /-- What is to be done. -/
  type : EntitlementType
  /-- The requested applications. -/
  applications : List Application
  /-- The applications that the tenant has. -/
  entitled : List Application

/-- A check that can be run on its own. -/
inductive Validator where
  /-- Dependencies are met, and nothing is taken away that is needed. -/
  | dependency
  /-- Required interfaces are provided. -/
  | interfaceIntegrity
deriving DecidableEq, Repr

namespace Validator

/-- The name of the check. -/
def name : Validator → String
  | dependency => "dependency"
  | interfaceIntegrity => "interface-integrity"

/-- The check that a name stands for. -/
def read? : String → Option Validator
  | "dependency" => some dependency
  | "interface-integrity" => some interfaceIntegrity
  | _ => none

/-- All checks, in the order in which they are run. -/
def all : List Validator := [dependency, interfaceIntegrity]

/-- Whether the check concerns requests of a type. -/
def appliesTo : Validator → EntitlementType → Bool
  | dependency, _ => true
  | interfaceIntegrity, type => type != .revoke

end Validator

/-- Refuses unless the list of reasons is empty. -/
def refuseUnlessEmpty {α : Type} (refusal : List α → Refusal) : List α → Except Refusal Unit
  | [] => .ok ()
  | reasons => .error (refusal reasons)

namespace ValidationContext

/-- The entitled applications that the request does not touch. -/
def remaining (ctx : ValidationContext) : List Application :=
  remainingBeside ctx.applications ctx.entitled

/-- The entitled application of a name; the last one, if there are several. -/
def entitledNamed? (ctx : ValidationContext) (name : String) : Option Application :=
  ctx.entitled.reverse.find? (·.name = name)

/-! ## What is requested -/

/-- The requested applications have to be new. -/
def checkNotEntitled (ctx : ValidationContext) : Except Refusal Unit :=
  refuseUnlessEmpty .alreadyEntitled
    ((ctx.applications.filter fun a => (ctx.entitledNamed? a.name).isSome).map (·.id))

/-- The requested applications have to be there. -/
def checkEntitled (ctx : ValidationContext) : Except Refusal Unit :=
  refuseUnlessEmpty .notEntitled
    ((ctx.applications.map (·.id)).filter fun id => !(ctx.entitled.map (·.id)).contains id)

/-- What stands in the way of an upgrade, if something does. -/
def upgradeObstacle? (ctx : ValidationContext) (a : Application) :
    Except Refusal (Option UpgradeObstacle) :=
  match ctx.entitledNamed? a.name with
  | none => .ok (some (.notEntitled a.name))
  | some current => do
    let next ← a.semver
    let installed ← current.semver
    return if installed.before next then none else some (.notNewer a.id current.id)

/-- The requested applications have to be later versions of applications that are there. -/
def checkUpgradable (ctx : ValidationContext) : Except Refusal Unit := do
  let obstacles ← ctx.applications.mapM ctx.upgradeObstacle?
  refuseUnlessEmpty .notUpgradable (obstacles.filterMap id)

/-- The check that goes with the type of the request. -/
def checkType (ctx : ValidationContext) : Except Refusal Unit :=
  match ctx.type with
  | .entitle => ctx.checkNotEntitled
  | .upgrade => ctx.checkUpgradable
  | .revoke => ctx.checkEntitled
  | .state => .ok ()

/-! ## What comes of it -/

/-- No requested application may reach a circle of dependencies. -/
def checkCircles (ctx : ValidationContext) : Except Refusal Unit :=
  match ctx.applications ++ ctx.remaining with
  | [] => .ok ()
  | applications => do
    let u ← Universe.ofApplications applications
    ctx.applications.forM fun a => discard (u.dependenciesOf a)

/-- The dependencies of the requested applications have to be met. -/
def checkInstall (ctx : ValidationContext) : Except Refusal Unit := do
  ctx.checkCircles
  let report ← DependencyReport.check ctx.applications ctx.remaining
  if report.isOk then pure () else throw (.unmetDependencies report)

/-- Nothing that is left may need what is revoked. -/
def checkRevoke (ctx : ValidationContext) : Except Refusal Unit := do
  let report ← DependencyReport.check ctx.remaining []
  let revoked := ctx.applications.map (·.name)
  refuseUnlessEmpty .stillInUse
    ((report.missing.filter fun m => revoked.contains m.dependency.name).map fun m =>
      { name := m.dependency.name, applicationId := m.applicationId })

/-- The interfaces that the requested applications require have to be provided. -/
def checkInterfaces (ctx : ValidationContext) : Except Refusal Unit :=
  refuseUnlessEmpty .missingInterfaces
    (InterfaceTable.collect ctx.applications ctx.remaining true).missing

/-- Runs one check, if it concerns requests of the type. -/
def run (ctx : ValidationContext) (v : Validator) : Except Refusal Unit :=
  if v.appliesTo ctx.type then
    match v, ctx.type with
    | .dependency, .revoke => ctx.checkRevoke
    | .dependency, _ => ctx.checkInstall
    | .interfaceIntegrity, _ => ctx.checkInterfaces
  else
    .ok ()

/-- Runs the check of a name. -/
def runNamed (ctx : ValidationContext) (name : String) : Except Refusal Unit :=
  match Validator.read? name with
  | some v => ctx.run v
  | none => .error (.unknownValidator name)

/-- Runs the check that goes with the type of the request, and then all other checks. -/
def validate (ctx : ValidationContext) : Except Refusal Unit := do
  ctx.checkType
  Validator.all.forM ctx.run

end ValidationContext

end Provisioning
