import Provisioning.Integrity.Basic
import Provisioning.Text.Split
import Provisioning.Version.Grammar
import Provisioning.Version.Interface

/-!
# Refusals

A request that cannot be turned into a safe order of work is refused before any work starts. Each
cause is a constructor of `Refusal`; what is said about it is in `Refusal.message`.
-/

namespace Provisioning

/-- One of the two sets of applications that a transition plan compares. -/
inductive Side where
  /-- What the tenant has. -/
  | entitled
  /-- What the tenant shall have. -/
  | desired
deriving DecidableEq, Repr

/-- What messages call the set. -/
def Side.label : Side → String
  | entitled => "Entitled"
  | desired => "Desired"

/-- Why an application cannot be upgraded. -/
inductive UpgradeObstacle where
  /-- The tenant has no version of the application. -/
  | notEntitled (name : String)
  /-- The version that the tenant has does not come before the new one. -/
  | notNewer (id current : String)
deriving DecidableEq, Repr

/-- An application that is still needed, with the application that needs it. -/
structure Dependent where
  /-- The name of the application that is needed. -/
  name : String
  /-- The application that needs it. -/
  applicationId : String
deriving DecidableEq, Repr

/-- Why a request is refused. -/
inductive Refusal where
  /-- A text is no version or no range of versions. -/
  | invalidVersion (value : String) (fault : VersionFault)
  /-- A text is no identifier. -/
  | invalidId (id : String)
  /-- A text is no interface version. -/
  | invalidInterfaceVersion (value : String)
  /-- Dependencies are to be found among no applications. -/
  | noApplications
  /-- Applications depend on each other in a circle; the names along it, each needed by the one
  after it. -/
  | circularDependency (chain : List String)
  /-- Applications depend on each other in a circle, so that none can come next. -/
  | noIndependentApplication
  /-- Modules of an application require each other in a circle. -/
  | circularModules (applicationId : String) (moduleIds : List String)
  /-- A set of applications has two versions of one name. -/
  | severalVersions (side : Side) (name existing version : String)
  /-- The tenant has no name. -/
  | emptyTenant
  /-- The request names no applications. -/
  | noIds
  /-- The tenant has applications of those names. -/
  | alreadyEntitled (ids : List String)
  /-- The tenant does not have the applications. -/
  | notEntitled (ids : List String)
  /-- Applications cannot be upgraded. -/
  | notUpgradable (obstacles : List UpgradeObstacle)
  /-- Dependencies are not met. -/
  | unmetDependencies (report : DependencyReport)
  /-- Applications are still needed. -/
  | stillInUse (dependents : List Dependent)
  /-- Required interfaces are not provided. -/
  | missingInterfaces (items : List InterfaceItem)
  /-- There is no check of that name. -/
  | unknownValidator (name : String)
  /-- There is no request type of that name. -/
  | unknownType (name : String)
  /-- The registry does not know the applications. -/
  | applicationsNotFound (ids : List String)
  /-- The tenant has no version of the application that could be upgraded. -/
  | nothingToUpgrade (name : String)
  /-- No flow has the identifier. -/
  | flowNotFound (id : String)
  /-- No flow of an application has the identifier. -/
  | applicationFlowNotFound (id : String)
deriving DecidableEq, Repr

/-- The two kinds of refusals. -/
inductive RefusalKind where
  /-- The request is wrong. -/
  | validation
  /-- Something that the request names does not exist. -/
  | notFound
deriving DecidableEq, Repr

/-- The word for the kind. -/
def RefusalKind.text : RefusalKind → String
  | validation => "ValidationError"
  | notFound => "NotFoundError"

/-- What is said about an application that cannot be upgraded. -/
def UpgradeObstacle.message : UpgradeObstacle → String
  | notEntitled name => s!"{name} is not entitled"
  | notNewer id current => s!"{id} must be newer than {current}"

/-- What is said about a missing dependency. -/
def MissingDependency.message (m : MissingDependency) : String :=
  s!"{m.applicationId} requires {m.dependency.name} {m.dependency.range}"

/-- What is said about a dependency on another version. -/
def DependencyMismatch.message (m : DependencyMismatch) : String :=
  s!"{m.applicationId} requires {m.dependency.name} {m.dependency.range} "
    ++ s!"but found {m.installedId}"

/-- What is said about unmet dependencies, the missing ones first. -/
def DependencyReport.messages (report : DependencyReport) : List String :=
  report.missing.map (·.message) ++ report.mismatched.map (·.message)

/-- What is said about an application that is still needed. -/
def Dependent.message (d : Dependent) : String := s!"{d.name} is required by {d.applicationId}"

/-- What is said about a missing interface. -/
def InterfaceItem.message (item : InterfaceItem) : String :=
  s!"{item.interfaceId} {item.version} (required by {item.applicationId})"

namespace Refusal

/-- The kind of a refusal. -/
def kind : Refusal → RefusalKind
  | applicationsNotFound _ | nothingToUpgrade _ | flowNotFound _ | applicationFlowNotFound _ =>
    .notFound
  | _ => .validation

/-- What is said about a refusal. -/
def message : Refusal → String
  | invalidVersion value fault => s!"invalid version '{value}': {fault.message}"
  | invalidId id => s!"invalid identifier '{id}': expected '<name>-<semver>'"
  | invalidInterfaceVersion value => s!"invalid interface version '{value}'"
  | noApplications => "No applications provided"
  | circularDependency chain =>
    "Circular application dependency detected. Chain is: " ++ Text.join " <- " chain
  | noIndependentApplication => "No more independent applications can be found"
  | circularModules applicationId moduleIds =>
    s!"Circular module dependency in application {applicationId}: " ++ Text.join ", " moduleIds
  | severalVersions side name existing version =>
    s!"{side.label} state contains several versions of {name}: {existing}, {version}"
  | emptyTenant => "Tenant id must not be empty"
  | noIds => "At least one application id is required"
  | alreadyEntitled ids => "Applications already entitled: " ++ Text.join ", " ids
  | notEntitled ids => "Applications not entitled: " ++ Text.join ", " ids
  | notUpgradable obstacles =>
    "Invalid upgrade request: " ++ Text.join "; " (obstacles.map (·.message))
  | unmetDependencies report =>
    "Missing dependencies found for applications: " ++ Text.join "; " report.messages
  | stillInUse dependents =>
    "Applications are still in use: " ++ Text.join "; " (dependents.map (·.message))
  | missingInterfaces items =>
    "Missing interfaces: " ++ Text.join ", " (items.map (·.message))
  | unknownValidator name => s!"Invalid validator name: {name}"
  | unknownType name => s!"Invalid entitlement type: {name}"
  | applicationsNotFound ids => "Applications not found: " ++ Text.join ", " ids
  | nothingToUpgrade name => s!"No entitled version of {name} to upgrade"
  | flowNotFound id => s!"Flow not found: {id}"
  | applicationFlowNotFound id => s!"Application flow not found: {id}"

end Refusal

/-- What is done in two steps is done if neither step is refused. -/
theorem Except.bind_eq_ok {ε α β : Type} {x : Except ε α} {f : α → Except ε β} {b : β} :
    x >>= f = .ok b ↔ ∃ a, x = .ok a ∧ f a = .ok b := by
  cases x <;> simp [bind, Except.bind]

theorem Except.map_eq_ok {ε α β : Type} {x : Except ε α} {f : α → β} {b : β} :
    x.map f = .ok b ↔ ∃ a, x = .ok a ∧ f a = b := by
  cases x <;> simp [Except.map]

theorem Except.map_eq_error {ε α β : Type} {x : Except ε α} {f : α → β} {e : ε} :
    x.map f = .error e ↔ x = .error e := by
  cases x <;> simp [Except.map]

theorem Except.mapError_eq_ok {ε ε' α : Type} {x : Except ε α} {f : ε → ε'} {a : α} :
    x.mapError f = .ok a ↔ x = .ok a := by
  cases x <;> constructor <;> intro h <;> cases h <;> rfl

theorem Except.toOption_eq_some {ε α : Type} {x : Except ε α} {a : α} :
    x.toOption = some a ↔ x = .ok a := by
  cases x <;> simp [Except.toOption]

theorem Except.mapM_ok {β γ δ ε : Type} {read : β → Except ε γ} {view : γ → δ} {own : β → δ}
    {l : List β} (each : ∀ b ∈ l, ∃ c, read b = .ok c ∧ view c = own b) :
    ∃ cs, l.mapM read = .ok cs ∧ cs.map view = l.map own := by
  induction l with
  | nil => exact ⟨[], rfl, rfl⟩
  | cons b rest ih =>
    rw [List.forall_mem_cons] at each
    obtain ⟨c, reads, same⟩ := each.1
    obtain ⟨cs, readsAll, sameAll⟩ := ih each.2
    refine ⟨c :: cs, ?_, ?_⟩
    · rw [List.mapM_cons, reads, readsAll]
      rfl
    · rw [List.map_cons, List.map_cons, same, sameAll]

theorem Except.discard_eq_ok {ε α : Type} {x : Except ε α} :
    discard x = .ok () ↔ ∃ a, x = .ok a := by
  cases x <;> simp [discard, Functor.discard, Functor.mapConst, Except.map]

/-- Steps one after another are done if none of them is refused. -/
theorem Except.forM_eq_ok {ε α : Type} {f : α → Except ε Unit} {l : List α} :
    l.forM f = .ok () ↔ ∀ a ∈ l, f a = .ok () := by
  induction l with
  | nil => simp [List.forM, pure, Except.pure]
  | cons a rest ih =>
    rw [List.forM, Except.bind_eq_ok, List.forall_mem_cons, ← ih]
    exact ⟨fun ⟨_, h⟩ => h, fun h => ⟨(), h⟩⟩

/-- Reads a version, or refuses it. -/
def Version.parse (s : String) : Except Refusal Version :=
  (Version.read s).mapError (.invalidVersion s)

/-- The version of an application. -/
def Application.semver (a : Application) : Except Refusal Version := Version.parse a.version

/-- Reads an interface version, or refuses it. -/
def InterfaceVersion.parse (s : String) : Except Refusal InterfaceVersion :=
  match read? s with
  | some v => .ok v
  | none => .error (.invalidInterfaceVersion s)

/-- Reads an identifier, or refuses it. -/
def VersionedName.parse (id : String) : Except Refusal VersionedName :=
  match read? id with
  | some v => .ok v
  | none => .error (.invalidId id)

end Provisioning
