import Provisioning.Ordered.Map
import Provisioning.Ordered.Set
import Provisioning.Store.Record

/-!
# The store

The store remembers the flows that were run, which applications tenants are entitled to, and the
resources that the ledger of modules, routes and auth resources keeps.
-/

namespace Provisioning

/-- What the row of a flow is about. -/
structure FlowData where
  /-- The tenant. -/
  tenantId : String
  /-- The word for the type of the request. -/
  type : String
deriving DecidableEq, Repr

/-- What the row of the flow of an application is about. -/
structure ApplicationFlowData where
  /-- The flow that it is part of. -/
  flowId : String
  /-- The tenant. -/
  tenantId : String
  /-- The application. -/
  applicationId : String
  /-- The word for what is done with the application. -/
  type : String
deriving DecidableEq, Repr

/-- What the row of a stage is about. -/
structure StageData where
  /-- The innermost flow around the stage. -/
  flowId : String
  /-- The name of the stage. -/
  name : String
deriving DecidableEq, Repr

/-- An application of a tenant. -/
structure TenantApplication where
  /-- The tenant. -/
  tenantId : String
  /-- The application. -/
  applicationId : String
deriving DecidableEq, Repr

namespace TenantApplication

/-- By tenant, then by application. -/
protected def compare : TenantApplication → TenantApplication → Ordering :=
  compareLex (compareOn tenantId) (compareOn applicationId)

instance : Ord TenantApplication := ⟨TenantApplication.compare⟩

instance : Std.TransOrd TenantApplication :=
  inferInstanceAs (Std.TransCmp (compareLex (compareOn tenantId) (compareOn applicationId)))

instance : Std.LawfulEqOrd TenantApplication where
  eq_of_compare {a b} h := by
    have h' : (compare a.tenantId b.tenantId).then
      (compare a.applicationId b.applicationId) = .eq := h
    rw [Ordering.then_eq_eq] at h'
    cases a
    cases b
    simp_all

end TenantApplication

/-- Something that a tenant has, by its kind and by what it belongs to. -/
structure Resource where
  /-- The tenant. -/
  tenantId : String
  /-- The kind. -/
  kind : String
  /-- The name. -/
  name : String
  /-- What it belongs to. -/
  owner : String
deriving DecidableEq, Repr

namespace Resource

/-- By tenant, then by kind, by name and by owner. -/
protected def compare : Resource → Resource → Ordering :=
  compareLex (compareOn tenantId) (compareLex (compareOn kind)
    (compareLex (compareOn name) (compareOn owner)))

instance : Ord Resource := ⟨Resource.compare⟩

instance : Std.TransOrd Resource :=
  inferInstanceAs (Std.TransCmp (compareLex (compareOn tenantId) (compareLex (compareOn kind)
    (compareLex (compareOn name) (compareOn owner)))))

instance : Std.LawfulEqOrd Resource where
  eq_of_compare {a b} h := by
    have h' : (compare a.tenantId b.tenantId).then ((compare a.kind b.kind).then
      ((compare a.name b.name).then (compare a.owner b.owner))) = .eq := h
    simp only [Ordering.then_eq_eq] at h'
    cases a
    cases b
    simp_all

end Resource

/-- Everything that outlives a run. -/
structure Store where
  /-- The time at which changes are recorded. -/
  clock : Timestamp := 0
  /-- The flows. -/
  flows : Table FlowData := []
  /-- The flows of applications. -/
  applicationFlows : Table ApplicationFlowData := []
  /-- The stages. -/
  stages : Table StageData := []
  /-- The entitlements, with the time of the last change. -/
  entitlements : OrderedMap TenantApplication Timestamp := .empty
  /-- The resources. -/
  resources : OrderedSet Resource := .empty

/-- Why the store cannot do something. -/
inductive StoreError where
  /-- There is a row of the same key. -/
  | notUnique (columns : String)
  /-- The status in a column of a row is none. -/
  | unreadableStatus (column : Nat) (text : String)
  /-- The time in a column of a row is none. -/
  | unreadableTime (column : Nat) (fault : TimeFault)
  /-- The tenant is not entitled to the application. -/
  | entitlementNotFound (tenantId applicationId : String)
deriving DecidableEq, Repr

namespace StoreError

/-- The word for the kind of the error. -/
def kind : StoreError → String
  | entitlementNotFound _ _ => "NotFound"
  | _ => "Database"

/-- What is said about the error. -/
def message : StoreError → String
  | notUnique columns => s!"database error: UNIQUE constraint failed: {columns}"
  | unreadableStatus column text =>
    s!"database error: Conversion error from type Text at index: {column}, invalid status: {text}"
  | unreadableTime column fault =>
    s!"database error: Conversion error from type Text at index: {column}, {fault.message}"
  | entitlementNotFound tenantId applicationId =>
    s!"Entitlement not found: {tenantId}/{applicationId}"

end StoreError

namespace Store

/-- The store without any rows. -/
def empty : Store := {}

/-- The store on one line, for diagnosis. -/
def description : String := "Store \x7b .. \x7d"

/-! ## Records -/

/-- Inserts the row of a flow. -/
def insertFlow (s : Store) (id tenantId type : String) : Except StoreError Store :=
  match s.flows.insert? id { tenantId, type } with
  | some flows => .ok { s with flows }
  | none => .error (.notUnique "flows.id")

/-- Inserts the row of the flow of an application. -/
def insertApplicationFlow (s : Store) (id : String) (data : ApplicationFlowData) :
    Except StoreError Store :=
  match s.applicationFlows.insert? id data with
  | some applicationFlows => .ok { s with applicationFlows }
  | none => .error (.notUnique "application_flows.id")

/-- Inserts the row of a stage. -/
def insertStage (s : Store) (id flowId name : String) : Except StoreError Store :=
  match s.stages.insert? id { flowId, name } with
  | some stages => .ok { s with stages }
  | none => .error (.notUnique "stages.id")

/-- Moves a flow to a status; says whether it was permitted. -/
def updateFlow (s : Store) (id : String) (status : ExecutionStatus) : Bool × Store :=
  let (moved, flows) := s.flows.advance s.clock id status none
  (moved, { s with flows })

/-- Moves the flow of an application to a status; says whether it was permitted. -/
def updateApplicationFlow (s : Store) (id : String) (status : ExecutionStatus) : Bool × Store :=
  let (moved, applicationFlows) := s.applicationFlows.advance s.clock id status none
  (moved, { s with applicationFlows })

/-- Moves a stage to a status; says whether it was permitted. -/
def updateStage (s : Store) (id : String) (status : ExecutionStatus) (detail : Option String) :
    Bool × Store :=
  let (moved, stages) := s.stages.advance s.clock id status detail
  (moved, { s with stages })

/-! ## Entitlements -/

/-- The entitlements of a tenant, by application, with the time of the last change. -/
def entitlementsOf (s : Store) (tenantId : String) : List (String × Timestamp) :=
  (s.entitlements.entries.filter (·.1.tenantId = tenantId)).map fun e => (e.1.applicationId, e.2)

/-- The applications that a tenant is entitled to, in ascending order. -/
def entitledIds (s : Store) (tenantId : String) : List String :=
  (s.entitlementsOf tenantId).map (·.1)

/-- Whether a tenant is entitled to an application. -/
def isEntitled (s : Store) (tenantId applicationId : String) : Bool :=
  s.entitlements.contains { tenantId, applicationId }

/-- Entitles a tenant to an application; says whether it is new. -/
def saveEntitlement (s : Store) (tenantId applicationId : String) : Bool × Store :=
  if s.isEntitled tenantId applicationId then
    (false, s)
  else
    (true, { s with entitlements := s.entitlements.insert { tenantId, applicationId } s.clock })

/-- Removes an entitlement; says whether there was one. -/
def removeEntitlement (s : Store) (tenantId applicationId : String) : Bool × Store :=
  if s.isEntitled tenantId applicationId then
    (true, { s with entitlements := s.entitlements.erase { tenantId, applicationId } })
  else
    (false, s)

/-- Replaces one entitlement of a tenant by another one. -/
def updateEntitlement (s : Store) (tenantId current next : String) : Except StoreError Store :=
  if !s.isEntitled tenantId current then
    .error (.entitlementNotFound tenantId current)
  else if next ≠ current ∧ s.isEntitled tenantId next then
    .error (.notUnique "entitlements.tenant_id, entitlements.application_id")
  else
    .ok { s with
      entitlements := (s.entitlements.erase { tenantId, applicationId := current }).insert
        { tenantId, applicationId := next } s.clock }

/-! ## Resources -/

/-- Adds a resource; says whether it is new. -/
def insertResource (s : Store) (r : Resource) : Bool × Store :=
  if s.resources.contains r then (false, s)
  else (true, { s with resources := s.resources.insert r })

/-- Removes a resource; says whether there was one. -/
def deleteResource (s : Store) (r : Resource) : Bool × Store :=
  if s.resources.contains r then (true, { s with resources := s.resources.erase r }) else (false, s)

/-- Whether a resource is of a tenant, of a kind and of an owner. -/
def ownedBy (tenantId kind owner : String) (r : Resource) : Bool :=
  r.tenantId == tenantId && r.kind == kind && r.owner == owner

/-- Removes the resources of an owner; gives their number. -/
def deleteResources (s : Store) (tenantId kind owner : String) : Nat × Store :=
  ((s.resources.filter (ownedBy tenantId kind owner)).size,
    { s with resources := s.resources.filter fun r => !ownedBy tenantId kind owner r })

/-- The names of the resources of a kind, of one owner or of all, in ascending order. -/
def resourceNames (s : Store) (tenantId kind : String) (owner : Option String) : List String :=
  (s.resources.toList.filter fun r =>
    r.tenantId == tenantId && r.kind == kind && owner.all (r.owner == ·)).map (·.name)

end Store

end Provisioning
