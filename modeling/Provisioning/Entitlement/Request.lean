import Provisioning.Data.Basic
import Provisioning.Flow.Status
import Provisioning.Refusal

/-!
# Requests

A request names a tenant and applications, and says what is to be done with them. A request for a
state names all applications that the tenant shall have, which may be none.
-/

namespace Provisioning

/-- A request to change the applications of a tenant. -/
structure EntitlementRequest where
  /-- The tenant. -/
  tenantId : String
  /-- What is to be done. -/
  type : EntitlementType
  /-- The applications, in the order of the request. -/
  applicationIds : List String
  /-- Whether to go on after a failure. -/
  ignoreErrors : Bool := false
  /-- Whether to remove the data of modules that are disabled. -/
  purge : Bool := false
  /-- Whether to run in the background. -/
  runAsync : Bool := false
deriving DecidableEq, Repr

namespace EntitlementRequest

/-- What the flow of the request does on a failure. -/
def strategy (r : EntitlementRequest) : ExecutionStrategy :=
  if r.ignoreErrors then .ignoreOnError else .cancelOnError

/-- Refuses a request that no flow can come of: without tenant, without applications, or with texts
that are no identifiers. -/
def check (r : EntitlementRequest) : Except Refusal Unit :=
  if Text.trim r.tenantId = "" then
    .error .emptyTenant
  else if r.applicationIds = [] ∧ r.type ≠ .state then
    .error .noIds
  else
    r.applicationIds.forM fun id => discard (VersionedName.parse id)

/-- The elements of a list, each once, where it occurs first. -/
def distinct : List String → List String
  | [] => []
  | id :: rest => id :: (distinct rest).filter (· ≠ id)

/-- The applications without repetitions. -/
def uniqueIds (r : EntitlementRequest) : List String := distinct r.applicationIds

/-- The request as data. -/
def toData (r : EntitlementRequest) : Data :=
  .table [("tenant_id", .text r.tenantId), ("entitlement_type", .text r.type.text),
    ("application_ids", .ofTexts r.applicationIds), ("ignore_errors", .bool r.ignoreErrors),
    ("purge", .bool r.purge), ("run_async", .bool r.runAsync)]

end EntitlementRequest

end Provisioning
