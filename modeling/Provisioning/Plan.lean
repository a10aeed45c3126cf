import Provisioning.Ordered.Map
import Provisioning.Ordered.Set
import Provisioning.Refusal

/-!
# Transition plans

A plan compares the applications that a tenant has with those that it shall have: names that are
only desired are entitled, names that are only entitled are revoked, and names of which another
version is desired are upgraded, be that version newer or older.
-/

namespace Provisioning

/-- The version of each name in a set of applications. -/
abbrev Versions := OrderedMap String String

namespace Versions

/-- Adds an identifier, unless there is another version of its name. -/
def add (side : Side) (versions : Versions) (id : String) : Except Refusal Versions := do
  let v ← VersionedName.parse id
  match versions.get? v.name with
  | none => return versions.insert v.name v.version
  | some existing =>
    if existing = v.version then
      return versions
    else
      throw (.severalVersions side v.name existing v.version)

/-- The versions of a list of identifiers. -/
def ofIds (side : Side) (ids : List String) : Except Refusal Versions :=
  ids.foldlM (add side) .empty

/-- The identifiers of the names that have a version. -/
def idsOf (versions : Versions) (names : List String) : List String :=
  names.filterMap fun name =>
    (versions.get? name).map fun version => (VersionedName.mk name version).id

end Versions

/-- What has to be done to get from the entitled applications to the desired ones. -/
structure TransitionPlan where
  /-- The versions that the tenant has. -/
  entitled : Versions
  /-- The versions that the tenant shall have. -/
  desired : Versions

namespace TransitionPlan

/-- The names that only a desired application has. -/
def entitle (p : TransitionPlan) : List String :=
  p.desired.keys.filter fun name => !p.entitled.contains name

/-- The names of which another version is desired than the entitled one. -/
def upgrade (p : TransitionPlan) : List String :=
  p.desired.keys.filter fun name =>
    (p.entitled.get? name).isSome && p.entitled.get? name != p.desired.get? name

/-- The names that only an entitled application has. -/
def revoke (p : TransitionPlan) : List String :=
  p.entitled.keys.filter fun name => !p.desired.contains name

/-- The plan for two lists of identifiers, neither of which may have two versions of one name. -/
def ofIds (entitled desired : List String) : Except Refusal TransitionPlan := do
  let entitled ← Versions.ofIds .entitled entitled
  let desired ← Versions.ofIds .desired desired
  return { entitled, desired }

/-- The number of applications that the plan concerns. -/
def size (p : TransitionPlan) : Nat := p.entitle.length + p.upgrade.length + p.revoke.length

/-- Whether there is nothing to do. -/
def isEmpty (p : TransitionPlan) : Bool :=
  p.entitle.isEmpty && p.upgrade.isEmpty && p.revoke.isEmpty

/-- The applications to entitle. -/
def entitleIds (p : TransitionPlan) : List String := p.desired.idsOf p.entitle

/-- The versions to upgrade to. -/
def upgradeIds (p : TransitionPlan) : List String := p.desired.idsOf p.upgrade

/-- The applications to revoke. -/
def revokeIds (p : TransitionPlan) : List String := p.entitled.idsOf p.revoke

/-- The versions to upgrade to, each with the version that it replaces. -/
def upgradePairs (p : TransitionPlan) : List (String × String) :=
  p.upgrade.filterMap fun name => do
    let next ← p.desired.get? name
    let installed ← p.entitled.get? name
    return ((VersionedName.mk name next).id, (VersionedName.mk name installed).id)

end TransitionPlan

end Provisioning
