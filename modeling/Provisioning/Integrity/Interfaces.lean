import Provisioning.Integrity.Basic
import Provisioning.Ordered.Map
import Provisioning.Ordered.Set
import Provisioning.Version.Interface

/-!
# Interfaces of a set of applications

Candidates for installation hide the entitled applications of the same names. What they require has
to be provided by a module of a candidate or of an entitled application that is left.
-/

namespace Provisioning

/-- The interfaces that applications require and those that they provide. -/
structure InterfaceTable where
  /-- The interfaces that are required. -/
  required : OrderedSet InterfaceItem
  /-- The interfaces that are provided, by their identifiers. -/
  provided : OrderedMap String (OrderedSet InterfaceItem)

/-- The item of an interface reference of an application. -/
def InterfaceReference.item (r : InterfaceReference) (applicationId : String) : InterfaceItem :=
  { interfaceId := r.id, version := r.version, applicationId }

/-- The items that the modules of an application provide. -/
def Application.providedItems (a : Application) : List InterfaceItem :=
  a.allModules.flatMap fun m => m.provides.map (·.item a.id)

/-- The items that the modules of an application require. -/
def Application.requiredItems (a : Application) : List InterfaceItem :=
  a.allModules.flatMap fun m => m.requires.map (·.item a.id)

/-- The entitled applications without those that a candidate takes the place of. -/
def remainingBeside (candidates entitled : List Application) : List Application :=
  entitled.filter fun a => !(candidates.map (·.name)).contains a.name

namespace InterfaceTable

/-- The interfaces of candidates and entitled applications. The requirements of entitled
applications may be left out; what they provide always counts. -/
def collect (candidates entitled : List Application) (excludeEntitled : Bool) : InterfaceTable :=
  let remaining := remainingBeside candidates entitled
  let requiring := if excludeEntitled then candidates else candidates ++ remaining
  let providing := candidates ++ remaining
  { required := .ofList (requiring.flatMap (·.requiredItems))
    provided := (providing.flatMap (·.providedItems)).foldl
      (fun provided item =>
        provided.alter item.interfaceId fun items => (items.getD .empty).insert item)
      .empty }

/-- Whether an item has a provider of a compatible version. -/
def isProvided (t : InterfaceTable) (item : InterfaceItem) : Bool :=
  match t.provided.get? item.interfaceId with
  | some providers =>
    providers.toList.any fun p => InterfaceVersion.compatible item.version p.version
  | none => false

/-- The required interfaces without a provider of a compatible version. -/
def missing (t : InterfaceTable) : List InterfaceItem :=
  t.required.toList.filter fun item => !t.isProvided item

/-- Whether every required interface has a provider. -/
def isSatisfied (t : InterfaceTable) : Bool := t.missing.isEmpty

end InterfaceTable

end Provisioning
