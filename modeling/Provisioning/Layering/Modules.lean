import Provisioning.Layering.Basic
import Provisioning.Ordered.Map
import Provisioning.Refusal

/-!
# The order of the modules of an application

A module comes after the modules of the same application that provide an interface it requires.
An upgrade pairs each module of the new version with the module of the same name in the installed
one; installed modules without a partner are deprecated, and go in the order of removal.
-/

namespace Provisioning

/-- A module, with the installed module of the same name that it takes over from. -/
structure ModuleStep where
  /-- The module. -/
  new : ModuleDescriptor
  /-- The installed module of the same name. -/
  old : Option ModuleDescriptor := none
deriving DecidableEq, Repr

namespace ModuleStep

/-- Whether there was no module of the name before. -/
def isAdded (s : ModuleStep) : Bool := s.old.isNone

/-- Whether there was another module of the name before. -/
def isChanged (s : ModuleStep) : Bool := s.old.any fun old => old.id != s.new.id

end ModuleStep

/-- The modules of an application in order. -/
structure ModuleSequence where
  /-- The modules of the application. -/
  layers : List (List ModuleStep)
  /-- The installed modules that it no longer has, in the order of removal. -/
  deprecated : List (List ModuleDescriptor)
deriving DecidableEq, Repr

namespace ModuleSequence

/-- Whether there are no layers of either kind. -/
def isEmpty (s : ModuleSequence) : Bool := s.layers.isEmpty && s.deprecated.isEmpty

/-- All modules of the application, in order. -/
def steps (s : ModuleSequence) : List ModuleStep := s.layers.flatten

end ModuleSequence

/-- The modules that a module needs: those that provide an interface it requires, itself apart. -/
def ModuleDescriptor.needsOf (modules : List ModuleDescriptor) (m : ModuleDescriptor) :
    List String :=
  (m.requires.flatMap fun r =>
    (modules.filter fun other => other.provides.any (·.id = r.id)).map (·.id)).filter (· ≠ m.id)

/-- The nodes of a list of modules, ascending by identifier. -/
def ModuleDescriptor.nodes (modules : List ModuleDescriptor) : List (Node ModuleDescriptor) :=
  (OrderedMap.ofList (modules.map fun m => (m.id, m))).entries.map fun (id, m) =>
    { id, item := m, needs := m.needsOf modules }

/-- The layers of a list of modules. -/
def layerModules (applicationId : String) (modules : List ModuleDescriptor) :
    Except Refusal (List (List ModuleDescriptor)) :=
  match Node.layers (ModuleDescriptor.nodes modules) with
  | .ok layers => .ok (layers.map fun layer => layer.map (·.item))
  | .error stuck => .error (.circularModules applicationId stuck)

/-- The modules of an installed version by their names. -/
def modulesByName (modules : List ModuleDescriptor) : OrderedMap String ModuleDescriptor :=
  OrderedMap.ofList (modules.map fun m => (m.name, m))

/-- The modules of a kind without predecessors. -/
def ModuleSequence.fresh (layers : List (List ModuleDescriptor)) : ModuleSequence :=
  { layers := layers.map fun layer => layer.map fun m => { new := m }, deprecated := [] }

/-- The modules of a kind in the order in which a request works on them. -/
def moduleSequence (a : Application) (installed : Option Application) (type : EntitlementType)
    (kind : ModuleKind) : Except Refusal ModuleSequence :=
  let modules := a.modulesOf kind
  match type, installed with
  | .revoke, _ => do
    return .fresh (← layerModules a.id modules).reverse
  | .upgrade, some old | .state, some old => do
    let oldModules := old.modulesOf kind
    let names := modules.map (·.name)
    let layers ← layerModules a.id modules
    let deprecated ← layerModules old.id (oldModules.filter fun m => !names.contains m.name)
    return {
      layers := layers.map fun layer => layer.map fun m =>
        { new := m, old := (modulesByName oldModules).get? m.name }
      deprecated := deprecated.reverse }
  | _, _ => do
    return .fresh (← layerModules a.id modules)

end Provisioning
