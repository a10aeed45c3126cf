import Provisioning.Layering.Basic
import Provisioning.Ordered.Map
import Provisioning.Refusal

/-!
# The order in which applications are installed

An application is installed after the applications of the same set whose names it depends on;
dependencies on other applications do not count here. Removal goes the other way.
-/

namespace Provisioning

/-- The applications of a set in ascending order of their identifiers, each with the members of the
set that it needs. -/
structure InstallationGraph where
  /-- The identifiers of the applications needed, by application. -/
  edges : OrderedMap String (List String)

namespace InstallationGraph

/-- The applications of the set that an application needs: those whose names it depends on, itself
apart. -/
def needsOf (applications : List Application) (a : Application) : List String :=
  (a.dependencies.flatMap fun d =>
    (applications.filter (·.name = d.name)).map (·.id)).filter (· ≠ a.id)

/-- The graph of a set of applications. -/
def ofApplications (applications : List Application) : InstallationGraph :=
  ⟨OrderedMap.ofList (applications.map fun a => (a.id, needsOf applications a))⟩

/-- The number of applications. -/
def size (g : InstallationGraph) : Nat := g.edges.size

/-- The nodes of the graph. -/
def nodes (g : InstallationGraph) : List (Node Unit) :=
  g.edges.entries.map fun (id, needs) => { id, item := (), needs }

/-- The layers of identifiers in the order of installation. -/
def installationLayers (g : InstallationGraph) : Except Refusal (List (List String)) :=
  match Node.layers g.nodes with
  | .ok layers => .ok (layers.map fun layer => layer.map (·.id))
  | .error _ => .error .noIndependentApplication

/-- The layers of identifiers in the order of removal. -/
def removalLayers (g : InstallationGraph) : Except Refusal (List (List String)) :=
  g.installationLayers.map List.reverse

end InstallationGraph

end Provisioning
