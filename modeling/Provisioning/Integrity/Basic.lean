import Provisioning.Application.Basic

/-!
# What is missing in a set of applications

An interface that a module requires needs a module that provides it, and a dependency needs an
application of its name in its range.
-/

namespace Provisioning

/-- An interface that a module of an application provides or requires. -/
structure InterfaceItem where
  /-- The identifier of the interface. -/
  interfaceId : String
  /-- The version provided, or the versions between blanks any of which will do. -/
  version : String
  /-- The application that the module belongs to. -/
  applicationId : String
deriving DecidableEq, Repr

namespace InterfaceItem

/-- By interface, then by version, then by application. -/
protected def compare : InterfaceItem → InterfaceItem → Ordering :=
  compareLex (compareOn interfaceId) (compareLex (compareOn version) (compareOn applicationId))

instance : Ord InterfaceItem := ⟨InterfaceItem.compare⟩

instance : Std.TransOrd InterfaceItem :=
  inferInstanceAs (Std.TransCmp (compareLex (compareOn interfaceId)
    (compareLex (compareOn version) (compareOn applicationId))))

end InterfaceItem

/-- A dependency without any application of its name. -/
structure MissingDependency where
  /-- The application that has the dependency. -/
  applicationId : String
  /-- The dependency. -/
  dependency : Dependency
deriving DecidableEq, Repr

/-- A dependency whose range the application of its name does not lie in. -/
structure DependencyMismatch where
  /-- The application that has the dependency. -/
  applicationId : String
  /-- The dependency. -/
  dependency : Dependency
  /-- The application of that name that there is. -/
  installedId : String
deriving DecidableEq, Repr

/-- The dependencies that are not met. -/
structure DependencyReport where
  /-- Dependencies without any application of their names. -/
  missing : List MissingDependency := []
  /-- Dependencies with an application of a wrong version. -/
  mismatched : List DependencyMismatch := []
deriving DecidableEq, Repr

/-- Whether all dependencies are met. -/
def DependencyReport.isOk (report : DependencyReport) : Bool :=
  report.missing.isEmpty && report.mismatched.isEmpty

end Provisioning
