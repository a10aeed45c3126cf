import Provisioning.Application.Id

/-!
# Applications

An application is a bundle of modules that are installed together for a tenant. It depends on other
applications by name and range of versions; its modules provide and require interfaces.
-/

namespace Provisioning

/-- A dependency on an application. -/
structure Dependency where
  /-- The name of the application that is required. -/
  name : String
  /-- The text of the range in which its version has to lie. -/
  range : String
deriving DecidableEq, Repr

/-- An interface that a module provides or requires. -/
structure InterfaceReference where
  /-- The identifier of the interface. -/
  id : String
  /-- The version provided, or the versions between blanks any of which will do. -/
  version : String
deriving DecidableEq, Repr

/-- A part of an application that is deployed on its own. -/
structure ModuleDescriptor where
  /-- The identifier, usually a name with a version. -/
  id : String
  /-- The interfaces that the module provides. -/
  provides : List InterfaceReference := []
  /-- The interfaces that the module requires. -/
  requires : List InterfaceReference := []
deriving DecidableEq, Repr

namespace ModuleDescriptor

/-- The name in a module identifier; the whole identifier when it has no version. -/
def nameOf (id : String) : String :=
  match VersionedName.read? id with
  | some v => v.name
  | none => id

/-- The name of the module. -/
def name (m : ModuleDescriptor) : String := nameOf m.id

/-- The version of the module, if its identifier has one. -/
def version? (m : ModuleDescriptor) : Option String :=
  (VersionedName.read? m.id).map (·.version)

end ModuleDescriptor

/-- The two lists of modules of an application. -/
inductive ModuleKind where
  /-- Modules that run on the server. -/
  | backend
  /-- Modules of the user interface. -/
  | ui
deriving DecidableEq, Repr

/-- A version of an application. -/
structure Application where
  /-- What stays the same from one version to the next. -/
  name : String
  /-- The text of the version. -/
  version : String
  /-- The applications that this one needs. -/
  dependencies : List Dependency := []
  /-- The modules that run on the server. -/
  modules : List ModuleDescriptor := []
  /-- The modules of the user interface. -/
  uiModules : List ModuleDescriptor := []
deriving DecidableEq, Repr

namespace Application

/-- The identifier of the application. -/
def id (a : Application) : String := (VersionedName.mk a.name a.version).id

/-- The modules of one kind. -/
def modulesOf (a : Application) : ModuleKind → List ModuleDescriptor
  | .backend => a.modules
  | .ui => a.uiModules

/-- The modules of both kinds. -/
def allModules (a : Application) : List ModuleDescriptor := a.modules ++ a.uiModules

/-- The identifiers of the modules that run on the server. -/
def moduleIds (a : Application) : List String := a.modules.map (·.id)

end Application

/-- What a request does with applications. -/
inductive EntitlementType where
  /-- Gives applications to a tenant. -/
  | entitle
  /-- Takes applications away. -/
  | revoke
  /-- Moves applications to newer versions. -/
  | upgrade
  /-- Brings about a desired set of applications. -/
  | state
deriving DecidableEq, Repr

namespace EntitlementType

/-- The word for the type. -/
def text : EntitlementType → String
  | entitle => "ENTITLE"
  | revoke => "REVOKE"
  | upgrade => "UPGRADE"
  | state => "STATE"

/-- The type that a word names; the case of its ASCII letters is of no account. -/
def read? (s : String) : Option EntitlementType :=
  match s.map Char.toUpper with
  | "ENTITLE" => some entitle
  | "REVOKE" => some revoke
  | "UPGRADE" => some upgrade
  | "STATE" => some state
  | _ => none

end EntitlementType

end Provisioning
