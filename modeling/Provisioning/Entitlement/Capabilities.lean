/-!
# Capabilities

An installation enables modules one by one or in batches, and it may have a gateway and a server
for permissions.
-/

namespace Provisioning

/-- How modules are enabled. -/
inductive ModuleInstallerMode where
  /-- One stage for each module, in layers. -/
  | folio
  /-- One stage for all modules of an application. -/
  | okapi
deriving DecidableEq, Repr

namespace ModuleInstallerMode

/-- The word for the mode. -/
def text : ModuleInstallerMode → String
  | folio => "folio"
  | okapi => "okapi"

/-- The mode that a word names. -/
def read? : String → Option ModuleInstallerMode
  | "folio" => some folio
  | "okapi" => some okapi
  | _ => none

end ModuleInstallerMode

/-- The gateway. -/
inductive GatewayMode where
  /-- Applications have routes. -/
  | kong
  /-- There is no gateway. -/
  | none
deriving DecidableEq, Repr

namespace GatewayMode

/-- The word for the mode. -/
def text : GatewayMode → String
  | kong => "kong"
  | none => "none"

/-- The mode that a word names. -/
def read? : String → Option GatewayMode
  | "kong" => some kong
  | "none" => some none
  | _ => Option.none

end GatewayMode

/-- The server for permissions. -/
inductive AuthMode where
  /-- Applications have auth resources. -/
  | keycloak
  /-- There is no server for permissions. -/
  | none
deriving DecidableEq, Repr

namespace AuthMode

/-- The word for the mode. -/
def text : AuthMode → String
  | keycloak => "keycloak"
  | none => "none"

/-- The mode that a word names. -/
def read? : String → Option AuthMode
  | "keycloak" => some keycloak
  | "none" => some none
  | _ => Option.none

end AuthMode

/-- What an installation can do. -/
structure Capabilities where
  /-- How modules are enabled. -/
  moduleInstaller : ModuleInstallerMode := .folio
  /-- The gateway. -/
  gateway : GatewayMode := .none
  /-- The server for permissions. -/
  auth : AuthMode := .none
deriving DecidableEq, Repr

end Provisioning
