import Provisioning.Data.Basic

/-!
# Changes of modules
-/

namespace Provisioning

/-- What is done with a module. -/
inductive ModuleAction where
  /-- It is enabled. -/
  | enable
  /-- It takes the place of another version. -/
  | upgrade
  /-- It is disabled. -/
  | disable
deriving DecidableEq, Repr

namespace ModuleAction

/-- The word for the action. -/
def text : ModuleAction → String
  | enable => "enable"
  | upgrade => "upgrade"
  | disable => "disable"

/-- The action that a word names. -/
def read? : String → Option ModuleAction
  | "enable" => some enable
  | "upgrade" => some upgrade
  | "disable" => some disable
  | _ => none

end ModuleAction

/-- A change of one module. -/
structure ModuleChange where
  /-- The module afterwards, or the module that goes. -/
  id : String
  /-- The module that it takes the place of. -/
  replaced : Option String := none
  /-- What is done. -/
  action : ModuleAction
deriving DecidableEq, Repr

namespace ModuleChange

/-- Enables a module. -/
def enable (id : String) : ModuleChange := { id, action := .enable }

/-- Puts a module in the place of another one. -/
def upgrade (replaced id : String) : ModuleChange :=
  { id, replaced := some replaced, action := .upgrade }

/-- Disables a module. -/
def disable (id : String) : ModuleChange := { id, action := .disable }

/-- The change that undoes a change. -/
def inverse (c : ModuleChange) : ModuleChange :=
  match c.action, c.replaced with
  | .enable, _ => disable c.id
  | .disable, _ => enable c.id
  | .upgrade, some replaced => upgrade c.id replaced
  | .upgrade, none => disable c.id

/-- The changes that undo changes, the last one first. -/
def inverses (changes : List ModuleChange) : List ModuleChange := changes.reverse.map inverse

/-- The change as data. -/
def toData (c : ModuleChange) : Data :=
  .table [("id", .text c.id), ("from", .ofText? c.replaced), ("action", .text c.action.text)]

/-- Reads a change. The module that is replaced may be missing or null. -/
def ofData? (d : Data) : Option ModuleChange := do
  match ← d.record? [["id"], ["from"], ["action"]] with
  | [some id, replaced, some action] =>
    let replaced ← match replaced with
      | none | some .null => some none
      | some d => d.text?.map some
    return { id := ← id.text?, replaced, action := ← ModuleAction.read? (← action.text?) }
  | _ => none

end ModuleChange

end Provisioning
