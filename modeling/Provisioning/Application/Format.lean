import Provisioning.Application.Basic
import Provisioning.Data.Basic

/-!
# Descriptors of applications as data

A descriptor is a record: a table, or the list of the values of its fields. The lists of
dependencies, modules and interfaces may be missing, and those of modules have two names each.
-/

namespace Provisioning

/-- A field that has to be there and to be a text. -/
def Data.requiredText? (field : Option Data) : Option String := do (← field).text?

/-- A field that is a list of records, empty when it is missing. -/
def Data.records? {α : Type} (read : Data → Option α) : Option Data → Option (List α)
  | none => some []
  | some d => do (← d.list?).mapM read

/-- Reads a dependency. -/
def Dependency.ofData? (d : Data) : Option Dependency := do
  match ← d.record? [["name"], ["version"]] with
  | [name, range] =>
    return { name := ← Data.requiredText? name, range := ← Data.requiredText? range }
  | _ => none

/-- Reads an interface reference. -/
def InterfaceReference.ofData? (d : Data) : Option InterfaceReference := do
  match ← d.record? [["id"], ["version"]] with
  | [id, version] =>
    return { id := ← Data.requiredText? id, version := ← Data.requiredText? version }
  | _ => none

/-- Reads a module. -/
def ModuleDescriptor.ofData? (d : Data) : Option ModuleDescriptor := do
  match ← d.record? [["id"], ["provides"], ["requires"]] with
  | [id, provides, requires] =>
    return {
      id := ← Data.requiredText? id
      provides := ← Data.records? InterfaceReference.ofData? provides
      requires := ← Data.records? InterfaceReference.ofData? requires }
  | _ => none

/-- Reads an application. -/
def Application.ofData? (d : Data) : Option Application := do
  match ← d.record? [["name"], ["version"], ["dependencies"], ["modules", "moduleDescriptors"],
      ["uiModules", "uiModuleDescriptors"]] with
  | [name, version, dependencies, modules, uiModules] =>
    return {
      name := ← Data.requiredText? name
      version := ← Data.requiredText? version
      dependencies := ← Data.records? Dependency.ofData? dependencies
      modules := ← Data.records? ModuleDescriptor.ofData? modules
      uiModules := ← Data.records? ModuleDescriptor.ofData? uiModules }
  | _ => none

/-- A dependency as a table. -/
def Dependency.toData (d : Dependency) : Data :=
  .table [("name", .text d.name), ("version", .text d.range)]

/-- An interface reference as a table. -/
def InterfaceReference.toData (r : InterfaceReference) : Data :=
  .table [("id", .text r.id), ("version", .text r.version)]

/-- A module as a table of all its fields. -/
def ModuleDescriptor.toData (m : ModuleDescriptor) : Data :=
  .table [("id", .text m.id), ("provides", .list (m.provides.map (·.toData))),
    ("requires", .list (m.requires.map (·.toData)))]

/-- An application as a table of all its fields. -/
def Application.toData (a : Application) : Data :=
  .table [("name", .text a.name), ("version", .text a.version),
    ("dependencies", .list (a.dependencies.map (·.toData))),
    ("modules", .list (a.modules.map (·.toData))),
    ("uiModules", .list (a.uiModules.map (·.toData)))]

end Provisioning
