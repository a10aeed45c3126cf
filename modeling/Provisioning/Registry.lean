import Provisioning.Application.Format
import Provisioning.Data.Json
import Provisioning.Failure
import Provisioning.Files
import Provisioning.Ordered.Map

/-!
# The registry of applications

Each application has a file of its own below the directory of the registry. Files are visited depth
first, the entries of a directory in ascending order of their names; of several files of one
application the last one counts. Only files whose names have the extension `json` are read.
-/

namespace Provisioning

namespace File

/-- Whether the file below a directory is read. -/
def isDescriptor (directory : String) (f : File) : Bool :=
  Path.extensionOf? (f.pathBelow directory) == some "json"

/-- Reads the application of a file below a directory. -/
def application (directory : String) (f : File) : Except Failure Application :=
  match f.content with
  | none => .error (.unreadableDescriptor (f.pathBelow directory))
  | some text =>
    match (Json.read? text).bind Application.ofData? with
    | some a => .ok a
    | none => .error (.invalidDescriptor (f.pathBelow directory))

end File

/-- What is known about applications. -/
structure Registry where
  /-- All applications, or why they cannot be told. -/
  applications : Except Failure (List Application)

namespace Registry

/-- The registry of given applications. -/
def ofList (applications : List Application) : Registry := ⟨.ok applications⟩

/-- The registry of a directory. -/
def ofDirectory (directory : String) (files : List File) : Registry :=
  let found := Files.sorted (Files.below directory files)
  ⟨(found.filter (·.isDescriptor directory)).mapM (·.application directory)⟩

/-- The applications by their identifiers. -/
def byId (applications : List Application) : OrderedMap String Application :=
  .ofList (applications.map fun a => (a.id, a))

/-- The applications of given identifiers, in their order. All of them have to be known. -/
def find (r : Registry) (ids : List String) : Except Failure (List Application) := do
  let known := byId (← r.applications)
  match ids.filter fun id => !known.contains id with
  | [] => return ids.filterMap known.get?
  | missing => throw (.refused (.applicationsNotFound missing))

end Registry

end Provisioning
