import Provisioning.Text.Path

/-!
# Files

Files are known by the names on the way to them. A directory is there when there is a file below it,
so files alone tell what is where.
-/

namespace Provisioning

/-- A file. -/
structure File where
  /-- The names of the directories on the way, and of the file. -/
  path : List String
  /-- The text of the file; none when it cannot be read as text. -/
  content : Option String
deriving DecidableEq, Repr

namespace File

/-- The path of a file below a directory; the directory itself may be the file. -/
def pathBelow (directory : String) (f : File) : String :=
  if f.path = [] then directory else Path.inside directory (Text.join "/" f.path)

/-- Puts a file at its place: paths ascend name by name. -/
def place (f : File) : List File → List File
  | [] => [f]
  | g :: rest => if compare f.path g.path == .lt then f :: g :: rest else g :: place f rest

end File

namespace Files

/-- The file of a path. -/
def find? (files : List File) (path : String) : Option File :=
  files.find? fun f => f.path = Path.steps path

/-- The files below a directory, with what their paths are from there. -/
def below (directory : String) (files : List File) : List File :=
  match Path.steps directory with
  | [] => []
  | way => files.filterMap fun f => (way.isPrefixOf? f.path).map fun rest => { f with path := rest }

/-- The files in the order in which they are visited: depth first, the entries of a directory in
ascending order of their names. -/
def sorted (files : List File) : List File := files.foldl (fun placed f => f.place placed) []

/-- Whether a path may lead to a file of another kind than the given ones: none of them is there or
on the way, and the path is not that of a directory. -/
def hasRoomFor (path : String) (files : List File) : Bool :=
  !Path.namesDirectory path &&
    files.all fun f => !f.path.isPrefixOf (Path.steps path) && !(Path.steps path).isPrefixOf f.path

end Files

end Provisioning
