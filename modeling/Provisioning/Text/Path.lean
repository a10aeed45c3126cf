import Provisioning.Text.Split

/-!
# Paths of files

The names of a path are separated by slashes. A name has an extension when there is a dot in it
that is not its first character; the extension is what stands behind the last dot.
-/

namespace Provisioning.Path

/-- What stands behind the last dot of a name, if anything stands before that dot. -/
def extension? (name : String) : Option String :=
  match name.toList.reverse.dropWhile (· ≠ '.') with
  | _ :: _ :: _ =>
    if name = ".." then none
    else some (String.ofList (name.toList.reverse.takeWhile (· ≠ '.')).reverse)
  | _ => none

/-- The names of a path that say where to go: neither nothing nor a single dot. -/
def names (path : String) : List String :=
  (Text.split '/' path).filter fun name => name ≠ "" ∧ name ≠ "."

/-- The names on the way of a path, from the top on when it starts with a slash. -/
def steps (path : String) : List String :=
  if path.startsWith "/" then "/" :: names path else names path

/-- Whether the way a path is written can only mean a directory. -/
def namesDirectory (path : String) : Bool :=
  path ≠ "" ∧ (Text.split '/' path).getLast? ∈ ["", ".", ".."].map some

/-- The extension of the last name of a path. -/
def extensionOf? (path : String) : Option String := (names path).getLast?.bind extension?

/-- The path of a name in a directory. -/
def inside (directory name : String) : String :=
  if directory = "" ∨ directory.endsWith "/" then directory ++ name else directory ++ "/" ++ name

/-- The path with a tilde at its start, as the whole first name, replaced by the home directory. -/
def expand (home path : String) : String :=
  match path.toList with
  | ['~'] => home
  | '~' :: '/' :: rest => home ++ "/" ++ String.ofList rest
  | _ => path

end Provisioning.Path
