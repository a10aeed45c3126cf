import Provisioning.CommandLine.Run
import Provisioning.Config.Format
import Provisioning.Text.Uuid

/-!
# Commands on a computer

A computer holds files and databases. A command finds its configuration among the files, then the
applications of the registry, and the store in the database that the configuration names.
-/

namespace Provisioning

/-- What commands may use of a computer. -/
structure Host where
  /-- The home directory. -/
  home : String
  /-- The files that are no databases. -/
  files : List File := []
  /-- The stores in the databases, by their paths. -/
  databases : List (List String × Store) := []
  /-- The time. -/
  clock : Timestamp := 0

/-- Random identifiers one after another, from one on. -/
def FlowIds.startingAt (n : Nat) : FlowIds :=
  { root := Uuid.text n, application := fun i => Uuid.text (n + 1 + i) }

namespace Host

/-- Whether the database of a path is gone when it is closed. -/
def isTransient (path : String) : Bool := path == "" || path == ":memory:"

/-- The store in the database of a path: a new one where there is none yet. -/
def open? (h : Host) (path : String) : Option Store :=
  let opened (s : Store) : Store := { s with clock := h.clock }
  if isTransient path then some (opened .empty)
  else if Files.hasRoomFor path h.files then
    some (opened ((h.databases.lookup (Path.steps path)).getD .empty))
  else none

/-- The computer with a store in the database of a path. -/
def save (h : Host) (path : String) (s : Store) : Host :=
  if isTransient path then h
  else
    let others := h.databases.filter (·.1 ≠ Path.steps path)
    { h with databases := (Path.steps path, s) :: others }

/-- The configuration of an invocation. -/
def config (h : Host) (i : Invocation) : Except Failure Config :=
  Config.load h.home i.config h.files

/-- What an invocation finds. -/
def environment (h : Host) (i : Invocation) (ids : FlowIds) : Environment :=
  match h.config i with
  | .error f => { config := .error f, home := h.home, registry := .ofList [], store := none, ids }
  | .ok c => {
      config := .ok c, home := h.home, registry := .ofDirectory (c.registryPath h.home) h.files
      store := h.open? (c.databasePath h.home), ids }

/-- The computer after a command: the store it leaves is in its database. -/
def after (h : Host) (i : Invocation) (r : CommandRun) : Host :=
  match h.config i, r.store with
  | .ok c, some s => h.save (c.databasePath h.home) s
  | _, _ => h

end Host

end Provisioning
