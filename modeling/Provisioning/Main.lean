import Provisioning.CommandLine.Host
import Provisioning.Data.Json
import Provisioning.Store.Image

/-!
# The program

The program reads what an invocation needs from the computer, runs the command, prints its lines and
writes the store back. What commands do is decided elsewhere.
-/

namespace Provisioning.Program

/-! ## Reading -/

/-- The file of a path, if there is one. -/
def file? (path : String) : IO (Option File) := do
  try
    let text ← IO.FS.readFile path
    return some { path := Path.steps path, content := some text }
  catch
    | .noFileOrDirectory .. => return none
    | _ => return some { path := Path.steps path, content := none }

/-- The files below a directory. -/
partial def filesBelow (directory : String) : IO (List File) := do
  let entries ←
    try
      (← IO.FS.realPath directory).readDir
    catch _ =>
      return (← file? directory).toList
  entries.toList.flatMapM fun e => do
    let path := Path.inside directory e.fileName
    if ← e.path.isDir then filesBelow path else return (← file? path).toList

/-- The time, as a new file tells it. -/
def now : IO Timestamp := do
  let (_, path) ← IO.FS.createTempFile
  let modified := (← path.metadata).modified
  IO.FS.removeFile path
  return modified.sec * 1000 + modified.nsec.toNat / 1000000

/-- The computer, as far as an invocation needs it. -/
def host (i : Invocation) : IO Host := do
  let home := (← IO.getEnv "HOME").getD ""
  let paths := i.config.elim (Config.standardPaths home) ([·])
  let settings ← paths.filterMapM file?
  let bare : Host := { home, files := settings, clock := ← now }
  match bare.config i with
  | .error _ => return bare
  | .ok c =>
    let databasePath := c.databasePath home
    let known := { bare with files := settings ++ (← filesBelow (c.registryPath home)) }
    if Host.isTransient databasePath then
      return known
    match ← file? databasePath with
    | none => return known
    | some f =>
      match (f.content.bind Json.read?).bind Store.ofImage? with
      | some s => return known.save databasePath s
      | none => return { known with files := f :: known.files }

/-! ## Writing -/

/-- Writes the store of a command to the database of the configuration. -/
def writeStore (h : Host) (i : Invocation) (run : CommandRun) : IO Unit := do
  match h.config i, run.store with
  | .ok c, some s =>
    let path := c.databasePath h.home
    unless Host.isTransient path do
      if let some directory := Text.beforeLastSlash? path.toList then
        IO.FS.createDirAll (String.ofList directory)
      IO.FS.writeFile path (Json.write s.toImage)
  | _, _ => return

/-- Prints lines. -/
def print (lines : List Line) : IO Unit := lines.forM fun l => IO.println l.shown

/-- Prints what a command prints, and keeps what it has changed. -/
def finish (h : Host) (i : Invocation) (run : CommandRun) : IO UInt32 := do
  print run.lines
  writeStore h i run
  match run.failure with
  | none => return 0
  | some f =>
    IO.eprintln s!"Error: {f.message}"
    return 1

/-- Whether a question is answered with yes; nothing means yes. -/
def isYes (answer : String) : Bool :=
  match answer.trimAscii.toString.toLower with
  | "" | "y" | "yes" => true
  | _ => false

/-- The variable of the environment that names the configuration when the command line does not. -/
def configVariable : String := "ENTITLEMENTS_CONFIG"

/-- Runs an invocation. -/
def run (given : Invocation) : IO UInt32 := do
  let i := { given with config := given.config.or (← IO.getEnv configVariable) }
  let h ← host i
  let ids := FlowIds.startingAt (← IO.rand 0 (Uuid.count - 1))
  match i.run (h.environment i ids) with
  | .done run => finish h i run
  | .ask lines question answered =>
    print lines
    let input ← IO.getStdin
    if ← input.isTty then
      IO.print s!"{question} [Y/n] "
      (← IO.getStdout).flush
      finish h i (answered (isYes (← input.getLine)))
    else
      IO.eprintln "Error: IO error: not a terminal"
      return 1

end Provisioning.Program

/-- Runs the command of a command line. -/
def main (arguments : List String) : IO UInt32 :=
  match Provisioning.Invocation.parse arguments with
  | .ok i => Provisioning.Program.run i
  | .error e => do
    IO.eprintln s!"Error: {e.kind}"
    return if e.isInformation then 0 else 2
