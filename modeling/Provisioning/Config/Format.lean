import Provisioning.Config.Basic
import Provisioning.Data.Json
import Provisioning.Data.Toml.Read
import Provisioning.Files

/-!
# Configurations as texts

A configuration is written in one of two formats, which the name of its file tells apart. What it
leaves out keeps its value of the standard configuration.
-/

namespace Provisioning

/-- A format of configurations. -/
inductive ConfigFormat where
  /-- JSON, the format of files with this extension. -/
  | json
  /-- TOML, the format of all other files. -/
  | toml
deriving DecidableEq, Repr

namespace ConfigFormat

/-- The name of the format. -/
def name : ConfigFormat → String
  | json => "JSON"
  | toml => "TOML"

/-- The format of a file. -/
def ofPath (path : String) : ConfigFormat :=
  if Path.extensionOf? path = some "json" then json else toml

/-- The value that a text writes. -/
def read? : ConfigFormat → String → Option Data
  | json => Json.read?
  | toml => Toml.read?

/-- The values of the fields of a record. In TOML a list may be longer than the record. -/
def record? (f : ConfigFormat) (fields : List (List String)) (d : Data) :
    Option (List (Option Data)) :=
  match f, d with
  | toml, .list items => Data.record? fields (.list (items.take fields.length))
  | _, d => d.record? fields

/-- Whether the value says nothing. TOML has no missing values, but empty lists and tables. -/
def isBlank : ConfigFormat → Data → Bool
  | json, .null => true
  | toml, .list [] => true
  | toml, .table [] => true
  | _, _ => false

/-- The word that names a choice: a text, or a table with a single entry that says nothing. -/
def choice? (f : ConfigFormat) : Data → Option String
  | .text word => some word
  | .table [(word, d)] => if f.isBlank d then some word else none
  | _ => none

/-- A value that may be missing. -/
def field {α : Type} (read? : Data → Option α) (standard : α) : Option Data → Option α
  | some d => read? d
  | none => some standard

/-- A whole number that is not negative and at most the limit. -/
def number? (limit : Nat) (d : Data) : Option Nat :=
  match d.int? with
  | some n => if 0 ≤ n ∧ n ≤ limit then some n.toNat else none
  | none => none

/-- A number; whole ones have to fit 64 bits. -/
def factor? : Data → Option Binary64
  | .float x => some x
  | .int n =>
    if -Int.ofNat (twoTo 63) ≤ n ∧ n < Int.ofNat (twoTo 64) then
      let magnitude := Binary64.nearest n.natAbs 1
      some (if n < 0 then magnitude.negate else magnitude)
    else
      none
  | _ => none

end ConfigFormat

/-- Reads capabilities. -/
def Capabilities.ofData? (f : ConfigFormat) (d : Data) : Option Capabilities := do
  match ← f.record? [["module_installer"], ["gateway"], ["auth"]] d with
  | [installer, gateway, auth] =>
    let choice {α : Type} (read? : String → Option α) (standard : α) : Option Data → Option α :=
      ConfigFormat.field (fun d => (f.choice? d).bind read?) standard
    return {
      moduleInstaller := ← choice ModuleInstallerMode.read? .folio installer
      gateway := ← choice GatewayMode.read? .none gateway
      auth := ← choice AuthMode.read? .none auth }
  | _ => none

/-- Reads how often calls are tried. -/
def RetrySettings.ofData? (f : ConfigFormat) (d : Data) : Option RetrySettings := do
  let standard : RetrySettings := {}
  let fields := [["max_attempts"], ["base_delay_ms"], ["backoff_factor"], ["max_delay_ms"]]
  match ← f.record? fields d with
  | [attempts, base, factor, limit] =>
    let delay (d : Data) : Option UInt64 := (ConfigFormat.number? Text.maxUInt64 d).map .ofNat
    return {
      maxAttempts := ← ConfigFormat.field (ConfigFormat.number? Text.maxUInt32)
        standard.maxAttempts attempts
      baseDelayMs := ← ConfigFormat.field delay standard.baseDelayMs base
      factor := ← ConfigFormat.field ConfigFormat.factor? standard.factor factor
      maxDelayMs := ← ConfigFormat.field delay standard.maxDelayMs limit }
  | _ => none

namespace Config

/-- Reads a configuration. -/
def ofData? (f : ConfigFormat) (d : Data) : Option Config := do
  let standard : Config := {}
  let fields := [["registry_dir"], ["database"], ["pool_size"], ["capabilities"], ["retry"]]
  match ← f.record? fields d with
  | [registryDir, database, poolSize, capabilities, retry] =>
    return {
      registryDir := ← ConfigFormat.field Data.text? standard.registryDir registryDir
      database := ← ConfigFormat.field Data.text? standard.database database
      poolSize := ← ConfigFormat.field (ConfigFormat.number? Text.maxUInt64)
        standard.poolSize poolSize
      capabilities := ← ConfigFormat.field (Capabilities.ofData? f) {} capabilities
      retry := ← ConfigFormat.field (RetrySettings.ofData? f) {} retry }
  | _ => none

/-- The configuration of a file with a text. -/
def ofText (path text : String) : Except Failure Config := do
  let format := ConfigFormat.ofPath path
  match (format.read? text).bind (ofData? format) with
  | none => throw (.invalidConfig format.name path)
  | some c =>
    c.check
    return c

/-- The configuration of a file. -/
def ofFile (path : String) (f : Option File) : Except Failure Config :=
  match f.bind (·.content) with
  | some text => ofText path text
  | none => .error (.unreadableConfig path)

/-- The configuration of a file that is named, or of the first standard file that there is, or the
standard configuration. -/
def load (home : String) (named : Option String) (files : List File) : Except Failure Config :=
  match named with
  | some path => ofFile path (Files.find? files path)
  | none =>
    match (standardPaths home).findSome? fun path => (Files.find? files path).map (path, ·) with
    | some (path, f) => ofFile path f
    | none => .ok {}

end Config

end Provisioning
