import Provisioning.Application.Basic
import Provisioning.CommandLine.Parse
import Provisioning.Text.Split

/-!
# Invocations

An invocation is a command with its options, as it is read from a command line.
-/

namespace Provisioning

/-- The shells for which completions can be made. -/
inductive Shell where
  /-- Bash. -/
  | bash
  /-- Elvish. -/
  | elvish
  /-- Fish. -/
  | fish
  /-- PowerShell. -/
  | powershell
  /-- Zsh. -/
  | zsh
deriving DecidableEq, Repr

namespace Shell

/-- All shells. -/
def all : List Shell := [bash, elvish, fish, powershell, zsh]

/-- The name of a shell. -/
def name : Shell → String
  | bash => "bash"
  | elvish => "elvish"
  | fish => "fish"
  | powershell => "powershell"
  | zsh => "zsh"

/-- The shell of a name. -/
def read? (name : String) : Option Shell := all.find? (·.name = name)

/-- What makes a shell complete the first word behind the name of a program. -/
def completion (program : String) (words : List String) : Shell → String
  | bash => s!"complete -W '" ++ Text.join " " words ++ s!"' {program}"
  | elvish =>
    s!"set edit:completion:arg-completer[{program}] = \x7b|@words| put " ++ Text.join " " words
      ++ " \x7d"
  | fish => s!"complete -c {program} -f -a '" ++ Text.join " " words ++ "'"
  | powershell =>
    s!"Register-ArgumentCompleter -Native -CommandName {program} -ScriptBlock \x7b '"
      ++ Text.join "', '" words ++ "' \x7d"
  | zsh => "compctl -k '(" ++ Text.join " " words ++ s!")' {program}"

end Shell

/-- A command that changes the applications of a tenant. -/
structure ChangeCommand where
  /-- The tenant. -/
  tenantId : String
  /-- Whether to go on after a failure. -/
  ignoreErrors : Bool
  /-- Whether to remove the data of modules that are disabled. -/
  purge : Bool
  /-- The applications. -/
  applicationIds : List String
deriving DecidableEq, Repr

/-- A command. -/
inductive Command where
  /-- Entitles to applications, revokes or upgrades them, perhaps in the background. -/
  | change (type : EntitlementType) (change : ChangeCommand) (runAsync : Bool)
  /-- Makes the applications of a tenant those that are named, perhaps without asking, or only tells
  what would be done. -/
  | sync (change : ChangeCommand) (confirmed dryRun : Bool)
  /-- Tells what would be done. -/
  | plan (tenantId : String) (applicationIds : List String)
  /-- Runs one check on a request of a type. -/
  | validate (tenantId validator type : String) (applicationIds : List String)
  /-- Shows a flow, perhaps with stages. -/
  | showFlow (id : String) (stages : Bool)
  /-- Lists flows of a tenant, or those of one of its applications. -/
  | listFlows (tenantId : String) (applicationId : Option String) (limit : Nat)
  /-- Shows the flow of an application, perhaps with stages. -/
  | showApplicationFlow (id : String) (stages : Bool)
  /-- Lists the entitlements of a tenant. -/
  | listEntitlements (tenantId : String)
  /-- Prints what a shell needs to complete commands. -/
  | completions (shell : Shell)
deriving DecidableEq, Repr

/-- A command with the options of all commands. -/
structure Invocation where
  /-- How much is told. -/
  verbose : Nat
  /-- Whether only what is essential is told. -/
  quiet : Bool
  /-- The file of the configuration. -/
  config : Option String
  /-- The command. -/
  command : Command
deriving DecidableEq, Repr

namespace Invocation

/-! ## Grammar -/

/-- The name of the program. -/
def programName : String := "entitlements"

/-- The options of all commands. -/
def globalOptions : List OptionSpec :=
  [{ name := "verbose", letter := some 'v', kind := .counter },
   { name := "quiet", letter := some 'q', kind := .switch },
   { name := "config", kind := .value .path }]

/-- An option without value. -/
def switch (name : String) (letter : Option Char := none) : OptionSpec :=
  { name, letter, kind := .switch }

/-- The option that names the tenant. -/
def tenantOption : OptionSpec :=
  { name := "tenant", letter := some 't', kind := .value .text, required := true }

/-- The option to show stages. -/
def stagesOption : OptionSpec := switch "stages" (some 's')

/-- A command with options of its own. -/
def taking (options : List OptionSpec) (arguments : Option ArgumentSpec := none) : CommandSpec :=
  .command (options ++ globalOptions) arguments

/-- A command that changes applications. -/
def changeSpec : CommandSpec :=
  taking [tenantOption, switch "ignore-errors", switch "async", switch "purge"]
    (some { many := true })

/-- The word for the type of requests that are checked, if none is given. -/
def standardType : String := "ENTITLE"

/-- The number of flows that are listed, if none is given. -/
def standardLimit : Nat := 20

/-- The grammar of the command line. -/
def spec : CommandSpec :=
  .group globalOptions [
    ("entitle", changeSpec),
    ("revoke", changeSpec),
    ("upgrade", changeSpec),
    ("sync", taking
      [tenantOption, switch "yes" (some 'y'), switch "dry-run" (some 'd'), switch "ignore-errors",
        switch "purge"]
      (some { required := false, many := true })),
    ("plan", taking [tenantOption] (some { required := false, many := true })),
    ("validate", taking
      [tenantOption, { name := "validator", kind := .value .text, required := true },
        { name := "type", kind := .value .text }]
      (some { many := true })),
    ("flows", .group globalOptions [
      ("show", taking [stagesOption] (some {})),
      ("list", taking
        [tenantOption, { name := "app", letter := some 'a', kind := .value .text },
          { name := "limit", letter := some 'l', kind := .value .number }]),
      ("app", taking [stagesOption] (some {}))]),
    ("entitlements", .group globalOptions [("list", taking [tenantOption])]),
    ("completions", taking []
      (some { kind := .choice (Shell.all.map (·.name)) }))]

/-! ## Reading -/

/-- The command of names, from group to group, given what stands on the command line for it. -/
def command? (names : List String) (m : Matches) : Option Command :=
  let text (name : String) : String := (m.value? name).getD ""
  let tenantId := text "tenant"
  let id := m.arguments.headD ""
  let change : ChangeCommand :=
    { tenantId, ignoreErrors := m.has "ignore-errors", purge := m.has "purge"
      applicationIds := m.arguments }
  match names with
  | ["entitle"] => some (.change .entitle change (m.has "async"))
  | ["revoke"] => some (.change .revoke change (m.has "async"))
  | ["upgrade"] => some (.change .upgrade change (m.has "async"))
  | ["sync"] => some (.sync change (m.has "yes") (m.has "dry-run"))
  | ["plan"] => some (.plan tenantId m.arguments)
  | ["validate"] =>
    some (.validate tenantId (text "validator") ((m.value? "type").getD standardType) m.arguments)
  | ["flows", "show"] => some (.showFlow id (m.has "stages"))
  | ["flows", "list"] =>
    let limit := (m.value? "limit").bind fun s =>
      Text.boundedNumberWithSign? Text.maxUInt64 s.toList
    some (.listFlows tenantId (m.value? "app") (limit.getD standardLimit))
  | ["flows", "app"] => some (.showApplicationFlow id (m.has "stages"))
  | ["entitlements", "list"] => some (.listEntitlements tenantId)
  | ["completions"] => (Shell.read? id).map .completions
  | _ => none

/-- The largest number of times that telling more counts. -/
def maxVerbose : Nat := 255

/-- The invocation of a command line. An option of all commands counts where it stands innermost. -/
def parse (words : List String) : Except UsageError Invocation := do
  let (names, levels) ← spec.parse words
  let inner := levels.reverse
  match command? names (inner.headD {}) with
  | none => throw .invalidSubcommand
  | some command =>
    return {
      verbose := min maxVerbose (((inner.find? (·.has "verbose")).map (·.count "verbose")).getD 0)
      quiet := inner.any (·.has "quiet")
      config := inner.findSome? (·.value? "config")
      command }

end Invocation

end Provisioning
