import Provisioning.Text.Number

/-!
# Grammars of command lines

A grammar says which options and arguments a command takes. A command either takes arguments, or it
is a group of other commands, each with a grammar of its own.
-/

namespace Provisioning

/-- Why a command line is not run. -/
inductive UsageError where
  /-- Help was asked for. -/
  | displayHelp
  /-- The version was asked for. -/
  | displayVersion
  /-- A group of commands stands alone, so its help is shown. -/
  | displayHelpOnMissing
  /-- A group of commands has options and no command. -/
  | missingSubcommand
  /-- There is no command of the name. -/
  | invalidSubcommand
  /-- There is no such option, or there is one argument too many. -/
  | unknownArgument
  /-- An option or argument is missing that has to be there. -/
  | missingRequired
  /-- An option that has one value, or none, stands twice. -/
  | argumentConflict
  /-- A value is missing, or not one of the possible ones. -/
  | invalidValue
  /-- A value cannot be read. -/
  | valueValidation
  /-- An option without value has one. -/
  | tooManyValues
deriving DecidableEq, Repr

namespace UsageError

/-- The word for the kind of the error. -/
def kind : UsageError → String
  | displayHelp => "DisplayHelp"
  | displayVersion => "DisplayVersion"
  | displayHelpOnMissing => "DisplayHelpOnMissingArgumentOrSubcommand"
  | missingSubcommand => "MissingSubcommand"
  | invalidSubcommand => "InvalidSubcommand"
  | unknownArgument => "UnknownArgument"
  | missingRequired => "MissingRequiredArgument"
  | argumentConflict => "ArgumentConflict"
  | invalidValue => "InvalidValue"
  | valueValidation => "ValueValidation"
  | tooManyValues => "TooManyValues"

/-- Whether nothing is wrong with the command line. -/
def isInformation : UsageError → Bool
  | displayHelp | displayVersion => true
  | _ => false

end UsageError

/-- What a value has to be. -/
inductive ValueKind where
  /-- Any text. -/
  | text
  /-- A text that is not empty. -/
  | path
  /-- A whole number of 64 bits. -/
  | number
  /-- One of a few words. -/
  | choice (words : List String)
deriving DecidableEq, Repr

namespace ValueKind

/-- Checks a value. -/
def check : ValueKind → String → Except UsageError Unit
  | text, _ => .ok ()
  | path, value => if value = "" then .error .invalidValue else .ok ()
  | number, value =>
    if (Text.boundedNumberWithSign? Text.maxUInt64 value.toList).isSome then .ok ()
    else .error .valueValidation
  | choice words, value => if words.contains value then .ok () else .error .invalidValue

end ValueKind

/-- What an option is for. -/
inductive OptionKind where
  /-- It may stand once. -/
  | switch
  /-- It may stand any number of times. -/
  | counter
  /-- It may stand once, with a value. -/
  | value (kind : ValueKind)
  /-- It asks for help. -/
  | help
  /-- It asks for the version. -/
  | version
deriving DecidableEq, Repr

/-- An option. -/
structure OptionSpec where
  /-- The name, which stands behind two dashes. -/
  name : String
  /-- The letter, which stands behind one dash. -/
  letter : Option Char := none
  /-- What it is for. -/
  kind : OptionKind
  /-- Whether it has to be there. -/
  required : Bool := false
deriving DecidableEq, Repr

namespace OptionSpec

/-- Whether the option has a value. -/
def takesValue (o : OptionSpec) : Bool :=
  match o.kind with
  | .value _ => true
  | _ => false

end OptionSpec

/-- The arguments of a command. -/
structure ArgumentSpec where
  /-- What each of them has to be. -/
  kind : ValueKind := .text
  /-- Whether there has to be one. -/
  required : Bool := true
  /-- Whether there may be several. -/
  many : Bool := false
deriving DecidableEq, Repr

/-- A command or a group of commands. -/
inductive CommandSpec where
  /-- A command with options and perhaps arguments. -/
  | command (options : List OptionSpec) (arguments : Option ArgumentSpec)
  /-- A group of commands by name, with options. -/
  | group (options : List OptionSpec) (commands : List (String × CommandSpec))

namespace CommandSpec

/-- The options of every command. -/
def commonOptions : List OptionSpec :=
  [{ name := "help", letter := some 'h', kind := .help },
   { name := "version", letter := some 'V', kind := .version }]

/-- All options of a command, with those that every command has. -/
def options : CommandSpec → List OptionSpec
  | command options _ | group options _ => options ++ commonOptions

/-- The command of a name in a group. -/
def find? (name : String) : CommandSpec → Option CommandSpec
  | command _ _ => none
  | group _ commands => commands.lookup name

/-- The names of the commands in a group. -/
def commandNames : CommandSpec → List String
  | command _ _ => []
  | group _ commands => commands.map (·.1)

/-- The command in each group that asks for help. -/
def helpName : String := "help"

/-- Whether the words name a command, from group to group; the last word may also ask for help. -/
def names : CommandSpec → List String → Bool
  | _, [] => true
  | group options commands, name :: rest =>
    (name == helpName && rest.isEmpty) ||
      match (group options commands).find? name with
      | some c => names c rest
      | none => false
  | command _ _, _ :: _ => false
termination_by _ words => words.length

end CommandSpec

end Provisioning
