import Provisioning.CommandLine.Grammar

/-!
# Reading command lines

The words of a command line are read from left to right. What is found for an option is complete
when the next option or argument begins, and is checked then; so of several mistakes the first one
counts, and a command is checked before the group it belongs to.
-/

namespace Provisioning

/-- What stands on a command line for one command. -/
structure Matches where
  /-- The options with their values, in order; a counter stands as often as it was given. -/
  options : List (String × List String) := []
  /-- The arguments, in order. -/
  arguments : List String := []
deriving DecidableEq, Repr

namespace Matches

/-- Whether an option was given. -/
def has (m : Matches) (name : String) : Bool := (m.options.lookup name).isSome

/-- The value of an option. -/
def value? (m : Matches) (name : String) : Option String :=
  (m.options.lookup name).bind (·.head?)

/-- How often an option was given. -/
def count (m : Matches) (name : String) : Nat := (m.options.filter (·.1 = name)).length

/-- Whether there is neither an option nor an argument. -/
def isEmpty (m : Matches) : Bool := m.options.isEmpty && m.arguments.isEmpty

/-- The matches with one more option, given with values. -/
def addOption (m : Matches) (o : OptionSpec) (values : List String) : Except UsageError Matches :=
  let added : Matches := { m with options := m.options ++ [(o.name, values)] }
  match o.kind, values with
  | .help, _ => .error .displayHelp
  | .version, _ => .error .displayVersion
  | .counter, _ => .ok added
  | .switch, _ => if m.has o.name then .error .argumentConflict else .ok added
  | .value _, [] => .error .invalidValue
  | .value kind, value :: _ =>
    if m.has o.name then .error .argumentConflict
    else (kind.check value).map fun _ => added

/-- The matches with one more argument. -/
def addArgument (m : Matches) (a : ArgumentSpec) (value : String) : Except UsageError Matches :=
  (a.kind.check value).map fun _ => { m with arguments := m.arguments ++ [value] }

end Matches

/-- What is found and not yet checked. -/
inductive Pending where
  /-- An option, with its value if that has been read. -/
  | option (o : OptionSpec) (value : Option String)
  /-- An argument. -/
  | argument (a : ArgumentSpec) (value : String)

/-- A command part way through its words. -/
structure Level where
  /-- What is found and checked. -/
  found : Matches := {}
  /-- What is found and not yet checked. -/
  pending : Option Pending := none
  /-- The number of arguments so far. -/
  arguments : Nat := 0
  /-- Whether two dashes have ended the options. -/
  trailing : Bool := false

namespace Level

/-- Checks what is found and not yet checked. -/
def settle (l : Level) : Except UsageError Level :=
  match l.pending with
  | none => .ok l
  | some (.option o value) =>
    (l.found.addOption o value.toList).map fun found => { l with found, pending := none }
  | some (.argument a value) =>
    (l.found.addArgument a value).map fun found => { l with found, pending := none }

/-- Adds an option that is complete. -/
def addOption (l : Level) (o : OptionSpec) (values : List String) : Except UsageError Level := do
  let l ← l.settle
  return { l with found := ← l.found.addOption o values }

/-- Adds an option whose value comes next. -/
def awaitValue (l : Level) (o : OptionSpec) : Except UsageError Level := do
  return { ← l.settle with pending := some (.option o none) }

/-- The option whose value comes next. -/
def awaited? (l : Level) : Option OptionSpec :=
  match l.pending with
  | some (.option o none) => some o
  | _ => none

/-- Reads an option by its name, with what stands behind an equals sign. -/
def readNamed (options : List OptionSpec) (l : Level) (name : String) (attached : Option String) :
    Except UsageError Level :=
  match options.find? (·.name = name) with
  | none => .error .unknownArgument
  | some o =>
    if o.takesValue then
      match attached with
      | some value => l.addOption o [value]
      | none => l.awaitValue o
    else if attached.isSome then
      .error .tooManyValues
    else
      l.addOption o []

/-- Reads options by their letters. Behind the letter of an option with a value stands the value,
perhaps with an equals sign in front. -/
def readLetters (options : List OptionSpec) (l : Level) : List Char → Except UsageError Level
  | [] => .ok l
  | c :: rest =>
    match options.find? (·.letter = some c) with
    | none => .error .unknownArgument
    | some o =>
      if o.takesValue then
        match rest with
        | [] => l.awaitValue o
        | '=' :: value => l.addOption o [String.ofList value]
        | value => l.addOption o [String.ofList value]
      else do
        readLetters options (← l.addOption o []) rest

/-- Reads an argument. -/
def readArgument (spec : CommandSpec) (l : Level) (word : String) : Except UsageError Level :=
  match spec with
  | .group _ _ =>
    if l.trailing && (word = CommandSpec.helpName || (spec.find? word).isSome) then
      .error .unknownArgument
    else
      .error .invalidSubcommand
  | .command _ none => .error .unknownArgument
  | .command _ (some a) =>
    if a.many || l.arguments = 0 then do
      return { ← l.settle with
        pending := some (.argument a word), arguments := l.arguments + 1 }
    else
      .error .unknownArgument

/-- What a word is. -/
inductive Word where
  /-- The end of the options. -/
  | endOfOptions
  /-- An option by its name, with what stands behind an equals sign. -/
  | named (name : String) (attached : Option String)
  /-- Options by their letters. -/
  | letters (cs : List Char)
  /-- Anything else. -/
  | other

/-- What a word is by its look. -/
def Word.ofString (word : String) : Word :=
  match word.toList with
  | ['-', '-'] => endOfOptions
  | '-' :: '-' :: cs =>
    named (String.ofList (cs.takeWhile (· ≠ '=')))
      (match cs.dropWhile (· ≠ '=') with
        | [] => none
        | _ :: value => some (String.ofList value))
  | '-' :: c :: cs => letters (c :: cs)
  | _ => other

/-- Reads a word that is no command. -/
def read (spec : CommandSpec) (l : Level) (word : String) : Except UsageError Level :=
  if l.trailing then
    l.readArgument spec word
  else
    match Word.ofString word with
    | .endOfOptions => .ok { l with trailing := true }
    | .named name attached => readNamed spec.options l name attached
    | .letters cs => readLetters spec.options l cs
    | .other =>
      match l.awaited? with
      | some o => .ok { l with pending := some (.option o (some word)) }
      | none => l.readArgument spec word

/-- Whether a word may name a command. -/
def admitsCommand (l : Level) : Bool := !l.trailing && l.awaited?.isNone

/-- Checks that the options and arguments that have to be there are. -/
def checkRequired (spec : CommandSpec) (m : Matches) : Except UsageError Unit :=
  let missesArgument := match spec with
    | .command _ (some a) => a.required && m.arguments.isEmpty
    | _ => false
  if missesArgument || spec.options.any fun o => o.required && !m.has o.name then
    .error .missingRequired
  else
    .ok ()

/-- Ends a command, given what the commands inside it have. -/
def finish (spec : CommandSpec) (l : Level) (inner : Option (List Matches)) :
    Except UsageError (List Matches) := do
  let l ← l.settle
  match spec, inner with
  | .group _ _, none =>
    throw (if l.found.isEmpty then .displayHelpOnMissing else .missingSubcommand)
  | _, _ =>
    checkRequired spec l.found
    return l.found :: inner.getD []

end Level

namespace CommandSpec

/-- Reads the words of a command, behind those that are read: gives the names of the commands, from
group to group, and what stands on the command line for each of them. -/
def parseFrom (spec : CommandSpec) (l : Level) :
    List String → Except UsageError (List String × List Matches)
  | [] => (l.finish spec none).map ([], ·)
  | word :: rest =>
    if l.admitsCommand then
      match spec.find? word with
      | some inner => do
        let (names, found) ← parseFrom inner {} rest
        return (word :: names, ← l.finish spec (some found))
      | none =>
        match spec with
        | .group _ _ =>
          if word = helpName then
            .error (if spec.names rest then .displayHelp else .invalidSubcommand)
          else do
            parseFrom spec (← l.read spec word) rest
        | .command _ _ => do parseFrom spec (← l.read spec word) rest
    else do
      parseFrom spec (← l.read spec word) rest

/-- Reads the words of a command line. -/
def parse (spec : CommandSpec) (words : List String) :
    Except UsageError (List String × List Matches) := spec.parseFrom {} words

end CommandSpec

end Provisioning
