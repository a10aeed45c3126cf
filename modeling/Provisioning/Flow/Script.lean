import Provisioning.Flow.Stage

/-!
# Scripted stages

For trials of flows a stage can be given by a script: a list of actions, each of which looks at what
the stage knows or stores a result, and what comes of them. A scripted stage works on a trace, in
which it leaves what it found.
-/

namespace Provisioning

/-- The kind of value that a word stands for. -/
def DataKind.read? : String → Option DataKind
  | "string" => some text
  | "bool" => some bool
  | "u64" => some unsigned
  | "strings" => some texts
  | _ => none

/-- One step of a script. -/
inductive StageAction where
  /-- Stores a result. -/
  | store (value : Data)
  /-- Looks up a parameter. -/
  | param (key : String)
  /-- Looks up a parameter that is a text. -/
  | textParam (key : String)
  /-- Looks up a parameter that is a truth value. -/
  | boolParam (key : String)
  /-- Asks for a parameter, perhaps of a certain kind. -/
  | require (key : String) (kind : Option DataKind)
  /-- Looks up the result of the stage itself. -/
  | result
  /-- Looks up the result of the stage itself, if it is a list of texts. -/
  | textsResult
  /-- Looks up the result of a stage by its path. -/
  | resultOf (stageId : String)
  /-- Looks up the result of a stage beside this one by its name. -/
  | siblingResult (name : String)
  /-- Tells the outermost flow, the innermost flow and the path of the stage. -/
  | ids
  /-- Breaks off the whole run. -/
  | breakOff
deriving BEq

namespace StageAction

/-- The word for an action. -/
def word : StageAction → String
  | store _ => "set"
  | param _ => "param"
  | textParam _ => "param_str"
  | boolParam _ => "param_bool"
  | require _ _ => "require"
  | result => "result"
  | textsResult => "result_strings"
  | resultOf _ => "result_of"
  | siblingResult _ => "sibling"
  | ids => "ids"
  | breakOff => "panic"

/-- The action of a word, with what it may need. -/
def read? (word key : String) (kind : Option DataKind) (value : Data) : Option StageAction :=
  match word with
  | "set" => some (store value)
  | "param" => some (param key)
  | "param_str" => some (textParam key)
  | "param_bool" => some (boolParam key)
  | "require" => some (require key kind)
  | "result" => some result
  | "result_strings" => some textsResult
  | "result_of" => some (resultOf key)
  | "sibling" => some (siblingResult key)
  | "ids" => some ids
  | "panic" => some breakOff
  | _ => none

/-- What an action finds; null where it finds nothing. -/
def find (a : StageAction) (ctx : StageContext) : Except StageError Data :=
  let found (x : Option Data) : Except StageError Data := .ok (x.getD .null)
  match a with
  | store _ | breakOff => .ok .null
  | param key => found (ctx.scope.get? key)
  | textParam key => found ((ctx.scope.text? key).map .text)
  | boolParam key => found ((ctx.scope.bool? key).map .bool)
  | require key kind => ctx.scope.require key kind
  | result => found ctx.result?
  | textsResult => found ((ctx.result?.bind (·.texts?)).map .ofTexts)
  | resultOf stageId => found (ctx.results.get? stageId)
  | siblingResult name => found (ctx.siblingResult? name)
  | ids => .ok (.ofTexts [ctx.rootFlowId, ctx.flowId, ctx.stageId])

/-- The context after an action. -/
def after (a : StageAction) (ctx : StageContext) : StageContext :=
  match a with
  | store value => ctx.store value
  | _ => ctx

end StageAction

/-- What a scripted stage does. -/
inductive StagePhase where
  /-- It is executed. -/
  | execute
  /-- It is cancelled. -/
  | cancel
deriving DecidableEq, Repr

/-- The word for what a stage does. -/
def StagePhase.word : StagePhase → String
  | execute => "execute"
  | cancel => "cancel"

/-- An entry of a trace. -/
structure TraceEntry where
  /-- The path of the stage. -/
  stageId : String
  /-- What the stage does. -/
  phase : StagePhase
  /-- An action that is done and what it found; none at the beginning. -/
  step : Option (StageAction × Data)

/-- What scripted stages leave behind. -/
structure Trace where
  /-- What they did, in order. -/
  entries : List TraceEntry := []
  /-- Whether one of them broke off the run. -/
  brokenOff : Bool := false

namespace Trace

/-- The trace with one more entry. -/
def add (t : Trace) (e : TraceEntry) : Trace := { t with entries := t.entries ++ [e] }

end Trace

/-- What a stage does, and how it ends. -/
structure StageScript where
  /-- The actions, in order. -/
  actions : List StageAction
  /-- The error that it ends with, if none of the actions fails. -/
  failure : Option StageError := none

namespace StageScript

/-- Runs actions one after another, behind a result stored so far. -/
def runActions (phase : StagePhase) (failure : Option StageError) (ctx : StageContext)
    (stored : Option Data) (trace : Trace) : List StageAction → StageStep Trace
  | [] => { world := trace, stored, outcome := failure.elim (.ok ()) .error }
  | a :: rest =>
    if trace.brokenOff || a == .breakOff then
      { world := { trace with brokenOff := true }, stored
        outcome := .error (.internal "broken off") }
    else
      let stored := match a with
        | .store value => some value
        | _ => stored
      match a.find ctx with
      | .error e => { world := trace, stored, outcome := .error e }
      | .ok value =>
        let trace := trace.add { stageId := ctx.stageId, phase, step := some (a, value) }
        runActions phase failure (a.after ctx) stored trace rest

/-- Runs a script in a phase. -/
def run (s : StageScript) (phase : StagePhase) (ctx : StageContext) (trace : Trace) :
    StageStep Trace :=
  let trace := trace.add { stageId := ctx.stageId, phase, step := none }
  runActions phase s.failure ctx none trace s.actions

/-- The stage of a name with a script for its work, and perhaps one for undoing it. -/
def stage (name : String) (execute : StageScript) (cancel : Option StageScript) : Stage Trace :=
  { name, execute := execute.run .execute, cancel := cancel.map (·.run .cancel) }

end StageScript

end Provisioning
