import Provisioning.Flow.Basic

/-!
# Stages

A stage is one piece of work on the world outside. A stage that can be cancelled knows how to undo
its work. What a stage leaves behind for itself and for other stages is its result.
-/

namespace Provisioning

/-- The results that stages have stored, by path. -/
abbrev StageResults := OrderedMap String Data

/-- What a stage knows when it is executed or cancelled. -/
structure StageContext where
  /-- The outermost flow. -/
  rootFlowId : String
  /-- The innermost flow around the stage. -/
  flowId : String
  /-- The path of the stage. -/
  stageId : String
  /-- The parameters of the flows around the stage. -/
  scope : Scope
  /-- The results of all stages so far. -/
  results : StageResults

namespace StageContext

/-- A context outside of any flow: the stage stands in for the flows around it. -/
def detached (stageId : String) (params : Params) (results : StageResults) : StageContext :=
  { rootFlowId := stageId, flowId := stageId, stageId, scope := [params], results }

/-- The result of the stage itself. -/
def result? (ctx : StageContext) : Option Data := ctx.results.get? ctx.stageId

/-- The path of a stage beside this one: what stands before the last slash, a slash and the name. -/
def siblingId (ctx : StageContext) (name : String) : String :=
  let parent := ((Text.beforeLastSlash? ctx.stageId.toList).map String.ofList).getD ""
  parent ++ "/" ++ name

/-- The result of a stage beside this one. -/
def siblingResult? (ctx : StageContext) (name : String) : Option Data :=
  ctx.results.get? (ctx.siblingId name)

/-- The context after the stage has stored a result. -/
def store (ctx : StageContext) (value : Data) : StageContext :=
  { ctx with results := ctx.results.insert ctx.stageId value }

end StageContext

/-- What comes of executing or cancelling a stage. -/
structure StageStep (σ : Type) where
  /-- The world afterwards. -/
  world : σ
  /-- The result that the stage stored, if it stored one. -/
  stored : Option Data
  /-- Whether it succeeded. -/
  outcome : Except StageError Unit

/-- A piece of work on a world. -/
structure Stage (σ : Type) where
  /-- The name, which tells the stage from its siblings. -/
  name : String
  /-- Does the work. -/
  execute : StageContext → σ → StageStep σ
  /-- Undoes the work, if the stage can be cancelled. -/
  cancel : Option (StageContext → σ → StageStep σ)

namespace Stage

variable {σ : Type}

instance : Named (Stage σ) := ⟨Stage.name⟩

/-- Whether the stage can be cancelled. -/
def isCancellable (s : Stage σ) : Bool := s.cancel.isSome

/-- The stage on one line, for diagnosis. -/
def description (s : Stage σ) : String :=
  "FnStage \x7b name: " ++ Text.quoted s.name ++ s!", cancellable: {s.isCancellable} \x7d"

end Stage

end Provisioning
