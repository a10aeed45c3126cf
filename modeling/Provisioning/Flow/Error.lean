import Provisioning.Text.Split

/-!
# Errors of stages
-/

namespace Provisioning

/-- Why a stage or its cancellation failed. -/
inductive StageError where
  /-- Another system failed or declined, perhaps with a cause of its own. -/
  | integration (message : String) (cause : Option String)
  /-- The stage was given something wrong. -/
  | validation (message : String)
  /-- Something that the stage works on does not exist. -/
  | notFound (message : String)
  /-- Anything else. -/
  | internal (message : String)
deriving DecidableEq, Repr

namespace StageError

/-- The word for the kind of the error. -/
def kind : StageError → String
  | integration _ _ => "IntegrationError"
  | validation _ => "ValidationError"
  | notFound _ => "NotFoundError"
  | internal _ => "InternalError"

/-- What is said about the error. -/
def message : StageError → String
  | integration message _ | validation message | notFound message | internal message => message

/-- The kind and the message, and the cause where there is one. -/
def detail (e : StageError) : String :=
  match e with
  | integration message (some cause) => s!"[{e.kind}] {message}, cause: {cause}"
  | _ => s!"[{e.kind}] {e.message}"

/-- An error with the causes behind it, the outermost one first. -/
def ofChain (messages : List String) : StageError := internal (Text.join ": " messages)

end StageError

end Provisioning
