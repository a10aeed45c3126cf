/-!
# Errors of collaborators

Modules, routes and auth resources are kept by other systems. What goes wrong there falls into
categories; only an unreachable system is worth another attempt.
-/

namespace Provisioning

/-- The categories of errors. -/
inductive CollaboratorErrorCategory where
  /-- The system cannot be reached. -/
  | network
  /-- Something does not exist. -/
  | notFound
  /-- Something exists already, or is in the way. -/
  | conflict
  /-- The system does not accept the caller. -/
  | unauthorized
  /-- Anything else. -/
  | other
deriving DecidableEq, Repr

namespace CollaboratorErrorCategory

/-- Whether another attempt is worth while. -/
def isRetryable : CollaboratorErrorCategory → Bool
  | network => true
  | _ => false

/-- What is said about errors of the category. -/
def description : CollaboratorErrorCategory → String
  | network => "Collaborator unreachable"
  | notFound => "Resource not found"
  | conflict => "Conflicting state"
  | unauthorized => "Unauthorized"
  | other => "Unexpected error"

end CollaboratorErrorCategory

/-- Why a call failed. -/
inductive CollaboratorError where
  /-- The system cannot be reached. -/
  | network (reason : String)
  /-- The resource does not exist. -/
  | notFound (resource : String)
  /-- Something exists already, or is in the way. -/
  | conflict (reason : String)
  /-- The system does not accept the caller. -/
  | unauthorized (reason : String)
  /-- The request was declined, perhaps with a cause. -/
  | request (reason : String) (cause : Option String)
deriving DecidableEq, Repr

namespace CollaboratorError

/-- The category of the error. -/
def category : CollaboratorError → CollaboratorErrorCategory
  | network _ => .network
  | notFound _ => .notFound
  | conflict _ => .conflict
  | unauthorized _ => .unauthorized
  | request _ _ => .other

/-- What is said about the error. -/
def message : CollaboratorError → String
  | network reason => s!"network error: {reason}"
  | notFound resource => s!"not found: {resource}"
  | conflict reason => s!"conflict: {reason}"
  | unauthorized reason => s!"unauthorized: {reason}"
  | request reason _ => reason

/-- The cause, if there is one. -/
def cause : CollaboratorError → Option String
  | request _ cause => cause
  | _ => none

/-- Whether another attempt is worth while. -/
def isRetryable (e : CollaboratorError) : Bool := e.category.isRetryable

/-- The module is enabled already. -/
def alreadyEnabled (tenantId moduleId : String) : CollaboratorError :=
  conflict s!"Module {moduleId} is already enabled for {tenantId}"

end CollaboratorError

end Provisioning
