import Provisioning.Data.Basic
import Provisioning.Decimal.Shortest
import Provisioning.Flow.Error
import Provisioning.Text.Number
import Provisioning.Text.Quoted

/-!
# Flow parameters

A nested flow sees its own parameters first and then those of the flows around it. A stage asks for
a parameter of a certain kind, and fails if it is missing or of another kind.
-/

namespace Provisioning

/-! ## Kinds of values -/

/-- The kinds of values that a stage may ask for. -/
inductive DataKind where
  /-- A text. -/
  | text
  /-- A truth value. -/
  | bool
  /-- A whole number from `0` to `2 ^ 64 - 1`. -/
  | unsigned
  /-- A list of texts. -/
  | texts
deriving DecidableEq, Repr

namespace DataKind

/-- What messages call a value of the kind. -/
def expectation : DataKind → String
  | text => "a string"
  | bool => "a boolean"
  | unsigned => "u64"
  | texts => "a sequence"

end DataKind

/-- What messages call a value. -/
def Data.description : Data → String
  | .null | .unreadable => "null"
  | .bool value => s!"boolean `{value}`"
  | .int value => s!"integer `{value}`"
  | .float value => s!"floating point `{value.text}`"
  | .text value => "string " ++ Text.quoted value
  | .list _ => "sequence"
  | .table _ => "map"

/-- A value that is not of the kind that was asked for. -/
inductive DataMismatch where
  /-- The value is of another kind. -/
  | wrongKind (found : Data) (expected : DataKind)
  /-- The value is of the right kind and out of its bounds. -/
  | outOfBounds (found : Data) (expected : DataKind)

namespace DataMismatch

/-- What is said about the value. -/
def message : DataMismatch → String
  | wrongKind found expected =>
    s!"invalid type: {found.description}, expected {expected.expectation}"
  | outOfBounds found expected =>
    s!"invalid value: {found.description}, expected {expected.expectation}"

end DataMismatch

namespace DataKind

/-- Checks that a value is a text. -/
def checkText (d : Data) : Except DataMismatch Unit :=
  match d with
  | .text _ => .ok ()
  | _ => .error (.wrongKind d text)

/-- Checks that a value is of the kind. Of several items of another kind the first one counts. -/
def check (kind : DataKind) (d : Data) : Except DataMismatch Unit :=
  match kind, d with
  | text, _ => checkText d
  | bool, .bool _ => .ok ()
  | unsigned, .int n =>
    if n < 0 ∨ Int.ofNat Text.maxUInt64 < n then .error (.outOfBounds d unsigned) else .ok ()
  | texts, .list items => items.forM checkText
  | _, _ => .error (.wrongKind d kind)

end DataKind

/-! ## Scopes -/

/-- The parameters of one flow. -/
abbrev Params := OrderedMap String Data

/-- The parameters of a flow and of the flows around it, the innermost ones first. -/
abbrev Scope := List Params

namespace Scope

/-- The value of a name in the innermost flow that defines it. -/
def get? (scope : Scope) (key : String) : Option Data := scope.findSome? (·.get? key)

/-- The text of a name, if its value is a text. -/
def text? (scope : Scope) (key : String) : Option String := do (← scope.get? key).text?

/-- The truth value of a name, if its value is one. -/
def bool? (scope : Scope) (key : String) : Option Bool := do (← scope.get? key).bool?

/-- The parameters of the innermost flow. -/
def own (scope : Scope) : Params := scope.headD .empty

/-- The value of a name, which has to be there and of the kind. -/
def require (scope : Scope) (key : String) (kind : Option DataKind) : Except StageError Data :=
  match scope.get? key with
  | none => .error (.internal s!"Missing flow parameter: {key}")
  | some d =>
    match kind.elim (.ok ()) (·.check d) with
    | .ok () => .ok d
    | .error mismatch => .error (.internal s!"Invalid flow parameter {key}: {mismatch.message}")

end Scope

end Provisioning
