import NavScript.Tree.Basic

/-!
# Diagnostics

What the analysis has to tell the author of a script: the cause, its code and severity, the region
it refers to, and the three texts made from it.
-/

namespace NavScript

inductive Severity where
  | error | warning
deriving DecidableEq, Inhabited, Repr

def Severity.name : Severity → String
  | .error => "error"
  | .warning => "warning"

inductive Diagnostic where
  /-- No scope could resolve a step; `inView` is the type it was tried on, if not the head. -/
  | unresolvedStep (step : String) (inView : Option Ty) (span : Span)
  | unresolvedName (name : String) (span : Span)
  | unresolvedMethod (name : String) (arity : Nat) (span : Span)
  /-- The last expression of a body does not convert to the declared type. -/
  | returnMismatch (method : String) (expected found : Ty) (span : Span)
  /-- The body of a method with a primitive return type is empty. -/
  | missingReturn (method : String) (expected : Ty) (span : Span)
  /-- Neither an operator implementation nor the numbers cover two typed operands. -/
  | unresolvedOperator (op : Operator) (left right : Ty) (span : Span)
  /-- A second navigator for one slot. -/
  | navigatorConflict (declaring : Ty) (axis : Axis) (test kept dropped : String)
deriving DecidableEq

namespace Diagnostic

def severity : Diagnostic → Severity
  | navigatorConflict _ _ _ _ _ => .warning
  | _ => .error

def isError (d : Diagnostic) : Bool := d.severity == .error

def code : Diagnostic → String
  | unresolvedStep _ _ _ => "E0101"
  | unresolvedName _ _ => "E0102"
  | unresolvedMethod _ _ _ => "E0103"
  | returnMismatch _ _ _ _ => "E0104"
  | missingReturn _ _ _ => "E0105"
  | unresolvedOperator _ _ _ _ => "E0106"
  | navigatorConflict _ _ _ _ _ => "W0101"

def span? : Diagnostic → Option Span
  | unresolvedStep _ _ span | unresolvedName _ span | unresolvedMethod _ _ span
  | returnMismatch _ _ _ span | missingReturn _ _ span | unresolvedOperator _ _ _ span => some span
  | navigatorConflict _ _ _ _ _ => none

/-- The region in the source, if there is one. -/
def region? (d : Diagnostic) : Option Span :=
  match d.span? with
  | some span => if span.isSynthetic then none else some span
  | none => none

def message : Diagnostic → String
  | unresolvedStep step (some ty) _ => s!"cannot resolve `{step}` on {ty.render}"
  | unresolvedStep step none _ => s!"cannot resolve `{step}`"
  | unresolvedName name _ => s!"unresolved name `{name}`"
  | unresolvedMethod name arity _ => s!"unresolved method `{name}` taking {arity} argument(s)"
  | returnMismatch method expected found _ =>
    s!"`{method}` returns {expected.render}, but its body produces {found.render}"
  | missingReturn method expected _ =>
    s!"`{method}` must return {expected.render}, but its body is empty"
  | unresolvedOperator op left right _ =>
    s!"no operator `{op.symbol}` for {left.render} and {right.render}"
  | navigatorConflict declaring axis test kept dropped =>
    s!"navigator `{dropped}` for {axis.name}::{test} on {declaring.render} ignored; `{kept}` " ++
      "was registered first"

/-- The text beside the marked region. -/
def label : Diagnostic → String
  | unresolvedStep _ (some ty) _ => s!"no member of {ty.render} matches"
  | unresolvedStep _ none _ | unresolvedName _ _ => "not found in this scope"
  | unresolvedMethod _ arity _ => s!"no method taking {arity} argument(s)"
  | returnMismatch _ _ found _ => s!"found {found.render}"
  | missingReturn _ expected _ => s!"declared to return {expected.render}"
  | unresolvedOperator _ left right _ =>
    s!"{left.render} and {right.render} have no common operator"
  | navigatorConflict _ _ _ _ _ => ""

/-- A likely remedy. -/
def help? : Diagnostic → Option String
  | unresolvedStep _ (some ty) _ =>
    some s!"register a navigator for {ty.render} or one of its supertypes"
  | returnMismatch _ expected _ _ =>
    some s!"end the body with a value convertible to {expected.render}"
  | missingReturn _ expected _ =>
    some s!"end the body with an expression of type {expected.render}"
  | _ => none

end Diagnostic

end NavScript
