/-!
# Broken invariants

A pass that meets a tree which cannot arise stops with a fault. Faults are not messages for the
author of a script, and a tree that was changed only in part is never handed on.
-/

namespace NavScript

inductive Fault where
  /-- A node was rebuilt with another number of children than it has. -/
  | childCount (node : String) (expected found : Nat)
  /-- A navigation stream without steps, at the given region. -/
  | emptyStream (region : String)
  | scopeUnderflow
  | untypedReplacement (step : String)
  | untyped (node : String)
  | notMultiValued (type : String)
  | reductionOutsideStream
deriving DecidableEq, Inhabited, Repr

def Fault.message : Fault → String
  | .childCount node expected found =>
    s!"node `{node}` expected {expected} children, found {found}"
  | .emptyStream region => s!"empty navigation stream at {region}"
  | .scopeUnderflow => "scope chain underflow"
  | .untypedReplacement step => s!"navigator for step `{step}` produced an untyped node"
  | .untyped node => s!"`{node}` has no resolved type"
  | .notMultiValued type => s!"`{type}` is not multi-valued"
  | .reductionOutsideStream => "reduction outside a stream context"

end NavScript
