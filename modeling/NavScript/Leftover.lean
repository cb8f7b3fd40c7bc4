import NavScript.Diagnostic.Basic
import NavScript.Tree.Children

/-!
# What is left unresolved

After all passes a bare name or call has no meaning, and a binary expression without a type over
typed operands has no operator. Streams are passed over, since a stream that is left was reported
at the step that failed.
-/

namespace NavScript

namespace Leftover

/-- The diagnostics of a node by itself. -/
def own (n : Node) : List Diagnostic :=
  match n.kind with
  | .name name => [.unresolvedName name n.span]
  | .call name args => [.unresolvedMethod name args.length n.span]
  | .binary op lhs rhs =>
    match n.ty, lhs.ty, rhs.ty with
    | none, some left, some right => [.unresolvedOperator op left right n.span]
    | _, _, _ => []
  | _ => []

end Leftover

/-- The diagnostics of a tree, a node before its children. -/
def leftovers (root : Node) : List Diagnostic :=
  root.para fun span ty kind =>
    match kind with
    | .stream _ => []
    | kind => Leftover.own ⟨span, ty, kind.map (·.1)⟩ ++ kind.children.flatMap (·.2)

end NavScript
