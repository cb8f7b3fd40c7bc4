import NavScript.Navigation.Resolution
import NavScript.Ty.Numeric

/-!
# Resolution of operators

A binary expression over typed operands becomes a call of the operator implementation for their
types. Arithmetic and comparison of two numbers, boxed or not, is left to widening, and what has no
implementation stays as it is.
-/

namespace NavScript

/-- The numeric kind of an operand, looked at through its box. -/
def NumericKind.ofOperand? (ty : Ty) : Option NumericKind :=
  NumericKind.ofTy? ty <|> ty.unboxed?.bind NumericKind.ofTy?

/-- Boxes a primitive value. -/
def Node.boxed (n : Node) : Node :=
  match n.ty with
  | some ty => if ty.isPrimitive then .convertTo .box n ty.boxed else n
  | none => n

namespace OperatorCalls

/-- Whether operands are boxed: for default values and type tests, and when just one of them is
primitive. -/
def boxes (op : Operator) (left right : Ty) : Bool :=
  op == .elvis || op == .instanceOf || left.isPrimitive != right.isPrimitive

/-- The types under which the operands are looked up. The right operand of a type test counts as a
class. -/
def lookupTypes (op : Operator) (left right : Ty) : Ty × Ty :=
  let boxing := boxes op left right
  (if boxing then left.boxed else left,
    if op == .instanceOf then .ofClass "Class" else if boxing then right.boxed else right)

/-- Whether widening takes care of an operator over these types. -/
def isNumeric (op : Operator) (left right : Ty) : Bool :=
  (NumericKind.ofOperand? left).isSome && (NumericKind.ofOperand? right).isSome &&
    (op.isArithmetic || op.isComparison)

/-- The implementation that an operator over these types calls. -/
def implementation? (cx : Context) (op : Operator) (left right : Ty) : Option OperatorMethod :=
  let (left, right) := lookupTypes op left right
  cx.operators.lookup cx.classes op left right

/-- A binary expression as a call, where its operands are typed and an implementation exists. -/
def callOf? (cx : Context) (span : Span) (op : Operator) (lhs rhs : Node) : Option Node := do
  let left ← lhs.ty
  let right ← rhs.ty
  if isNumeric op left right then none
  else
    let impl ← implementation? cx op left right
    let boxing := boxes op left right
    let operand (n : Node) : Node := if boxing then n.boxed else n
    let resultTy := impl.resultTy (lookupTypes op left right).1
    pure {
      span, ty := some resultTy
      kind := .operatorCall impl.owner impl.method (operand lhs) (operand rhs) }

def step (cx : Context) (n : Node) : Node :=
  match n.kind with
  | .binary op lhs rhs => (callOf? cx n.span op lhs rhs).getD n
  | _ => n

end OperatorCalls

/-- Replaces operators by calls of their implementations, operands first. -/
def resolveOperators (cx : Context) (root : Node) : Node := root.transform (OperatorCalls.step cx)

end NavScript
