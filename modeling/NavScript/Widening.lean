import NavScript.Literal.Arithmetic
import NavScript.Operator.Calls

/-!
# Numeric widening

The operands of arithmetic and comparison over two numbers are unboxed and brought to their common
kind (`NumericKind.promote`); constants are converted at compile time, and their arithmetic is done.
The types left open so far are set: connectives and comparisons are boolean, and a conditional has a
type that both branches fit.
-/

namespace NavScript.Widening

/-- Unboxes a number and widens it to a kind. -/
def bringTo (n : Node) (kind : NumericKind) : Node :=
  let n := match n.ty.bind Ty.unboxed? with
    | some prim => if (NumericKind.ofTy? prim).isSome then Node.convertTo .unbox n prim else n
    | none => n
  match n.ty.bind NumericKind.ofTy? with
  | some k => if k = kind then n else .convertTo .widen n kind.ty
  | none => n

def Operands.literals? (lhs rhs : Node) : Option (Literal × Literal) :=
  match lhs.kind, rhs.kind with
  | .literal l, .literal r => some (l, r)
  | _, _ => none

/-- Constants converted to a kind at compile time: their arithmetic done if it has a value, or the
operator over the converted constants. -/
def constants? (span : Span) (op : Operator) (kind : NumericKind) (resultTy : Ty) (lhs rhs : Node) :
    Option Node := do
  let (l, r) ← Operands.literals? lhs rhs
  let l ← l.widenTo? kind
  let r ← r.widenTo? kind
  match (if op.isArithmetic then Literal.fold? op l r else none) with
  | some value => pure ((Node.ofLiteral value).withSpan span)
  | none =>
    let lhs := (Node.ofLiteral l).withSpan lhs.span
    let rhs := (Node.ofLiteral r).withSpan rhs.span
    pure { span, ty := some resultTy, kind := .binary op lhs rhs }

/-- An operator over two numbers. -/
def numeric (foldLiterals : Bool) (span : Span) (op : Operator) (kind : NumericKind)
    (lhs rhs : Node) : Node :=
  let resultTy := if op.isComparison then Ty.boolean else kind.ty
  let folded := if foldLiterals then constants? span op kind resultTy lhs rhs else none
  folded.getD
    { span, ty := some resultTy, kind := .binary op (bringTo lhs kind) (bringTo rhs kind) }

def binary (foldLiterals : Bool) (span : Span) (ty : Option Ty) (op : Operator) (lhs rhs : Node) :
    Node :=
  let typed (ty : Option Ty) : Node := { span, ty, kind := .binary op lhs rhs }
  if op.isLogical then typed (some .boolean)
  else if !(op.isArithmetic || op.isComparison) then typed ty
  else
    match lhs.ty, rhs.ty with
    | some left, some right =>
      match NumericKind.ofOperand? left, NumericKind.ofOperand? right with
      | some l, some r => numeric foldLiterals span op (l.promote r) lhs rhs
      | _, _ =>
        -- two primitives of one kind compare, numbers or not
        if op.isComparison && left.same right && left.isPrimitive then typed (some .boolean)
        else typed ty
    | _, _ => typed ty

/-- The type of a conditional over branches that differ and are not both numbers. -/
def commonTy (classes : ClassTable) (t e : Ty) : Ty :=
  if t = .null then e.boxed
  else if e = .null then t.boxed
  else if classes.isSubtype t.boxed e.boxed then e.boxed
  else if classes.isSubtype e.boxed t.boxed then t.boxed
  else .object

/-- Boxes a primitive that stands where a reference is expected. -/
def boxedFor (n : Node) (target : Ty) : Node := if target.isReference then n.boxed else n

def conditional (classes : ClassTable) (span : Span) (cond thenBranch elseBranch : Node) : Node :=
  let typed (t e : Node) (ty : Option Ty) : Node := { span, ty, kind := .conditional cond t e }
  match thenBranch.ty, elseBranch.ty with
  | some t, some e =>
    if t.same e then typed thenBranch elseBranch (some t)
    else
      match NumericKind.ofTy? t, NumericKind.ofTy? e with
      | some tk, some ek =>
        let kind := tk.promote ek
        typed (bringTo thenBranch kind) (bringTo elseBranch kind) (some kind.ty)
      | _, _ =>
        let common := commonTy classes t e
        typed (boxedFor thenBranch common) (boxedFor elseBranch common) (some common)
  | _, _ => typed thenBranch elseBranch none

def step (cx : Context) (n : Node) : Node :=
  match n.kind, n.ty with
  | .binary op lhs rhs, ty => binary cx.config.foldLiterals n.span ty op lhs rhs
  | .conditional c t e, none => conditional cx.classes n.span c t e
  | _, _ => n

end NavScript.Widening

namespace NavScript

/-- Widens the operands of all operators over numbers, operands first. -/
def widenNumbers (cx : Context) (root : Node) : Node := root.transform (Widening.step cx)

end NavScript
