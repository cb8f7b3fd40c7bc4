import NavScript.Class.Hierarchy
import NavScript.Operator.Basic
import NavScript.Ty.Text

/-!
# Operator implementations

Static methods that implement an operator for two operand types. Under one key the first
implementation stands. Lookup goes from the most specific left type upwards, and for each of them
from the most specific right type upwards; a null operand counts as an `Object`.
-/

namespace NavScript

/-- The type of a result: a fixed one, or the boxed type of the left operand. -/
inductive OperatorResult where
  | fixed (ty : Ty)
  | left
deriving DecidableEq

structure OperatorMethod where
  op : Operator
  owner : Ty
  method : String
  left : Ty
  right : Ty
  result : OperatorResult
deriving DecidableEq

namespace OperatorMethod

/-- The type of the result over a left operand of the given type. -/
def resultTy (i : OperatorMethod) (left : Ty) : Ty :=
  match i.result with
  | .fixed ty => ty
  | .left => left.boxed

def render (i : OperatorMethod) : String :=
  s!"{i.owner.render}.{i.method}({i.left.render}, {i.right.render})"

/-- What an implementation is filed under. -/
def key (i : OperatorMethod) : Operator × String × String := (i.op, i.left.key, i.right.key)

/-- Concatenation, default values, type tests, equality and order of references. -/
def standard : List OperatorMethod :=
  let comparable := Ty.ofClass "Comparable"
  let operators := Ty.ofClass "Operators"
  let strings := Ty.ofClass "Strings"
  let boolean := OperatorResult.fixed .boolean
  let order (op : Operator) (method : String) : OperatorMethod :=
    ⟨op, operators, method, comparable, comparable, boolean⟩
  [⟨.add, strings, "concat", .string, .object, .fixed .string⟩,
    ⟨.add, strings, "concat", .object, .string, .fixed .string⟩,
    ⟨.elvis, operators, "elvis", .object, .object, .left⟩,
    ⟨.instanceOf, operators, "isInstance", .object, .ofClass "Class", boolean⟩,
    ⟨.eq, operators, "equals", .object, .object, boolean⟩,
    ⟨.ne, operators, "notEquals", .object, .object, boolean⟩,
    order .lt "lessThan", order .le "lessOrEqual", order .gt "greaterThan",
    order .ge "greaterOrEqual"]

end OperatorMethod

/-- Implementations with distinct keys. -/
structure OperatorTable where
  methods : List OperatorMethod := []

namespace OperatorTable

def find? (t : OperatorTable) (op : Operator) (left right : String) : Option OperatorMethod :=
  t.methods.find? (·.key == (op, left, right))

/-- Adds an implementation unless its key is taken. -/
def add (t : OperatorTable) (i : OperatorMethod) : OperatorTable :=
  if (t.find? i.op i.left.key i.right.key).isSome then t else ⟨t.methods ++ [i]⟩

def ofList (is : List OperatorMethod) : OperatorTable := is.foldl add {}

def standard : OperatorTable := ofList OperatorMethod.standard

def size (t : OperatorTable) : Nat := t.methods.length

/-- The types under which an operand may be found, the most specific first. -/
def operandTypes (classes : ClassTable) (ty : Ty) : List Ty :=
  match ty with
  | .null => (classes.walk .object).reverse
  | ty => (classes.walk ty).reverse

def lookup (t : OperatorTable) (classes : ClassTable) (op : Operator) (left right : Ty) :
    Option OperatorMethod :=
  (operandTypes classes left).findSome? fun l =>
    (operandTypes classes right).findSome? fun r => t.find? op l.key r.key

end OperatorTable

end NavScript
