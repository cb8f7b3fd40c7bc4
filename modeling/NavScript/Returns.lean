import NavScript.Operator.Calls

/-!
# Results of methods

The last expression of a body is the result of a method. Where a result type other than void is
declared, it has to convert to it: as it is, by unboxing, by widening or by boxing, and each such
conversion is made explicit. An empty body gives null for a reference type.
-/

namespace NavScript.Returns

/-- An unboxing at the top of a node taken away. -/
def beforeUnbox (n : Node) : Node :=
  match n.kind with
  | .convert .unbox expr => expr
  | _ => n

/-- A value that is unboxed if a primitive is expected, with its type then. -/
def unboxFor (expected found : Ty) (value : Node) : Node × Ty :=
  match found.unboxed? with
  | some prim =>
    if expected.isPrimitive then (.convertTo .unbox value prim, prim) else (value, found)
  | none => (value, found)

/-- A value of type `found` converted to the expected type, or the value that is rejected. -/
def convert (classes : ClassTable) (expected found : Ty) (value : Node) : Except Node Node :=
  if found.same expected || (found = .null && expected.isReference) then .ok value
  else
    let (value, found) := unboxFor expected found value
    if found.same expected then .ok value
    else
      match NumericKind.ofTy? found, NumericKind.ofTy? expected with
      | some fk, some ek =>
        if fk.promote ek = ek then .ok (.convertTo .widen value expected)
        else .error (beforeUnbox value)
      | _, _ =>
        if found.isPrimitive && expected.isReference then
          if classes.isSubtype found.boxed expected then .ok (.convertTo .box value found.boxed)
          else .error value
        else if classes.isSubtype found expected then .ok value
        else .error (beforeUnbox value)

/-- A body that ends in a value of the expected type, or a diagnostic. -/
def checkBody (classes : ClassTable) (span : Span) (method : String) (expected : Ty)
    (body : List Node) : List Node × List Diagnostic :=
  match body.getLast? with
  | none =>
    if expected.isPrimitive then ([], [.missingReturn method expected span])
    else ([(Node.nullOf expected).withSpan span], [])
  | some last =>
    match last.ty with
    | none => (body, [])
    | some found =>
      match convert classes expected found last with
      | .ok value => (body.dropLast ++ [value], [])
      | .error value =>
        (body.dropLast ++ [value], [.returnMismatch method expected found value.span])

def checkDecl (classes : ClassTable) (span : Span) (d : Method Node) :
    Method Node × List Diagnostic :=
  match d.returnTy with
  | none => (d, [])
  | some expected =>
    if expected.isVoid then (d, [])
    else
      let (body, new) := checkBody classes span d.name expected d.body
      ({ d with body }, new)

/-- Collects diagnostics beside the tree. -/
abbrev Check := StateM (List Diagnostic)

def step (classes : ClassTable) (n : Node) : Check Node :=
  match n.kind with
  | .methodDecl d => do
    let (d, new) := checkDecl classes n.span d
    modify (· ++ new)
    pure { n with kind := .methodDecl d }
  | _ => pure n

end NavScript.Returns

namespace NavScript

/-- Checks the results of all methods, inner methods first. -/
def checkReturns (cx : Context) (root : Node) : Node × List Diagnostic :=
  (root.transformM (Returns.step cx.classes)).run []

end NavScript
