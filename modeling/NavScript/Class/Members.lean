import NavScript.Class.Hierarchy

/-!
# Members of a type

A property or a method is looked for from the type itself upwards. Where the type is an application
of the declaring class, its arguments replace the parameters of the class in the member's type.
-/

namespace NavScript

mutual

/-- Replaces classes by the types bound to their names. -/
def Ty.subst (bindings : List (String × Ty)) : Ty → Ty
  | .named c => (bindings.lookup c.name).getD (.named c)
  | .app c args => .app c (Ty.substList bindings args)
  | .array t => .array (Ty.subst bindings t)
  | .prim k => .prim k
  | .null => .null

def Ty.substList (bindings : List (String × Ty)) : List Ty → List Ty
  | [] => []
  | t :: rest => Ty.subst bindings t :: Ty.substList bindings rest

end

/-- A member's type as seen from a receiver. -/
def ClassDef.seenFrom (d : ClassDef) (receiver member : Ty) : Ty :=
  match receiver with
  | .app c args =>
    if c.name == d.className.name && args.length == d.params.length then
      member.subst (d.params.zip args)
    else member
  | _ => member

/-- The type that declares a member, and the type of the member. -/
structure Member where
  owner : Ty
  ty : Ty

namespace ClassTable

/-- The first declaration that `find` accepts, from the type itself upwards. -/
def member? (t : ClassTable) (ty : Ty) (find : ClassDef → Option Ty) : Option Member :=
  (t.walk ty).reverse.findSome? fun owner => do
    let d ← t.class? (← owner.className?)
    let declared ← find d
    pure ⟨owner, d.seenFrom ty declared⟩

def property? (t : ClassTable) (ty : Ty) (name : String) : Option Member :=
  t.member? ty (·.property? name)

def method? (t : ClassTable) (ty : Ty) (name : String) (arity : Nat) : Option Member :=
  t.member? ty fun d => (d.method? name arity).map (·.result)

end ClassTable

end NavScript
