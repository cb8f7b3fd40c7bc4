import NavScript.Class.Table

/-!
# The class hierarchy

`supers` lists the types right above a type, and `walk` all types above it, itself last: a type
comes after its own supertypes, and of the types with one key only the first met is kept. On a
cycle a type already on the way is not entered again, so a walk goes no deeper than there are
classes, and two steps more for a type that is not declared and for `Object`.
-/

namespace NavScript.ClassTable

/-- The types right above a type. Arrays stand right below `Object`, and so does every class that
names no superclass or is not declared. -/
def supers (t : ClassTable) : Ty → List Ty
  | .prim _ | .null => []
  | .array _ => [.object]
  | .named c | .app c _ =>
    if c.name == "Object" then []
    else
      match t.class? c.name with
      | some d => d.superclass.getD .object :: d.interfaces
      | none => [.object]

/-- What a walk has entered, by key, and what it has listed so far. -/
structure Walk where
  entered : List String := []
  listed : List Ty := []

/-- Lists a type after the types above it, unless its key was entered before. The first argument
bounds the depth. -/
def climb (t : ClassTable) : Nat → Walk → Ty → Walk
  | 0, w, _ => w
  | fuel + 1, w, ty =>
    if w.entered.contains ty.key then w
    else
      let w := (t.supers ty).foldl (climb t fuel) { w with entered := w.entered ++ [ty.key] }
      { w with listed := w.listed ++ [ty] }

/-- All types above a type, the most general first and the type itself last. -/
def walk (t : ClassTable) (ty : Ty) : List Ty := (t.climb (t.size + 3) {} ty).listed

/-- Reference subtyping. Type arguments do not count, `null` is below every reference type, arrays
of references go with their elements, and a primitive is below itself only. -/
def isSubtype (t : ClassTable) : Ty → Ty → Bool
  | .array a, .array b =>
    Ty.same (.array a) (.array b) || (a.isReference && b.isReference && isSubtype t a b)
  | .null, sup => sup.isReference
  | sub, sup =>
    sub.same sup ||
      (sub.isReference && sup.isReference && (t.walk sub).any (·.key == sup.key))

end NavScript.ClassTable
