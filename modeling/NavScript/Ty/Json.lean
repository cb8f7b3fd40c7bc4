import NavScript.Json.Record
import NavScript.Ty.Basic

/-!
# Types in JSON
-/

namespace NavScript

open Json (required? optional? tagged)

def ClassName.toJson (c : ClassName) : Json :=
  match c.package with
  | some p => .object [("name", .string c.name), ("package", .string p)]
  | none => .object [("name", .string c.name)]

def ClassName.ofJson? (j : Json) : Option ClassName := do
  let r ← j.record? ["name", "package"]
  return ⟨← required? r "name" Json.string?, ← optional? r "package" Json.string?⟩

namespace Ty

mutual

def toJson : Ty → Json
  | prim k => tagged "Prim" (.string k.name)
  | named c => tagged "Con" c.toJson
  | app c args => tagged "App" (.array [c.toJson, .array (toJsonList args)])
  | array t => tagged "Array" (toJson t)
  | null => .string "Null"

def toJsonList : List Ty → List Json
  | [] => []
  | t :: rest => toJson t :: toJsonList rest

end

/-- Reads a type whose JSON form is nested no deeper than the first argument. -/
def ofJsonWithin? : Nat → Json → Option Ty
  | 0, _ => none
  | fuel + 1, j =>
    match j.variant? with
    | some ("Null", .null) => some null
    | some ("Prim", k) => (Json.unit? Prim.ofName? k).map prim
    | some ("Con", c) => (ClassName.ofJson? c).map named
    | some ("App", .array [c, .array args]) => do
      return app (← ClassName.ofJson? c) (← args.mapM (ofJsonWithin? fuel))
    | some ("Array", t) => (ofJsonWithin? fuel t).map array
    | _ => none

def ofJson? (j : Json) : Option Ty := ofJsonWithin? (j.depth + 1) j

end Ty

end NavScript
