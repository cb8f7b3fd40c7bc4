import NavScript.Json.Basic

/-!
# Records and variants in JSON

A record is an object; it may also be written as the array of its fields in order. Fields it does
not have are ignored. A variant is the name of its case, or an object whose only member has that
name and holds the payload.
-/

namespace NavScript.Json

/-- The fields of a record by name. -/
def record? (fields : List String) : Json → Option Json
  | object members => some (object members)
  | array items =>
    if items.length ≤ fields.length then some (object (fields.zip items)) else none
  | _ => none

/-- A field that has to be there. -/
def required? {α : Type} (j : Json) (key : String) (read : Json → Option α) : Option α :=
  (j.get? key).bind read

/-- A field with a default. An explicit null is not the default. -/
def defaulted? {α : Type} (j : Json) (key : String) (default : α) (read : Json → Option α) :
    Option α :=
  match j.get? key with
  | none => some default
  | some v => read v

/-- A field that is absent when missing or null. -/
def optional? {α : Type} (j : Json) (key : String) (read : Json → Option α) : Option (Option α) :=
  match j.get? key with
  | none | some null => some none
  | some v => (read v).map some

def list? {α : Type} (read : Json → Option α) (j : Json) : Option (List α) :=
  j.array?.bind (·.mapM read)

/-- The name and the payload of a variant; a bare name has none. -/
def variant? : Json → Option (String × Json)
  | string s => some (s, null)
  | object [(key, payload)] => some (key, payload)
  | _ => none

/-- A variant without payload. -/
def unit? {α : Type} (ofName? : String → Option α) (j : Json) : Option α :=
  match j.variant? with
  | some (name, null) => ofName? name
  | _ => none

/-- A variant whose only member is named after the case. -/
def tagged (name : String) (payload : Json) : Json := object [(name, payload)]

end NavScript.Json
