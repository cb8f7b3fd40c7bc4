import NavScript.Toml.Basic

/-!
# Records in tables of options

A record is a table with no fields but its own. It may also be written as the array of its fields in
order, where only fields with a default may be left out at the end.
-/

namespace NavScript.Toml

abbrev Fields := List (String × Value)

namespace Value

def string? : Value → Option String
  | string s => some s
  | _ => none

def bool? : Value → Option Bool
  | bool b => some b
  | _ => none

def list? {α : Type} (read : Value → Option α) : Value → Option (List α)
  | array items => items.mapM read
  | _ => none

def strings? : Value → Option (List String) := list? string?

/-- A table of texts by name. -/
def texts? : Value → Option (List (String × String))
  | table entries => entries.mapM fun (name, v) => v.string?.map fun s => (name, s)
  | _ => none

/-- The fields of a record whose array form has at least `least` items. -/
def record? (fields : List String) (least : Nat) : Value → Option Fields
  | table entries => if entries.all (fields.contains ·.1) then some entries else none
  | array items => if least ≤ items.length then some (fields.zip items) else none
  | _ => none

end Value

namespace Fields

def required? {α : Type} (r : Fields) (key : String) (read : Value → Option α) : Option α :=
  (r.lookup key).bind read

def defaulted? {α : Type} (r : Fields) (key : String) (default : α) (read : Value → Option α) :
    Option α :=
  match r.lookup key with
  | none => some default
  | some v => read v

def optional? {α : Type} (r : Fields) (key : String) (read : Value → Option α) :
    Option (Option α) :=
  r.defaulted? key none fun v => (read v).map some

end Fields

end NavScript.Toml
