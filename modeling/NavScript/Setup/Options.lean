import NavScript.Config
import NavScript.Setup.Failure
import NavScript.Toml.Reader
import NavScript.Toml.Record

/-!
# Reading the options of the analysis

Every key may be left out; unknown keys are refused.
-/

namespace NavScript

/-- A policy is its name, or a table whose only key is the name, over an empty table. -/
def ConflictPolicy.ofToml? : Toml.Value → Option ConflictPolicy
  | .string s | .table [(s, .table [])] => ofName? s
  | _ => none

namespace Config

def ofToml? (v : Toml.Value) : Option Config := do
  let r ← v.record? ["conflict-policy", "box-primitive-guards", "fold-literals"] 0
  return {
    conflictPolicy := ← r.defaulted? "conflict-policy" .firstWins ConflictPolicy.ofToml?
    boxPrimitiveGuards := ← r.defaulted? "box-primitive-guards" true Toml.Value.bool?
    foldLiterals := ← r.defaulted? "fold-literals" true Toml.Value.bool? }

def read (text : String) : Except SetupFailure Config :=
  match (Toml.parse? text).bind ofToml? with
  | some config => .ok config
  | none => .error .malformed

end Config

end NavScript
