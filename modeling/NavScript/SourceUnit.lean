import NavScript.Json.Floating
import NavScript.Json.Reader
import NavScript.Navigation.Resolution
import NavScript.Tree.Json

/-!
# Compilation units

A script together with what it is analysed against and, if it is known, its source text. Types are
given in their notation; only plain classes can be imported.
-/

namespace NavScript

structure SourceUnit where
  env : Environment := {}
  /-- The text that the regions of the tree point into. -/
  source : Option String := none
  root : Node

open Json (required? defaulted? optional? list?)

def Ty.ofJsonText? (j : Json) : Option Ty := j.string?.bind Ty.parse?

/-- A type that can be imported. -/
def ClassName.ofJsonText? (j : Json) : Option ClassName :=
  match Ty.ofJsonText? j with
  | some (.named c) => some c
  | _ => none

def Environment.ofJson? (j : Json) : Option Environment := do
  return {
    binding := ← defaulted? j "binding" .object Ty.ofJsonText?
    enclosing := ← defaulted? j "enclosing" none fun v => (Ty.ofJsonText? v).map some
    imports := ← defaulted? j "imports" [] (list? ClassName.ofJsonText?) }

namespace SourceUnit

/-- Whether all members but the source and the tree are sound, also those that are not looked at. -/
def othersAreSound (j : Json) : Bool :=
  match j with
  | .object members =>
    members.all fun (key, v) => key == "source" || key == "root" || v.isSound
  | _ => false

def ofJson? (j : Json) : Option SourceUnit := do
  guard (othersAreSound j)
  return {
    env := ← Environment.ofJson? j
    source := ← optional? j "source" Json.string?
    root := ← required? j "root" Node.ofJson? }

/-- The unit that a text denotes. -/
def read? (text : String) : Option SourceUnit := (Json.parse? text).bind ofJson?

end SourceUnit

end NavScript
