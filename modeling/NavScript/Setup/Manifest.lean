import NavScript.Navigator.Basic
import NavScript.Setup.Failure
import NavScript.Toml.Reader
import NavScript.Toml.Record
import NavScript.Ty.Text

/-!
# Manifests

A manifest declares classes and navigators. A navigator of a manifest reads one property or calls
one method of the receiver, whatever the step is called, and is declared on a class that the
manifest declares or that is built in.

Reading has two stages: the shape of the whole document first (`ClassEntry`, `NavigatorEntry`), then
what it means, the classes in order and after them the navigators in order.
-/

namespace NavScript

/-- A method as it is written. -/
structure MethodEntry where
  name : String
  params : List String
  returns : String

/-- A class as it is written. -/
structure ClassEntry where
  name : String
  package : Option String
  params : List String
  superclass : Option String
  interfaces : List String
  properties : List (String × String)
  methods : List MethodEntry

/-- A navigator as it is written. -/
structure NavigatorEntry where
  declaring : String
  axes : List String
  tests : List String
  property : Option String
  method : Option String

open Toml.Value (string? strings? texts? list?)

def MethodEntry.ofToml? (v : Toml.Value) : Option MethodEntry := do
  let r ← v.record? ["name", "params", "returns"] 3
  return {
    name := ← r.required? "name" string?
    params := ← r.defaulted? "params" [] strings?
    returns := ← r.required? "returns" string? }

def ClassEntry.ofToml? (v : Toml.Value) : Option ClassEntry := do
  let r ← v.record?
    ["name", "package", "params", "extends", "implements", "properties", "methods"] 4
  return {
    name := ← r.required? "name" string?
    package := ← r.optional? "package" string?
    params := ← r.defaulted? "params" [] strings?
    superclass := ← r.optional? "extends" string?
    interfaces := ← r.defaulted? "implements" [] strings?
    properties := ← r.defaulted? "properties" [] texts?
    methods := ← r.defaulted? "methods" [] (list? MethodEntry.ofToml?) }

def NavigatorEntry.ofToml? (v : Toml.Value) : Option NavigatorEntry := do
  let r ← v.record? ["type", "axes", "tests", "property", "method"] 5
  return {
    declaring := ← r.required? "type" string?
    axes := ← r.defaulted? "axes" [Axis.child.name] strings?
    tests := ← r.required? "tests" strings?
    property := ← r.optional? "property" string?
    method := ← r.optional? "method" string? }

def Ty.read (text : String) : Except SetupFailure Ty :=
  match Ty.parse? text with
  | some ty => .ok ty
  | none => .error (.badType text)

def MethodEntry.read (m : MethodEntry) : Except SetupFailure Signature :=
  return ⟨m.name, ← m.params.mapM Ty.read, ← Ty.read m.returns⟩

/-- The types of a class are read in order: superclass, interfaces, properties by name, methods. -/
def ClassEntry.read (c : ClassEntry) : Except SetupFailure ClassDef := do
  let properties := c.properties.mergeSort fun p q => p.1 ≤ q.1
  return {
    className := ⟨c.name, c.package⟩
    params := c.params
    superclass := ← c.superclass.mapM Ty.read
    interfaces := ← c.interfaces.mapM Ty.read
    properties := ← properties.mapM fun (name, text) => return (name, ← Ty.read text)
    methods := ← c.methods.mapM MethodEntry.read }

/-- The one target of a navigator, labelled with the manifest and the member. -/
def NavigatorEntry.navigator? (manifest : String) (e : NavigatorEntry) : Option Navigator :=
  match e.property, e.method with
  | some property, none => some (.fixedProperty s!"{manifest}:{property}" property)
  | none, some method => some (.fixedMethod s!"{manifest}:{method}()" method)
  | _, _ => none

def NavigatorEntry.read (manifest : String) (known : String → Bool) (e : NavigatorEntry) :
    Except SetupFailure Registration :=
  if !known e.declaring then .error (.unknownClass e.declaring manifest)
  else if e.tests.isEmpty then .error (.badNavigator e.declaring .noTests)
  else
    match e.navigator? manifest with
    | none => .error (.badNavigator e.declaring .notOneTarget)
    | some navigator =>
      .ok ⟨.ofClass e.declaring, e.axes.map Axis.ofName, e.tests.map SlotTest.ofText, navigator⟩

structure Manifest where
  name : String
  classes : List ClassDef
  registrations : List Registration

namespace Manifest

/-- The classes and navigators that a document lists. -/
def entries? (v : Toml.Value) : Option (List ClassEntry × List NavigatorEntry) := do
  let r ← v.record? ["class", "navigator"] 0
  return (← r.defaulted? "class" [] (list? ClassEntry.ofToml?),
    ← r.defaulted? "navigator" [] (list? NavigatorEntry.ofToml?))

def read (name text : String) : Except SetupFailure Manifest :=
  match (Toml.parse? text).bind entries? with
  | none => .error .malformed
  | some (classes, navigators) => do
    let classes ← classes.mapM ClassEntry.read
    let known (c : String) := classes.any (·.className.name == c) || ClassTable.builtin.contains c
    return ⟨name, classes, ← navigators.mapM (NavigatorEntry.read name known)⟩

end Manifest

end NavScript
