import NavScript.Class.Members
import NavScript.Tree.Children

/-!
# Navigators

A navigator turns a step on a receiver of known type into an expression, or declines. What it is
filed under, beside a type and an axis, is the test of the step (`SlotTest`).
-/

namespace NavScript

/-- The test of a slot. -/
inductive SlotTest where
  | name (name : String)
  /-- Any name, also the fallback for each name. -/
  | anyName
  | self
  | call (name : String)
  /-- The fallback for each call. -/
  | anyCall
  | reduction (into : Reduction)
deriving DecidableEq

namespace SlotTest

/-- Reads `*`, `node()`, `*()`, a name, or a name followed by `()`. -/
def ofText (text : String) : SlotTest :=
  if text == "*" then .anyName
  else if text == "node()" then .self
  else if text == "*()" then .anyCall
  else
    match text.toList.reverse with
    | ')' :: '(' :: called => .call (String.ofList called.reverse)
    | _ => .name text

def render : SlotTest → String
  | name n => n
  | anyName => "*"
  | self => "node()"
  | call n => n ++ "()"
  | anyCall => "*()"
  | reduction r => r.symbol

def label : SlotTest → String
  | name _ => "name"
  | anyName => "any-name"
  | self => "self"
  | call _ => "call"
  | anyCall => "any-call"
  | reduction _ => "reduction"

/-- The slot that the test of a step looks up. -/
def ofTest {α : Type} : Test α → SlotTest
  | .name n => name n
  | .wildcard => anyName
  | .self => self
  | .call n _ => call n
  | .reduction r => reduction r

/-- The slot consulted after the exact one. -/
def fallback? : SlotTest → Option SlotTest
  | name _ => some anyName
  | call _ => some anyCall
  | _ => none

end SlotTest

/-- What a navigator is asked: a step on a receiver of a type. -/
structure Request where
  step : Step Node
  receiver : Node
  receiverTy : Ty
  classes : ClassTable

namespace Request

/-- The arguments of a call. -/
def args (r : Request) : List Node := r.step.test.children

/-- The member that the step names. -/
def member? (r : Request) : Option String :=
  match r.step.test with
  | .name n | .call n _ => some n
  | _ => none

/-- A read of a property of the receiver, where the step stands. -/
def propertyRead (r : Request) (name : String) (ty : Ty) : Node :=
  { span := r.step.span, ty := some ty, kind := .propertyRead r.receiver name }

/-- A call of a method of the receiver with the arguments of the step. -/
def methodCall (r : Request) (owner : Ty) (name : String) (ty : Ty) : Node :=
  { span := r.step.span, ty := some ty, kind := .methodCall r.receiver owner name r.args }

/-- The read of a property that the receiver has. -/
def readProperty? (r : Request) (name : String) : Option Node :=
  (r.classes.property? r.receiverTy name).map fun found => r.propertyRead name found.ty

/-- The call of a method that the receiver has for as many arguments. -/
def callMethod? (r : Request) (name : String) : Option Node :=
  (r.classes.method? r.receiverTy name r.args.length).map fun found =>
    r.methodCall found.owner name found.ty

end Request

structure Navigator where
  label : String
  apply : Request → Option Node

/-- A navigator and the slots it is offered for: each axis with each test. -/
structure Registration where
  declaring : Ty
  axes : List Axis
  tests : List SlotTest
  navigator : Navigator

namespace Navigator

/-- Stays on the receiver. -/
def identity : Navigator := ⟨"identity", fun r => some (r.receiver.withTy r.receiverTy)⟩

/-- Reads the property that the step names. -/
def namedProperty : Navigator :=
  ⟨"reflect-property", fun r => r.member?.bind r.readProperty?⟩

/-- Calls the method that the step names. -/
def namedMethod : Navigator :=
  ⟨"reflect-method", fun r => r.member?.bind r.callMethod?⟩

/-- Reads one property, whatever the step is called. -/
def fixedProperty (label property : String) : Navigator :=
  ⟨label, fun r => r.readProperty? property⟩

/-- Calls one method with the arguments of the step, whatever the step is called. -/
def fixedMethod (label method : String) : Navigator :=
  ⟨label, fun r => r.callMethod? method⟩

/-- The navigators that every reference type inherits from `Object`. -/
def standard : List Registration :=
  [⟨.object, [.self], [.self], identity⟩,
    ⟨.object, [.child, .attr], [.anyName], namedProperty⟩,
    ⟨.object, [.child], [.anyCall], namedMethod⟩]

end Navigator

end NavScript
