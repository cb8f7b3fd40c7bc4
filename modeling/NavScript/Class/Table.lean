import NavScript.Ty.Basic

/-!
# Class declarations

What is known about classes: their type parameters, the types above them, and the members they
declare. A table files a class under its name without the package; a later declaration replaces
an earlier one.
-/

namespace NavScript

structure Signature where
  name : String
  params : List Ty
  result : Ty
deriving DecidableEq

structure ClassDef where
  className : ClassName
  params : List String := []
  /-- Without one, `Object` is above the class. -/
  superclass : Option Ty := none
  interfaces : List Ty := []
  properties : List (String × Ty) := []
  methods : List Signature := []
deriving DecidableEq

namespace ClassDef

/-- The type declared, applied to its own parameters. -/
def ty (d : ClassDef) : Ty :=
  if d.params.isEmpty then .named d.className else .app d.className (d.params.map Ty.ofClass)

def property? (d : ClassDef) (name : String) : Option Ty := d.properties.lookup name

def method? (d : ClassDef) (name : String) (arity : Nat) : Option Signature :=
  d.methods.find? fun m => m.name == name && m.params.length == arity

end ClassDef

structure ClassTable where
  classes : List ClassDef := []

namespace ClassTable

def class? (t : ClassTable) (name : String) : Option ClassDef :=
  t.classes.find? (·.className.name == name)

def add (t : ClassTable) (d : ClassDef) : ClassTable :=
  ⟨t.classes.filter (·.className.name != d.className.name) ++ [d]⟩

def contains (t : ClassTable) (name : String) : Bool := (t.class? name).isSome

def size (t : ClassTable) : Nat := t.classes.length

def ofList (ds : List ClassDef) : ClassTable := ds.foldl add {}

/-- The classes every script can use. -/
def builtin : ClassTable :=
  let comparable := Ty.ofClass "Comparable"
  let number := Ty.ofClass "Number"
  let e := Ty.ofClass "E"
  let plain (name : String) : ClassDef := { className := ⟨name, none⟩ }
  let numeric (name : String) : ClassDef :=
    { className := ⟨name, none⟩, superclass := some number, interfaces := [comparable] }
  ofList ([
    plain "Object",
    plain "Comparable",
    { className := ⟨"CharSequence", none⟩, methods := [⟨"length", [], .prim .int⟩] },
    { className := ⟨"String", some "lang"⟩
      interfaces := [.ofClass "CharSequence", comparable]
      methods := [⟨"length", [], .prim .int⟩, ⟨"isEmpty", [], .boolean⟩,
        ⟨"toUpperCase", [], .string⟩] },
    { className := ⟨"Number", none⟩, methods := [⟨"doubleValue", [], .prim .double⟩] }]
    ++ ["Short", "Integer", "Long", "Float", "Double", "BigInteger", "BigDecimal"].map numeric ++ [
    { className := ⟨"Boolean", none⟩, interfaces := [comparable] },
    { className := ⟨"Character", none⟩, interfaces := [comparable] },
    { className := ⟨"Class", none⟩, params := ["T"], methods := [⟨"getName", [], .string⟩] },
    { className := ⟨"Iterable", none⟩, params := ["E"] },
    { className := ⟨"Collection", none⟩, params := ["E"]
      interfaces := [.generic "Iterable" e]
      methods := [⟨"size", [], .prim .int⟩, ⟨"isEmpty", [], .boolean⟩] },
    { className := ⟨"List", none⟩, params := ["E"]
      interfaces := [.generic "Collection" e]
      methods := [⟨"get", [.prim .int], e⟩] },
    { className := ⟨"Set", none⟩, params := ["E"], interfaces := [.generic "Collection" e] },
    { className := ⟨"Stream", none⟩, params := ["E"], methods := [⟨"count", [], .prim .long⟩] }])

end ClassTable

end NavScript
