/-!
# Types

A type is a primitive, a class, a class applied to type arguments, an array, or the type of `null`.
The package of a class name is for display only: `Ty.same` compares types without it, while `=`
tells packages apart.
-/

namespace NavScript

/-- Kinds of unboxed values. -/
inductive Prim where
  | boolean | byte | char | short | int | long | float | double | void
deriving DecidableEq, Inhabited, Repr

namespace Prim

def all : List Prim := [boolean, byte, char, short, int, long, float, double, void]

def name : Prim → String
  | boolean => "boolean"
  | byte => "byte"
  | char => "char"
  | short => "short"
  | int => "int"
  | long => "long"
  | float => "float"
  | double => "double"
  | void => "void"

def ofName? (s : String) : Option Prim := all.find? (·.name == s)

/-- The class a value of this kind is boxed into. -/
def boxName : Prim → String
  | boolean => "Boolean"
  | byte => "Byte"
  | char => "Character"
  | short => "Short"
  | int => "Integer"
  | long => "Long"
  | float => "Float"
  | double => "Double"
  | void => "Void"

/-- The kind a box holds. `Void` is no box: it has no value. -/
def ofBoxName? (s : String) : Option Prim := (all.filter (· ≠ void)).find? (·.boxName == s)

end Prim

structure ClassName where
  name : String
  package : Option String := none
deriving DecidableEq, Inhabited, Repr

def ClassName.render (c : ClassName) : String :=
  match c.package with
  | some p => p ++ "." ++ c.name
  | none => c.name

inductive Ty where
  | prim (kind : Prim)
  | named (c : ClassName)
  | app (c : ClassName) (args : List Ty)
  | array (elem : Ty)
  | null
deriving Inhabited, Repr

namespace Ty

mutual

private def decideEq : (a b : Ty) → Decidable (a = b)
  | prim a, prim b => if h : a = b then isTrue (h ▸ rfl) else isFalse (by simp [h])
  | named a, named b => if h : a = b then isTrue (h ▸ rfl) else isFalse (by simp [h])
  | app a xs, app b ys =>
    if h : a = b then
      match decideEqList xs ys with
      | isTrue h' => isTrue (by rw [h, h'])
      | isFalse h' => isFalse (by simp [h'])
    else isFalse (by simp [h])
  | array a, array b =>
    match decideEq a b with
    | isTrue h => isTrue (h ▸ rfl)
    | isFalse h => isFalse (by simp [h])
  | null, null => isTrue rfl
  | prim _, named _ | prim _, app _ _ | prim _, array _ | prim _, null => isFalse nofun
  | named _, prim _ | named _, app _ _ | named _, array _ | named _, null => isFalse nofun
  | app _ _, prim _ | app _ _, named _ | app _ _, array _ | app _ _, null => isFalse nofun
  | array _, prim _ | array _, named _ | array _, app _ _ | array _, null => isFalse nofun
  | null, prim _ | null, named _ | null, app _ _ | null, array _ => isFalse nofun

private def decideEqList : (xs ys : List Ty) → Decidable (xs = ys)
  | [], [] => isTrue rfl
  | x :: xs, y :: ys =>
    match decideEq x y with
    | isTrue h =>
      match decideEqList xs ys with
      | isTrue h' => isTrue (by rw [h, h'])
      | isFalse h' => isFalse (by simp [h'])
    | isFalse h => isFalse (by simp [h])
  | [], _ :: _ | _ :: _, [] => isFalse nofun

end

instance : DecidableEq Ty := decideEq

def boolean : Ty := prim .boolean

def void : Ty := prim .void

/-- A class without package and arguments. -/
def ofClass (name : String) : Ty := named ⟨name, none⟩

def object : Ty := ofClass "Object"

def string : Ty := ofClass "String"

/-- A generic class without package, applied to one argument. -/
def generic (name : String) (arg : Ty) : Ty := app ⟨name, none⟩ [arg]

/-- The type of a type used as a value. -/
def classOf (t : Ty) : Ty := generic "Class" t

def isPrimitive : Ty → Bool
  | prim _ => true
  | _ => false

def isReference (t : Ty) : Bool := !t.isPrimitive

def isVoid : Ty → Bool
  | prim .void => true
  | _ => false

def className? : Ty → Option String
  | named c | app c _ => some c.name
  | _ => none

/-- The class that holds a primitive value; other types stay as they are. -/
def boxed : Ty → Ty
  | prim k => ofClass k.boxName
  | t => t

theorem boxed_reference (t : Ty) : t.boxed.isPrimitive = false := by
  cases t <;> rfl

theorem boxed_isReference (t : Ty) : t.boxed.isReference = true := by
  simp [isReference, boxed_reference]

theorem boxed_of_reference {t : Ty} (h : t.isPrimitive = false) : t.boxed = t := by
  cases t
  case prim => cases h
  all_goals rfl

theorem boxed_boxed (t : Ty) : t.boxed.boxed = t.boxed := boxed_of_reference t.boxed_reference

/-- The primitive inside a box. -/
def unboxed? : Ty → Option Ty
  | named c => (Prim.ofBoxName? c.name).map prim
  | _ => none

/-- Generic classes that hold many values of their one argument. -/
def sequenceClasses : List String := ["List", "Set", "Collection", "Iterable", "Stream"]

/-- The type of the values held, for arrays and for the sequence classes. -/
def element? : Ty → Option Ty
  | array t => some t
  | app c [t] => if sequenceClasses.contains c.name then some t else none
  | _ => none

def isMultiValued (t : Ty) : Bool := t.element?.isSome

/-- Whether values of this type are consumed lazily. -/
def isStream : Ty → Bool
  | app c _ => c.name == "Stream"
  | _ => false

mutual

/-- Equality up to packages. -/
def same : Ty → Ty → Bool
  | prim a, prim b => a == b
  | named a, named b => a.name == b.name
  | app a xs, app b ys => a.name == b.name && sameList xs ys
  | array a, array b => same a b
  | null, null => true
  | _, _ => false

def sameList : List Ty → List Ty → Bool
  | [], [] => true
  | x :: xs, y :: ys => same x y && sameList xs ys
  | _, _ => false

end

mutual

theorem same_refl : ∀ t : Ty, t.same t = true
  | prim _ | named _ => by simp [same]
  | app _ args => by simp [same, sameList_refl args]
  | array elem => by simp [same, same_refl elem]
  | null => rfl

theorem sameList_refl : ∀ ts : List Ty, sameList ts ts = true
  | [] => rfl
  | t :: ts => by simp [sameList, same_refl t, sameList_refl ts]

end

mutual

theorem same_comm : ∀ a b : Ty, a.same b = b.same a
  | prim a, prim b => BEq.comm
  | named a, named b => BEq.comm
  | app a xs, app b ys => by rw [same, same, BEq.comm, sameList_comm xs ys]
  | array a, array b => same_comm a b
  | null, null => rfl
  | prim _, named _ | prim _, app _ _ | prim _, array _ | prim _, null => rfl
  | named _, prim _ | named _, app _ _ | named _, array _ | named _, null => rfl
  | app _ _, prim _ | app _ _, named _ | app _ _, array _ | app _ _, null => rfl
  | array _, prim _ | array _, named _ | array _, app _ _ | array _, null => rfl
  | null, prim _ | null, named _ | null, app _ _ | null, array _ => rfl

theorem sameList_comm : ∀ xs ys : List Ty, sameList xs ys = sameList ys xs
  | [], [] => rfl
  | x :: xs, y :: ys => by rw [sameList, sameList, same_comm x y, sameList_comm xs ys]
  | [], _ :: _ | _ :: _, [] => rfl

end

theorem same_boxed {a b : Ty} (h : a.same b = true) : a.boxed.same b.boxed = true := by
  cases a <;> cases b
  case prim.prim => simp_all [same, boxed, ofClass]
  all_goals first
    | exact h
    | cases h

def sameOption : Option Ty → Option Ty → Bool
  | some a, some b => same a b
  | none, none => true
  | _, _ => false

/-- What a type is filed under: the name of its class or primitive, one key for all arrays. -/
def key : Ty → String
  | prim k => k.name
  | named c | app c _ => c.name
  | array _ => "[]"
  | null => "null"

theorem key_of_same {a b : Ty} (h : a.same b = true) : a.key = b.key := by
  cases a <;> cases b <;> simp_all [same, key]

end Ty

end NavScript
