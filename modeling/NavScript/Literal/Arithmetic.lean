import NavScript.Decimal.Width
import NavScript.Literal.Basic
import NavScript.Operator.Basic

/-!
# Arithmetic on constants

Conversion of a numeric constant to a wider kind, and the value of an arithmetic operator over two
constants of one kind. Integer results that do not fit and zero divisors have no value; decimals
are left to the run time.
-/

namespace NavScript.Literal

/-- The constant in a wider kind; `none` for narrower kinds and for what is not numeric. -/
def widenTo? (l : Literal) (kind : NumericKind) : Option Literal :=
  if l.numericKind? = some kind then some l
  else
    match l, kind with
    | short v, .int => v.resize?.map int
    | short v, .long | int v, .long => v.resize?.map long
    | short v, .bigInteger | int v, .bigInteger | long v, .bigInteger => v.resize?.map bigInteger
    | short v, .float | int v, .float | long v, .float => some (float (Decimal.float32OfInt v.val))
    | short v, .double | int v, .double | long v, .double =>
      some (double (Decimal.floatOfInt v.val))
    | float v, .double => some (double (Decimal.widen v))
    | short v, .bigDecimal | int v, .bigDecimal | long v, .bigDecimal | bigInteger v, .bigDecimal =>
      some (bigDecimal (toString v.val))
    | float v, .bigDecimal => some (bigDecimal (floatText .plain v))
    | double v, .bigDecimal => some (bigDecimal (doubleText .plain v))
    | _, _ => none

theorem numericKind?_widenTo? {l w : Literal} {kind : NumericKind} (h : l.widenTo? kind = some w) :
    w.numericKind? = some kind := by
  unfold widenTo? at h
  split at h
  · rename_i same
    cases h
    exact same
  · split at h
    all_goals first
      | (cases h
         done)
      | (cases h
         rfl)
      | (obtain ⟨v, -, rfl⟩ := Option.map_eq_some_iff.1 h
         rfl)

/-- Checked arithmetic on words. -/
def foldWord {bits : Nat} (op : Operator) (a b : Word bits) : Option (Word bits) :=
  match op with
  | .add => a.add? b
  | .sub => a.sub? b
  | .mul => a.mul? b
  | .div => a.div? b
  | .rem => a.rem? b
  | _ => none

def foldFloat (op : Operator) (a b : Float32) : Option Float32 :=
  match op with
  | .add => some (a + b)
  | .sub => some (a - b)
  | .mul => some (a * b)
  | .div => some (a / b)
  | .rem => some (Decimal.remainder32 a b)
  | _ => none

def foldDouble (op : Operator) (a b : Float) : Option Float :=
  match op with
  | .add => some (a + b)
  | .sub => some (a - b)
  | .mul => some (a * b)
  | .div => some (a / b)
  | .rem => some (Decimal.remainder64 a b)
  | _ => none

/-- The value of an arithmetic operator over two constants of the same kind. -/
def fold? (op : Operator) : Literal → Literal → Option Literal
  | short a, short b => (foldWord op a b).map short
  | int a, int b => (foldWord op a b).map int
  | long a, long b => (foldWord op a b).map long
  | bigInteger a, bigInteger b => (foldWord op a b).map bigInteger
  | float a, float b => (foldFloat op a b).map float
  | double a, double b => (foldDouble op a b).map double
  | _, _ => none

end NavScript.Literal
