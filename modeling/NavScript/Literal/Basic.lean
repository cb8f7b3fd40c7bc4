import NavScript.Decimal.Layout
import NavScript.Literal.Word
import NavScript.Text.Quoted
import NavScript.Ty.Numeric

/-!
# Constants

Compile-time constants, their types and their texts. Big integers are words of 128 bits; decimals
keep the text they were written with.
-/

namespace NavScript

inductive Literal where
  | null
  | bool (b : Bool)
  | char (c : Char)
  | short (v : Word 16)
  | int (v : Word 32)
  | long (v : Word 64)
  | bigInteger (v : Word 128)
  | float (v : Float32)
  | double (v : Float)
  | bigDecimal (text : String)
  | string (s : String)
deriving DecidableEq

namespace Literal

def numericKind? : Literal → Option NumericKind
  | short _ => some .short
  | int _ => some .int
  | long _ => some .long
  | bigInteger _ => some .bigInteger
  | float _ => some .float
  | double _ => some .double
  | bigDecimal _ => some .bigDecimal
  | _ => none

/-- The type a constant has by itself. -/
def ty : Literal → Ty
  | null => .null
  | bool _ => .boolean
  | char _ => .prim .char
  | string _ => .string
  | short _ => NumericKind.short.ty
  | int _ => NumericKind.int.ty
  | long _ => NumericKind.long.ty
  | bigInteger _ => NumericKind.bigInteger.ty
  | float _ => NumericKind.float.ty
  | double _ => NumericKind.double.ty
  | bigDecimal _ => NumericKind.bigDecimal.ty

theorem ofTy?_ty_of_numericKind? {l : Literal} {k : NumericKind} (h : l.numericKind? = some k) :
    l.ty = k.ty := by
  cases l <;> simp_all [numericKind?, ty]

/-- Equality of values: zeros of either sign are equal, and no number equals nothing. -/
def same : Literal → Literal → Bool
  | float a, float b => a == b
  | double a, double b => a == b
  | a, b => decide (a = b)

def doubleText (layout : Decimal.Layout) (x : Float) : String :=
  layout.text .binary64 x.toModel.unpack

def floatText (layout : Decimal.Layout) (x : Float32) : String :=
  layout.text .binary32 x.toModel.unpack

/-- The text of a constant. Numbers other than machine integers carry a letter for their kind. -/
def render : Literal → String
  | null => "null"
  | bool b => if b then "true" else "false"
  | char c => Text.quoteChar c
  | short v => toString v.val ++ "s"
  | int v => toString v.val
  | long v => toString v.val ++ "L"
  | bigInteger v => toString v.val ++ "B"
  | float v => floatText .marked v ++ "f"
  | double v => doubleText .marked v ++ "d"
  | bigDecimal text => text ++ "D"
  | string s => Text.quoteString s

end Literal

end NavScript
