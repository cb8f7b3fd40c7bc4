import NavScript.Decimal.Layout
import NavScript.Json.Floating
import NavScript.Json.Record
import NavScript.Literal.Basic

/-!
# Constants in JSON

Integers have to fit their kind and are never written with a point or an exponent. Floating-point
values are read from any number of the range of 64 bits, not always as the nearest value, and
written with the fewest digits; what is not finite is written as null.
-/

namespace NavScript

open Json (tagged)
open Float.Model (Format UnpackedFloat)

/-- A whole number of any size, minus zero included. -/
def Json.bigInt? : Json → Option Int
  | .number (.integer negative n) => some (if negative then -(n : Int) else n)
  | _ => none

def Json.ofUnpacked (format : Format) : UnpackedFloat → Json
  | .notANumber | .infinity _ => .null
  | .zero s => .number (.decimal (s == .negative) 0 0)
  | .finite s m e _ =>
    let d := (Decimal.Binary.ofFormat format m e).shortest
    .number (.decimal (s == .negative) d.digits d.exponent)

/-- A text of exactly one character. -/
def Json.char? (j : Json) : Option Char := do
  match (← j.string?).toList with
  | [c] => some c
  | _ => none

namespace Literal

def toJson : Literal → Json
  | null => .string "Null"
  | bool b => tagged "Bool" (.bool b)
  | char c => tagged "Char" (.string c.toString)
  | short v => tagged "Short" (.ofInt v.val)
  | int v => tagged "Int" (.ofInt v.val)
  | long v => tagged "Long" (.ofInt v.val)
  | bigInteger v => tagged "BigInteger" (.ofInt v.val)
  | float v => tagged "Float" (.ofUnpacked .binary32 v.toModel.unpack)
  | double v => tagged "Double" (.ofUnpacked .binary64 v.toModel.unpack)
  | bigDecimal s => tagged "BigDecimal" (.string s)
  | string s => tagged "String" (.string s)

def ofJson? (j : Json) : Option Literal :=
  match j.variant? with
  | some ("Null", .null) => some null
  | some ("Bool", v) => v.bool?.map bool
  | some ("Char", v) => v.char?.map char
  | some ("Short", v) => (v.int?.bind Word.ofInt?).map short
  | some ("Int", v) => (v.int?.bind Word.ofInt?).map int
  | some ("Long", v) => (v.int?.bind Word.ofInt?).map long
  | some ("BigInteger", v) => (v.bigInt?.bind Word.ofInt?).map bigInteger
  | some ("Float", v) => v.float32?.map float
  | some ("Double", v) => v.float?.map double
  | some ("BigDecimal", v) => v.string?.map bigDecimal
  | some ("String", v) => v.string?.map string
  | _ => none

end Literal

end NavScript
