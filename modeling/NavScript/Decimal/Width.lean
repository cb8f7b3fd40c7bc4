/-!
# Binary values of 32 and 64 bits

Conversions between the two widths and the remainder of a division, each computed exactly and
rounded once, to nearest with ties to even. Only `scaled` rounds in steps.
-/

namespace NavScript.Decimal

open Float.Model (Format UnpackedFloat)
open Float.Model.UnpackedFloat (Sign)

/-- A value rounded to a format. -/
def roundTo (format : Format) : UnpackedFloat → UnpackedFloat
  | .finite s m e _ => UnpackedFloat.round format s m e
  | x => x

def widen (x : Float32) : Float := .ofModel (.pack (roundTo .binary64 x.toModel.unpack))

def narrow (x : Float) : Float32 := .ofModel (.pack (roundTo .binary32 x.toModel.unpack))

def float32OfInt (n : Int) : Float32 := .ofModel (.ofInt n)

def floatOfInt (n : Int) : Float := .ofModel (.ofInt n)

/-- The nearest value of `10 ^ k`. It is infinite from `10 ^ 309` on. -/
def tenTo (k : Nat) : Float := .ofModel (.ofScientific 1 (min k 309 : Nat))

/-- A value near `n * 10 ^ exponent`. First `n` is rounded, then the product with a power of ten or
the quotient by one, so that the nearest value may be missed. Powers beyond the greatest one take
two divisions, and after two divisions by the greatest one nothing is left. -/
def scaled (n : Nat) (exponent : Int) : Float :=
  let x := floatOfInt n
  if n = 0 then x
  else if 0 ≤ exponent then x * tenTo exponent.toNat
  else
    let k := (-exponent).toNat
    if k ≤ 308 then x / tenTo k else x / tenTo 308 / tenTo (min (k - 308) 308)

/-- The remainder of a division truncated toward zero. It is exact, has the sign of the left
operand, and is no number for an infinite dividend or a zero divisor. -/
def remainder (format : Format) : UnpackedFloat → UnpackedFloat → UnpackedFloat
  | .notANumber, _ => .notANumber
  | _, .notANumber => .notANumber
  | .infinity _, _ => .notANumber
  | _, .zero _ => .notANumber
  | .zero s, _ => .zero s
  | x, .infinity _ => x
  | .finite s m e _, .finite _ n f _ =>
    let least := min e f
    let rest := (m <<< (e - least).toNat) % (n <<< (f - least).toNat)
    if rest = 0 then .zero s else UnpackedFloat.round format s rest least

def remainder64 (x y : Float) : Float :=
  .ofModel (.pack (remainder .binary64 x.toModel.unpack y.toModel.unpack))

def remainder32 (x y : Float32) : Float32 :=
  .ofModel (.pack (remainder .binary32 x.toModel.unpack y.toModel.unpack))

end NavScript.Decimal
