import NavScript.Decimal.Shortest

/-!
# Texts of floating-point values

A layout says which values are written out in full and what marks a value without fraction. All
layouts write the fewest digits that read back, `inf`, `-inf` and `NaN`, and keep the sign of zero.
-/

namespace NavScript.Decimal

open Float.Model (Format UnpackedFloat)
open Float.Model.UnpackedFloat (Sign)

structure Layout where
  /-- Powers of ten of the first digit for which no exponent is written. -/
  positional : Int → Bool
  /-- What follows the digits of a value without fraction. -/
  whole : String

namespace Layout

/-- An exponent from `10 ^ 16` on and below `10 ^ -4`; whole values end in `.0`. -/
def marked : Layout := ⟨fun k => -4 ≤ k && k ≤ 15, ".0"⟩

/-- Never an exponent, and no mark on whole values. -/
def plain : Layout := ⟨fun _ => true, ""⟩

/-- Digits without exponent. -/
def positionalText (layout : Layout) (d : Digits) : String :=
  let ds := Nat.toDigits 10 d.digits
  if 0 ≤ d.exponent then
    String.ofList (ds ++ List.replicate d.exponent.toNat '0') ++ layout.whole
  else
    let places := (-d.exponent).toNat
    if places < ds.length then
      let split := ds.length - places
      String.ofList (ds.take split ++ '.' :: ds.drop split)
    else String.ofList ('0' :: '.' :: List.replicate (places - ds.length) '0' ++ ds)

/-- One digit, the others after a point, and the power of ten. -/
def exponentText (d : Digits) : String :=
  let mantissa :=
    match Nat.toDigits 10 d.digits with
    | [] => []
    | [c] => [c]
    | c :: rest => c :: '.' :: rest
  String.ofList mantissa ++ "e" ++ toString d.leading

def digitsText (layout : Layout) (d : Digits) : String :=
  if layout.positional d.leading then layout.positionalText d else exponentText d

def signText : Sign → String
  | .negative => "-"
  | .positive => ""

end Layout

/-- A finite value of a format. Below a power of two the gap is narrower, save at the least
exponent. -/
def Binary.ofFormat (format : Format) (significand : Nat) (exponent : Int) : Binary :=
  ⟨significand, exponent,
    significand == 1 <<< format.mantissaBitsWithoutImplicit && exponent > format.minExponent⟩

def Layout.text (layout : Layout) (format : Format) : UnpackedFloat → String
  | .notANumber => "NaN"
  | .infinity s => signText s ++ "inf"
  | .zero s => signText s ++ "0" ++ layout.whole
  | .finite s m e _ => signText s ++ layout.digitsText (Binary.ofFormat format m e).shortest

end NavScript.Decimal
