/-!
# The fewest decimal digits of a binary value

A positive binary value stands for an interval of reals: those that round to it, to nearest and
with ties to the even significand. `Binary.shortest` searches the decimal grids from the coarsest
on; on each grid only the two neighbours of the value can lie in the interval, the nearer one is
taken, and the upper one when both are equally near.
-/

namespace NavScript.Decimal

/-- The decimal `digits * 10 ^ exponent`. -/
structure Digits where
  digits : Nat
  exponent : Int
deriving DecidableEq, Repr

namespace Digits

/-- How many digits there are. -/
def count (d : Digits) : Nat := (Nat.toDigits 10 d.digits).length

/-- The power of ten of the first digit. -/
def leading (d : Digits) : Int := d.exponent + d.count - 1

/-- Trailing zeros move into the exponent. -/
def stripZeros (d : Digits) : Digits :=
  go (d.digits.log2 + 1) d
where
  go : Nat → Digits → Digits
    | 0, d => d
    | fuel + 1, d =>
      if d.digits != 0 && d.digits % 10 == 0 then go fuel ⟨d.digits / 10, d.exponent + 1⟩ else d

end Digits

/-- The value `significand * 2 ^ exponent`. The gap to the value below is half the gap to the one
above when `narrowBelow` holds. -/
structure Binary where
  significand : Nat
  exponent : Int
  narrowBelow : Bool
deriving DecidableEq, Repr

/-- Compares `a * 10 ^ i` with `n * 2 ^ j`. -/
def compareScaled (a : Nat) (i : Int) (n : Nat) (j : Int) : Ordering :=
  compare ((a * Nat.pow 10 i.toNat) <<< (-j).toNat) ((n <<< j.toNat) * Nat.pow 10 (-i).toNat)

namespace Binary

/-- Whether the reals that round to `x` hold the decimal `d`. -/
def readsBack (x : Binary) (d : Digits) : Bool :=
  let low := if x.narrowBelow then 4 * x.significand - 1 else 4 * x.significand - 2
  let high := 4 * x.significand + 2
  let closed := x.significand % 2 == 0
  let fromLow := compareScaled d.digits d.exponent low (x.exponent - 2)
  let fromHigh := compareScaled d.digits d.exponent high (x.exponent - 2)
  (fromLow == .gt || (closed && fromLow == .eq)) && (fromHigh == .lt || (closed && fromHigh == .eq))

/-- The least power of ten above `x`. The binary logarithm gives it up to two steps. -/
def scale (x : Binary) : Int :=
  let guess := ((x.significand.log2 + x.exponent) * 30103).fdiv 100000 - 1
  let steps := (List.range 5).map fun i : Nat => guess + (i : Int)
  (steps.find? fun k => compareScaled 1 k x.significand x.exponent == .gt).getD (guess + 5)

/-- `x` in units of `10 ^ grid`, as a fraction. -/
def fraction (x : Binary) (grid : Int) : Nat × Nat :=
  ((x.significand <<< x.exponent.toNat) * Nat.pow 10 (-grid).toNat,
    Nat.pow 10 grid.toNat <<< (-x.exponent).toNat)

/-- The neighbour of `x` on the grid `10 ^ grid` that reads back, the nearer one if both do. -/
def onGrid? (x : Binary) (grid : Int) : Option Digits :=
  let (num, den) := x.fraction grid
  let below := num / den
  let lower : Digits := ⟨below, grid⟩
  let upper : Digits := ⟨below + 1, grid⟩
  if x.readsBack lower then
    if x.readsBack upper && 2 * num ≥ (2 * below + 1) * den then some upper else some lower
  else if x.readsBack upper then some upper
  else none

/-- All digits of `x`. -/
def exactDigits (x : Binary) : Digits :=
  if x.exponent < 0 then ⟨x.significand * Nat.pow 5 (-x.exponent).toNat, x.exponent⟩
  else ⟨x.significand <<< x.exponent.toNat, 0⟩

/-- The fewest digits that read back as `x`. -/
def shortest (x : Binary) : Digits :=
  let k := x.scale
  let found := (List.range 17).findSome? fun n : Nat => x.onGrid? (k - (n + 1 : Nat))
  (found.getD x.exactDigits).stripZeros

end Binary

end NavScript.Decimal
