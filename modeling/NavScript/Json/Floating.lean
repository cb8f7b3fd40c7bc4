import NavScript.Decimal.Width
import NavScript.Json.Reader

/-!
# Numbers as floating-point values

An integer that fits into 64 bits is rounded once, to the width that is asked for. Any other number
goes through `Decimal.scaled`, and to 32 bits by way of 64. Numbers out of the range of 64 bits have
no value.
-/

namespace NavScript.Json

namespace Number

/-- The sign and the magnitude of an integer of 64 bits. Minus zero is none. -/
def int64? : Number → Option Int
  | .integer false n => if n < UInt64.size then some n else none
  | .integer true n => if 0 < n && 2 * n ≤ UInt64.size then some (-n) else none
  | .decimal _ _ _ => none

/-- The magnitude as a decimal. -/
def parts : Number → Nat × Int
  | .integer _ n =>
    let (digits, zeros) := gather 0 (Nat.toDigits 10 n)
    (digits, zeros)
  | .decimal _ digits exponent => (digits, exponent)

def isNegative : Number → Bool
  | .integer negative _ | .decimal negative _ _ => negative

def float? (n : Number) : Option Float :=
  let (digits, exponent) := n.parts
  let x := Decimal.scaled digits exponent
  if x.isFinite then some (if n.isNegative then -x else x) else none

def float32? (n : Number) : Option Float32 :=
  match n.int64? with
  | some i => some (Decimal.float32OfInt i)
  | none => n.float?.map Decimal.narrow

end Number

def float? : Json → Option Float
  | number n => n.float?
  | _ => none

def float32? : Json → Option Float32
  | number n => n.float32?
  | _ => none

mutual

/-- Whether every part of a value denotes something. -/
def isSound : Json → Bool
  | illFormed => false
  | number n => n.float?.isSome
  | array items => soundItems items
  | object members => soundMembers members
  | null | bool _ | string _ => true

def soundItems : List Json → Bool
  | [] => true
  | j :: rest => isSound j && soundItems rest

def soundMembers : List (String × Json) → Bool
  | [] => true
  | (_, j) :: rest => isSound j && soundMembers rest

end

end NavScript.Json
