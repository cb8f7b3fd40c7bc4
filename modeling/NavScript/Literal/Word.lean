/-!
# Signed words

Integers of a fixed number of bits. Every operation gives `none` where the exact result does not
fit, and division gives `none` for a zero divisor; quotients are truncated toward zero.
-/

namespace NavScript

/-- The number of non-negative integers that `bits` bits hold in two's complement. -/
def Word.half (bits : Nat) : Nat := Nat.pow 2 (bits - 1)

/-- The integers that `bits` bits hold in two's complement. -/
structure Word (bits : Nat) where
  val : Int
  lower : -(Word.half bits : Int) ≤ val
  upper : val < Word.half bits
deriving DecidableEq

namespace Word

variable {bits : Nat}

def ofInt? (n : Int) : Option (Word bits) :=
  if h : -(half bits : Int) ≤ n ∧ n < half bits then some ⟨n, h.1, h.2⟩ else none

theorem ofInt?_val (a : Word bits) : ofInt? a.val = some a := by
  simp [ofInt?, a.lower, a.upper]

/-- The same integer in a word that may be too narrow for it. -/
def resize? {wider : Nat} (a : Word bits) : Option (Word wider) := ofInt? a.val

def add? (a b : Word bits) : Option (Word bits) := ofInt? (a.val + b.val)

def sub? (a b : Word bits) : Option (Word bits) := ofInt? (a.val - b.val)

def mul? (a b : Word bits) : Option (Word bits) := ofInt? (a.val * b.val)

def div? (a b : Word bits) : Option (Word bits) :=
  if b.val = 0 then none else ofInt? (a.val.tdiv b.val)

/-- The remainder has the sign of the left operand. It is refused where the quotient is. -/
def rem? (a b : Word bits) : Option (Word bits) :=
  (div? a b).bind fun _ => ofInt? (a.val.tmod b.val)

end Word

end NavScript
