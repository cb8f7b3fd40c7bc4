import NavScript.Ty.Basic

/-!
# Numeric kinds

The seven kinds of numbers and the kind to which two of them are promoted. Boxed numbers are not
numeric themselves; they are unboxed first.
-/

namespace NavScript

inductive NumericKind where
  | short | int | long | bigInteger | float | double | bigDecimal
deriving DecidableEq, Inhabited, Repr

namespace NumericKind

def all : List NumericKind := [short, int, long, bigInteger, float, double, bigDecimal]

/-- The place of a kind in the order of declaration. -/
def rank : NumericKind → Nat
  | short => 0
  | int => 1
  | long => 2
  | bigInteger => 3
  | float => 4
  | double => 5
  | bigDecimal => 6

def label : NumericKind → String
  | short => "Short"
  | int => "Int"
  | long => "Long"
  | bigInteger => "BigInteger"
  | float => "Float"
  | double => "Double"
  | bigDecimal => "BigDecimal"

def ofLabel? (s : String) : Option NumericKind := all.find? (·.label == s)

def ofTy? : Ty → Option NumericKind
  | .prim .short => some short
  | .prim .int => some int
  | .prim .long => some long
  | .prim .float => some float
  | .prim .double => some double
  | .named c =>
    if c.name == "BigInteger" then some bigInteger
    else if c.name == "BigDecimal" then some bigDecimal
    else none
  | _ => none

def ty : NumericKind → Ty
  | short => .prim .short
  | int => .prim .int
  | long => .prim .long
  | bigInteger => .ofClass "BigInteger"
  | float => .prim .float
  | double => .prim .double
  | bigDecimal => .ofClass "BigDecimal"

def isIntegral : NumericKind → Bool
  | short | int | long | bigInteger => true
  | _ => false

/-- The kind of a result over two kinds: the wider of two integers or of two binary kinds, the
binary kind of a machine integer beside it, and an arbitrary kind wherever one takes part. A big
integer meets a binary kind in the decimals. -/
def promote : NumericKind → NumericKind → NumericKind
  | bigDecimal, _ | _, bigDecimal => bigDecimal
  | bigInteger, float | bigInteger, double | float, bigInteger | double, bigInteger => bigDecimal
  | bigInteger, _ | _, bigInteger => bigInteger
  | double, _ | _, double => double
  | float, _ | _, float => float
  | long, _ | _, long => long
  | int, _ | _, int => int
  | short, short => short

theorem promote_comm (a b : NumericKind) : a.promote b = b.promote a := by
  cases a <;> cases b <;> rfl

theorem promote_self (a : NumericKind) : a.promote a = a := by
  cases a <;> rfl

theorem ofTy?_ty (a : NumericKind) : ofTy? a.ty = some a := by
  cases a <;> rfl

end NumericKind

end NavScript
