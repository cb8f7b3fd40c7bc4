/-!
# Binary operators

The operators of the language: arithmetic, comparisons, the two connectives, the default for a
null value, and the test of a type.
-/

namespace NavScript

inductive Operator where
  | add | sub | mul | div | rem
  | eq | ne | lt | le | gt | ge
  | and | or
  /-- The left operand, unless it is null. -/
  | elvis
  | instanceOf
deriving DecidableEq, Inhabited, Repr

namespace Operator

def all : List Operator :=
  [add, sub, mul, div, rem, eq, ne, lt, le, gt, ge, and, or, elvis, instanceOf]

def symbol : Operator → String
  | add => "+"
  | sub => "-"
  | mul => "*"
  | div => "/"
  | rem => "%"
  | eq => "=="
  | ne => "!="
  | lt => "<"
  | le => "<="
  | gt => ">"
  | ge => ">="
  | and => "&&"
  | or => "||"
  | elvis => "?:"
  | instanceOf => "instanceof"

def label : Operator → String
  | add => "Add"
  | sub => "Sub"
  | mul => "Mul"
  | div => "Div"
  | rem => "Rem"
  | eq => "Eq"
  | ne => "Ne"
  | lt => "Lt"
  | le => "Le"
  | gt => "Gt"
  | ge => "Ge"
  | and => "And"
  | or => "Or"
  | elvis => "Elvis"
  | instanceOf => "InstanceOf"

def ofLabel? (s : String) : Option Operator := all.find? (·.label == s)

def isArithmetic : Operator → Bool
  | add | sub | mul | div | rem => true
  | _ => false

def isComparison : Operator → Bool
  | eq | ne | lt | le | gt | ge => true
  | _ => false

def isLogical : Operator → Bool
  | and | or => true
  | _ => false

end Operator

end NavScript
