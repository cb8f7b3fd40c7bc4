/-!
# JSON values

An integer keeps its sign apart from its magnitude, since a minus before zero shows; any other
number is a decimal. Members of an object keep their order. A text can have the form of a value and
denote none: such parts are `illFormed`, and nothing but passing over them can be done with them.
-/

namespace NavScript

namespace Json

inductive Number where
  | integer (negative : Bool) (magnitude : Nat)
  /-- The value `digits * 10 ^ exponent`. -/
  | decimal (negative : Bool) (digits : Nat) (exponent : Int)
deriving DecidableEq, Inhabited, Repr

end Json

inductive Json where
  | null
  | bool (b : Bool)
  | number (n : Json.Number)
  | string (s : String)
  | array (items : List Json)
  | object (members : List (String × Json))
  /-- Half of a surrogate pair in a string or in a name, or containers nested too deep. -/
  | illFormed
deriving Inhabited, Repr

namespace Json

def ofInt (n : Int) : Json := number (.integer (decide (n < 0)) n.natAbs)

def ofNat (n : Nat) : Json := number (.integer false n)

def ofOption {α : Type} (f : α → Json) : Option α → Json
  | some a => f a
  | none => null

def strings (ss : List String) : Json := array (ss.map string)

def get? : Json → String → Option Json
  | object members, key => members.lookup key
  | _, _ => none

/-- The member of that name, unless it is missing or null. -/
def present? (j : Json) (key : String) : Option Json :=
  match j.get? key with
  | some null => none
  | found => found

def string? : Json → Option String
  | string s => some s
  | _ => none

def bool? : Json → Option Bool
  | bool b => some b
  | _ => none

def array? : Json → Option (List Json)
  | array items => some items
  | _ => none

def object? : Json → Option (List (String × Json))
  | object members => some members
  | _ => none

/-- A natural number. Minus zero is none. -/
def nat? : Json → Option Nat
  | number (.integer false n) => some n
  | _ => none

/-- A whole number. Minus zero is none. -/
def int? : Json → Option Int
  | number (.integer false n) => some n
  | number (.integer true (n + 1)) => some (-(n + 1 : Nat))
  | _ => none

theorem int?_ofInt (n : Int) : (ofInt n).int? = some n := by
  unfold ofInt
  by_cases h : n < 0
  · obtain ⟨k, rfl⟩ : ∃ k : Nat, n = -(k + 1 : Nat) := ⟨(-n - 1).toNat, by omega⟩
    have : (-((k + 1 : Nat) : Int)).natAbs = k + 1 := by omega
    simp only [h, decide_true, this, int?]
  · obtain ⟨k, rfl⟩ : ∃ k : Nat, n = k := ⟨n.toNat, by omega⟩
    simp [h, int?]

mutual

/-- How deep containers are nested. -/
def depth : Json → Nat
  | array items => depthItems items + 1
  | object members => depthMembers members + 1
  | _ => 0

def depthItems : List Json → Nat
  | [] => 0
  | j :: rest => max (depth j) (depthItems rest)

def depthMembers : List (String × Json) → Nat
  | [] => 0
  | (_, j) :: rest => max (depth j) (depthMembers rest)

end

end Json

end NavScript
