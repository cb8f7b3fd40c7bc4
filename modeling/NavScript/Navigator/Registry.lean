import NavScript.Diagnostic.Basic
import NavScript.Navigator.Basic

/-!
# The navigator registry

A slot is the key of a type, an axis and a test, and keeps the first navigator it was given. The
candidates for a step are found along the supertypes of the receiver's type, the most general
first; at each type the slot for the very test comes before its fallback.
-/

namespace NavScript

/-- Whether a navigator that finds its slot taken is worth a warning. -/
inductive ConflictPolicy where
  | firstWins | report
deriving DecidableEq, Inhabited, Repr

def ConflictPolicy.name : ConflictPolicy → String
  | .firstWins => "first-wins"
  | .report => "report"

def ConflictPolicy.ofName? (s : String) : Option ConflictPolicy :=
  [.firstWins, .report].find? (·.name == s)

structure Slot where
  key : String
  axis : Axis
  test : SlotTest
deriving DecidableEq

structure Registry where
  policy : ConflictPolicy := .firstWins
  /-- Occupied slots in the order in which they were filled. -/
  slots : List (Slot × Navigator) := []

namespace Registry

def holder? (r : Registry) (slot : Slot) : Option Navigator := r.slots.lookup slot

def size (r : Registry) : Nat := r.slots.length

def clear (r : Registry) : Registry := { r with slots := [] }

/-- Offers a navigator for one slot; a taken slot stays as it is. -/
def offer (r : Registry) (declaring : Ty) (axis : Axis) (test : SlotTest) (navigator : Navigator) :
    Registry × List Diagnostic :=
  let slot : Slot := ⟨declaring.key, axis, test⟩
  match r.holder? slot with
  | none => ({ r with slots := r.slots ++ [(slot, navigator)] }, [])
  | some kept =>
    match r.policy with
    | .firstWins => (r, [])
    | .report =>
      (r, [.navigatorConflict declaring axis test.render kept.label navigator.label])

/-- Offers a navigator for each axis with each test, the tests of an axis together. -/
def register (r : Registry) (g : Registration) : Registry × List Diagnostic :=
  (g.axes.flatMap fun axis => g.tests.map fun test => (axis, test)).foldl
    (fun (r, warnings) (axis, test) =>
      let (r, new) := r.offer g.declaring axis test g.navigator
      (r, warnings ++ new))
    (r, [])

def load (r : Registry) (gs : List Registration) : Registry × List Diagnostic :=
  gs.foldl
    (fun (r, warnings) g =>
      let (r, new) := r.register g
      (r, warnings ++ new))
    (r, [])

/-- A registry with the standard navigators. -/
def standard (policy : ConflictPolicy) : Registry := (load { policy } Navigator.standard).1

/-- The navigators filed under one type: the exact slot, then the fallback. -/
def candidatesAt (r : Registry) (axis : Axis) (test : SlotTest) (key : String) : List Navigator :=
  (r.holder? ⟨key, axis, test⟩).toList ++
    (test.fallback?.bind fun wide => r.holder? ⟨key, axis, wide⟩).toList

/-- The candidates for a step on a receiver of a type. -/
def lookup (r : Registry) (classes : ClassTable) (ty : Ty) (step : Step Node) : List Navigator :=
  (classes.walk ty).flatMap fun super =>
    r.candidatesAt step.axis (.ofTest step.test) super.key

end Registry

end NavScript
