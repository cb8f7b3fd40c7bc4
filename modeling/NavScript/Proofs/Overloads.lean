import NavScript.Proofs.Linearization

/-!
# The implementation an operator finds

Filing the implementations of some providers one after the other leaves, under each key, the one
that was filed first (`find?_ofList`). Lookup searches the walk of the left operand from its end, and
for each type of it the walk of the right one, so both searches stop where no applicable type is
below (`ClassTable.find_specific`): the implementation found has the most specific left type, and
for it the most specific right type.
-/

namespace NavScript.OperatorTable

open ClassTable (ProperSubtype)

variable {t : ClassTable} {ty : Ty} {op : Operator} {left right : Ty}

theorem find?_add (ops : OperatorTable) (i : OperatorMethod) (l r : String) :
    (ops.add i).find? op l r =
      (ops.find? op l r).or (if i.key = (op, l, r) then some i else none) := by
  unfold add
  split
  · rename_i taken
    by_cases hkey : i.key = (op, l, r)
    · obtain ⟨rfl, rfl, rfl⟩ : i.op = op ∧ i.left.key = l ∧ i.right.key = r := by
        simpa [OperatorMethod.key] using hkey
      obtain ⟨kept, hkept⟩ := Option.isSome_iff_exists.1 taken
      simp [hkept]
    · simp [hkey]
  · simp [find?, List.find?_append, List.find?_singleton]

theorem find?_foldl_add (ops : OperatorTable) (is : List OperatorMethod) (l r : String) :
    (is.foldl add ops).find? op l r =
      (ops.find? op l r).or (is.find? fun i => i.key == (op, l, r)) := by
  induction is generalizing ops with
  | nil => simp
  | cons i rest ih =>
    rw [List.foldl_cons, ih, find?_add, Option.or_assoc, List.find?_cons]
    by_cases hkey : i.key = (op, l, r)
    · simp [hkey]
    · simp [hkey, beq_eq_false_iff_ne.2 hkey]

theorem find?_ofList (is : List OperatorMethod) (l r : String) :
    (ofList is).find? op l r = is.find? fun i => i.key == (op, l, r) :=
  find?_foldl_add {} is l r

/-- The type an operand is looked up as. -/
def operand : Ty → Ty
  | .null => .object
  | ty => ty

theorem operand_ne_null (ty : Ty) : operand ty ≠ .null := by
  cases ty <;> simp [operand, Ty.object, Ty.ofClass]

theorem operandTypes_eq (t : ClassTable) (ty : Ty) :
    operandTypes t ty = (t.walk (operand ty)).reverse := by
  cases ty <;> rfl

/-- Some of the implementations is filed under types of the two operands. -/
def Applicable (t : ClassTable) (is : List OperatorMethod) (op : Operator) (left right l r : Ty) :
    Prop :=
  l ∈ t.walk (operand left) ∧ r ∈ t.walk (operand right) ∧ ∃ i ∈ is, i.key = (op, l.key, r.key)

theorem isSome_find?_iff (is : List OperatorMethod) (l r : String) :
    ((ofList is).find? op l r).isSome ↔ ∃ i ∈ is, i.key = (op, l, r) := by
  simp [find?_ofList, List.find?_isSome]

/-- Types above one that is not `null` are not `null` either. -/
theorem ne_null_of_above (ht : t.SupersNamed) {s : Ty} (hty : ty ≠ .null) (h : t.Above ty s) :
    s ≠ .null := by
  rcases Relation.ReflTransGen.cases_tail h with rfl | ⟨x, -, hs⟩
  · exact hty
  · rintro rfl
    exact absurd (ht.supers_all x _ hs) (by simp [Ty.Named, Ty.className?])

/-- A search over the types of an operand stops at one that no answer is below. -/
theorem findSome?_operandTypes {β : Type} {find : Ty → Option β} {x : β} (ht : t.SupersNamed)
    (acyclic : t.Acyclic (operand ty)) (h : (operandTypes t ty).findSome? find = some x) :
    ∃ o ∈ t.walk (operand ty), find o = some x ∧
      ∀ s ∈ t.walk (operand ty), t.ProperSubtype s o → find s = none := by
  rw [operandTypes_eq] at h
  obtain ⟨o, ho, found, specific⟩ := ClassTable.find_specific ht acyclic h
  refine ⟨o, ho, found, fun s hs proper => ?_⟩
  have hnull := ne_null_of_above ht (operand_ne_null ty) (ClassTable.above_of_mem_walk ht hs)
  obtain ⟨q, above, hkey⟩ := ClassTable.strictlyAbove_of_proper ht hnull proper
  exact specific s hs q above hkey

theorem lookup_stops (ops : OperatorTable) (ht : t.SupersNamed) (hl : t.Acyclic (operand left))
    (hr : t.Acyclic (operand right)) {i : OperatorMethod}
    (h : ops.lookup t op left right = some i) :
    ∃ l ∈ t.walk (operand left), ∃ r ∈ t.walk (operand right),
      ops.find? op l.key r.key = some i ∧
        (∀ r' ∈ t.walk (operand right), t.ProperSubtype r' r → ops.find? op l.key r'.key = none) ∧
        ∀ l' ∈ t.walk (operand left), t.ProperSubtype l' l →
          ∀ r' ∈ t.walk (operand right), ops.find? op l'.key r'.key = none := by
  obtain ⟨l, hmem, found, specificLeft⟩ := findSome?_operandTypes ht hl h
  obtain ⟨r, hmem', found', specificRight⟩ := findSome?_operandTypes ht hr found
  refine ⟨l, hmem, r, hmem', found', specificRight, fun l' hl' proper r' hr' => ?_⟩
  have none := List.findSome?_eq_none_iff.1 (specificLeft l' hl' proper)
  exact none r' (by rw [operandTypes_eq]; exact List.mem_reverse.2 hr')

/-- Over the implementations of some providers, lookup finds one exactly if one is filed under types
of the two operands. It is then the first of the first provider that lists one under its key, and
none is filed under a more specific left type, nor under the same left type and a more specific
right one. -/
theorem lookup_most_specific {t : ClassTable} (ht : t.SupersNamed)
    (providers : List (List OperatorMethod)) (op : Operator) (left right : Ty) :
    (((ofList providers.flatten).lookup t op left right).isSome ↔
        ∃ l r, Applicable t providers.flatten op left right l r) ∧
      (t.Acyclic (operand left) → t.Acyclic (operand right) →
        ∀ i, (ofList providers.flatten).lookup t op left right = some i →
          ∃ l ∈ t.walk (operand left), ∃ r ∈ t.walk (operand right),
            providers.findSome? (fun is => is.find? (·.key == (op, l.key, r.key))) = some i ∧
            ∀ l' r', Applicable t providers.flatten op left right l' r' →
              ¬ t.ProperSubtype l' l ∧ ¬ (l'.key = l.key ∧ t.ProperSubtype r' r)) := by
  constructor
  · rw [lookup_isSome]
    simp only [operandTypes_eq, List.map_reverse, List.mem_reverse, List.mem_map,
      isSome_find?_iff, Applicable]
    constructor
    · rintro ⟨_, ⟨l, hl, rfl⟩, _, ⟨r, hr, rfl⟩, filed⟩
      exact ⟨l, r, hl, hr, filed⟩
    · rintro ⟨l, r, hl, hr, filed⟩
      exact ⟨l.key, ⟨l, hl, rfl⟩, r.key, ⟨r, hr, rfl⟩, filed⟩
  · intro hl hr i h
    obtain ⟨l, hmem, r, hmem', found, specificRight, specificLeft⟩ := lookup_stops _ ht hl hr h
    refine ⟨l, hmem, r, hmem', ?_, fun l' r' applicable => ⟨fun proper => ?_, fun proper => ?_⟩⟩
    · rw [find?_ofList, List.find?_flatten] at found
      exact found
    · obtain ⟨hl', hr', filed⟩ := applicable
      have missing := specificLeft l' hl' proper r' hr'
      simpa [missing] using (isSome_find?_iff _ _ _).2 filed
    · obtain ⟨-, hr', filed⟩ := applicable
      obtain ⟨hkey, proper⟩ := proper
      have missing := specificRight r' hr' proper
      rw [hkey] at filed
      simpa [missing] using (isSome_find?_iff _ _ _).2 filed

/-- Sums of named things, twice, of a solid with what can be drawn, and the other way round. -/
def diamondSums : List (List OperatorMethod) :=
  let sum (method left right : String) : OperatorMethod :=
    ⟨.add, .ofClass "Sums", method, .ofClass left, .ofClass right, .left⟩
  [[sum "named" "Named" "Named", sum "solid" "Solid" "Drawable"],
    [sum "again" "Named" "Named", sum "drawn" "Drawable" "Solid"]]

/-- What can be drawn stands after the solids above a cube, so the sum of two cubes is found there.
Two things that can be drawn have the sum of named things that was listed first. -/
theorem lookup_most_specific_diamond :
    let t := ClassTable.diamondClasses
    let cube := Ty.ofClass "Cube"
    let drawn : OperatorMethod :=
      ⟨.add, .ofClass "Sums", "drawn", .ofClass "Drawable", .ofClass "Solid", .left⟩
    (t.SupersNamed ∧ t.Acyclic (operand cube)) ∧
      (ofList diamondSums.flatten).lookup t .add cube cube = some drawn ∧
      (∃ l ∈ t.walk (operand cube), ∃ r ∈ t.walk (operand cube),
        diamondSums.findSome? (fun is => is.find? (·.key == (.add, l.key, r.key))) = some drawn ∧
        ∀ l' r', Applicable t diamondSums.flatten .add cube cube l' r' →
          ¬ t.ProperSubtype l' l ∧ ¬ (l'.key = l.key ∧ t.ProperSubtype r' r)) ∧
      ((ofList diamondSums.flatten).lookup t .add (.ofClass "Drawable") (.ofClass "Drawable")).map
        (·.method) = some "named" := by
  intro t cube drawn
  have acyclic : t.Acyclic (operand cube) := ClassTable.diamondClasses_acyclic
  have found : (ofList diamondSums.flatten).lookup t .add cube cube = some drawn := by decide
  obtain ⟨-, specific⟩ :=
    lookup_most_specific ClassTable.diamondClasses_named diamondSums .add cube cube
  exact ⟨⟨ClassTable.diamondClasses_named, acyclic⟩, found, specific acyclic acyclic drawn found,
    by decide⟩

end NavScript.OperatorTable
