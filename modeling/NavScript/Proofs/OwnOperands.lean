import NavScript.Proofs.Alarms
import NavScript.Proofs.Overloads

/-!
# Operators over their own operand types

Lookup meets what is filed under the types of the operands themselves before anything above them
(`OperatorTable.lookup_own`), so an operator over two primitives, or over two references, becomes a call of
the implementation that was registered first for these types. With one primitive operand both are boxed
before it is known what is called. Lookup does not see their own types then, and no implementation that
takes the primitive is called over it (`own_operands_called`).
-/

namespace NavScript

variable {cx : Context} {op : Operator} {left right : Ty} {lhs rhs : Node}

namespace OperatorTable

variable {t : ClassTable} {ty : Ty}

/-- An operand that is not null is looked up as itself first. -/
theorem operandTypes_own (t : ClassTable) (h : ty ≠ .null) : ∃ above, operandTypes t ty = ty :: above := by
  have plain : operand ty = ty := by
    cases ty
    case null => exact absurd rfl h
    all_goals rfl
  obtain ⟨above, split⟩ := List.getLast?_eq_some_iff.1 (t.walk_last ty)
  exact ⟨above.reverse, by simp [operandTypes_eq, plain, split]⟩

theorem lookup_own (ops : OperatorTable) (t : ClassTable) (hl : left ≠ .null) (hr : right ≠ .null)
    {i : OperatorMethod} (filed : ops.find? op left.key right.key = some i) :
    ops.lookup t op left right = some i := by
  obtain ⟨lefts, hlefts⟩ := operandTypes_own t hl
  obtain ⟨rights, hrights⟩ := operandTypes_own t hr
  unfold lookup
  rw [hlefts, hrights]
  simp [filed]

/-- What is registered for some types is filed under them, or what is was registered first. -/
theorem filed_of_mem {providers : List (List OperatorMethod)} {i : OperatorMethod}
    (registered : i ∈ providers.flatten) (hl : left.same i.left = true) (hr : right.same i.right = true) :
    ∃ j, providers.findSome? (fun is => is.find? (·.key == (i.op, left.key, right.key))) = some j ∧
      (ofList providers.flatten).find? i.op left.key right.key = some j := by
  have key : i.key = (i.op, left.key, right.key) := by
    rw [OperatorMethod.key, Ty.key_of_same hl, Ty.key_of_same hr]
  have some : ((ofList providers.flatten).find? i.op left.key right.key).isSome :=
    (isSome_find?_iff ..).2 ⟨i, registered, key⟩
  obtain ⟨j, filed⟩ := Option.isSome_iff_exists.1 some
  refine ⟨j, ?_, filed⟩
  rwa [find?_ofList, List.find?_flatten] at filed

end OperatorTable

namespace OperatorCalls

/-- Two primitives, or two references, are looked up as they are. -/
theorem implementation?_plain (cx : Context) (hop : op ≠ .elvis ∧ op ≠ .instanceOf)
    (alike : left.isPrimitive = right.isPrimitive) :
    boxes op left right = false ∧
      implementation? cx op left right = cx.operators.lookup cx.classes op left right := by
  have unboxed : boxes op left right = false := by simp [boxes, hop.1, hop.2, alike]
  refine ⟨unboxed, ?_⟩
  unfold implementation? lookupTypes
  simp [unboxed, hop.2]

/-- A primitive and a reference are looked up as boxed. -/
theorem implementation?_mixed (cx : Context) (hop : op ≠ .elvis ∧ op ≠ .instanceOf)
    (mixed : left.isPrimitive ≠ right.isPrimitive) :
    boxes op left right = true ∧
      implementation? cx op left right = cx.operators.lookup cx.classes op left.boxed right.boxed := by
  have boxed : boxes op left right = true := by simp [boxes, mixed]
  refine ⟨boxed, ?_⟩
  unfold implementation? lookupTypes
  simp [boxed, hop.2]

end OperatorCalls

/-- The node calls the implementation over two operands, boxed at most where it takes a reference, and has
the type of its result. -/
def OperatorMethod.CallsOver (i : OperatorMethod) (left : Ty) (lhs rhs n : Node) : Prop :=
  n.ty = some (i.resultTy left) ∧ ∃ l r, n.kind = .operatorCall i.owner i.method l r ∧
    (l = lhs ∨ i.left.isReference = true ∧ l = lhs.boxed) ∧
    (r = rhs ∨ i.right.isReference = true ∧ r = rhs.boxed)

theorem Node.boxed_ne (typed : lhs.ty = some left) (primitive : left.isPrimitive = true) :
    lhs.boxed ≠ lhs := by
  intro same
  have boxed := lhs.ty_boxed typed
  rw [same, typed, Option.some.injEq] at boxed
  rw [boxed, left.boxed_reference] at primitive
  cases primitive

/-- A call over boxed operands is none of an implementation that takes a primitive operand as it is. -/
theorem OperatorMethod.not_callsOver_boxed {i j : OperatorMethod} {span : Span} {ty : Option Ty}
    (hl : lhs.ty = some left) (hr : rhs.ty = some right) (mixed : left.isPrimitive ≠ right.isPrimitive)
    (takesl : i.left.isPrimitive = left.isPrimitive) (takesr : i.right.isPrimitive = right.isPrimitive) :
    ¬ i.CallsOver left lhs rhs ⟨span, ty, .operatorCall j.owner j.method lhs.boxed rhs.boxed⟩ := by
  rintro ⟨-, l, r, call, own, own'⟩
  injection call with _ _ hboxed hboxed'
  have kept {n : Node} {u v : Ty} (typed : n.ty = some u) (takes : v.isPrimitive = u.isPrimitive)
      (own : n.boxed = n ∨ v.isReference = true ∧ n.boxed = n.boxed) : u.isPrimitive = false := by
    by_contra primitive
    have primitive : u.isPrimitive = true := by simpa using primitive
    obtain same | ⟨reference, -⟩ := own
    · exact Node.boxed_ne typed primitive same
    · simp [Ty.isReference, takes, primitive] at reference
  subst hboxed hboxed'
  exact mixed ((kept hl takesl own).trans (kept hr takesr own').symm)

/-- An operator over the very types that an implementation is registered for, if widening does not take
care of it, and it is neither a default nor a type test. Over two primitives or two references it becomes
a call of the implementation that was registered first for these types. Over a primitive and a reference
it becomes what is found for their boxed types, over boxed operands, or it stays: an implementation that
takes the primitive is not called as it is declared. -/
theorem own_operands_called {providers : List (List OperatorMethod)}
    (registry : cx.operators = OperatorTable.ofList providers.flatten) {i : OperatorMethod}
    (registered : i ∈ providers.flatten) (hop : i.op ≠ .elvis ∧ i.op ≠ .instanceOf)
    (hl : (resolveOperators cx lhs).ty = some left) (hr : (resolveOperators cx rhs).ty = some right)
    (own : left.same i.left = true ∧ right.same i.right = true) (values : left ≠ .null ∧ right ≠ .null)
    (other : OperatorCalls.isNumeric i.op left right = false) (span : Span) (ty : Option Ty) :
    ∃ j, providers.findSome? (fun is => is.find? (·.key == (i.op, left.key, right.key))) = some j ∧
      (left.isPrimitive = right.isPrimitive →
        j.CallsOver left (resolveOperators cx lhs) (resolveOperators cx rhs)
          (resolveOperators cx ⟨span, ty, .binary i.op lhs rhs⟩)) ∧
      (left.isPrimitive ≠ right.isPrimitive →
        (resolveOperators cx ⟨span, ty, .binary i.op lhs rhs⟩ =
          match cx.operators.lookup cx.classes i.op left.boxed right.boxed with
          | some k => ⟨span, some (k.resultTy left), .operatorCall k.owner k.method
              (resolveOperators cx lhs).boxed (resolveOperators cx rhs).boxed⟩
          | none => ⟨span, ty, .binary i.op (resolveOperators cx lhs) (resolveOperators cx rhs)⟩) ∧
        (j.left.isPrimitive = left.isPrimitive → j.right.isPrimitive = right.isPrimitive →
          ¬ j.CallsOver left (resolveOperators cx lhs) (resolveOperators cx rhs)
            (resolveOperators cx ⟨span, ty, .binary i.op lhs rhs⟩))) := by
  obtain ⟨j, first, filed⟩ := OperatorTable.filed_of_mem registered own.1 own.2
  refine ⟨j, first, fun alike => ?_, fun mixed => ?_⟩
  · obtain ⟨unboxed, found⟩ := OperatorCalls.implementation?_plain cx hop alike
    rw [registry, OperatorTable.lookup_own _ _ values.1 values.2 filed] at found
    rw [resolveOperators_binary, callOf?_typed cx span i.op hl hr, other, found, unboxed]
    exact ⟨rfl, _, _, rfl, .inl rfl, .inl rfl⟩
  · obtain ⟨boxed, found⟩ := OperatorCalls.implementation?_mixed cx hop mixed
    rw [resolveOperators_binary, callOf?_typed cx span i.op hl hr, other, found, boxed]
    cases cx.operators.lookup cx.classes i.op left.boxed right.boxed with
    | none =>
      refine ⟨rfl, fun _ _ => ?_⟩
      rintro ⟨-, l, r, call, -⟩
      cases call
    | some k => exact ⟨rfl, OperatorMethod.not_callsOver_boxed hl hr mixed⟩

/-- Texts that are joined instead of concatenated. -/
def joinOf : OperatorMethod := ⟨.add, .ofClass "Texts", "join", .string, .string, .fixed .string⟩

/-- A number that is padded by a text. -/
def padOf : OperatorMethod := ⟨.add, .ofClass "Text", "pad", .prim .int, .string, .fixed .string⟩

/-- The given implementations, and the standard ones. -/
def operatorsContext (is : List OperatorMethod) : Context :=
  { bareContext with operators := .ofList [is, OperatorMethod.standard].flatten }

/-- Two texts are joined where that is registered for texts. -/
theorem own_operands_called_join :
    ∃ j, [[joinOf], OperatorMethod.standard].findSome?
        (fun is => is.find? (·.key == (.add, Ty.string.key, Ty.string.key))) = some j ∧
      j = joinOf ∧
      j.CallsOver .string textOf textOf (resolveOperators (operatorsContext [joinOf]) (sumOf textOf textOf)) := by
  obtain ⟨j, first, called, -⟩ := @own_operands_called (operatorsContext [joinOf]) .string .string textOf
    textOf [[joinOf], OperatorMethod.standard] rfl joinOf (by decide) (by decide) rfl rfl ⟨rfl, rfl⟩
    ⟨by decide, by decide⟩ rfl .synthetic none
  refine ⟨j, first, ?_, called rfl⟩
  have computed : [[joinOf], OperatorMethod.standard].findSome?
      (fun is => is.find? (·.key == (.add, Ty.string.key, Ty.string.key))) = some joinOf := by decide
  exact Option.some.inj (first.symm.trans computed)

/-- A number and a text are concatenated, although padding is registered first, for their very types. -/
theorem own_operands_concatenated :
    [[padOf], OperatorMethod.standard].findSome?
        (fun is => is.find? (·.key == (.add, (Ty.prim .int).key, Ty.string.key))) = some padOf ∧
      resolveOperators (operatorsContext [padOf]) (sumOf oneOf textOf) =
        ⟨.synthetic, some .string, .operatorCall (.ofClass "Strings") "concat" oneOf.boxed textOf⟩ ∧
      ¬ padOf.CallsOver (.prim .int) oneOf textOf
        (resolveOperators (operatorsContext [padOf]) (sumOf oneOf textOf)) := by
  refine ⟨by decide, rfl, ?_⟩
  rintro ⟨-, l, r, call, -⟩
  injection call with _ hmethod
  exact absurd hmethod (by decide)

end NavScript
