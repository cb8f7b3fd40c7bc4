import NavScript.Analysis
import NavScript.Proofs.Traverse

/-!
# What the later passes keep

The passes behind the navigation wrap nodes in conversions, turn operators into calls and fold
constants, but they lose no expression. So whatever is gathered from the visible nodes of a tree is
still there, in the same order, if it is only found on streams and on operators without a type
(`Quiet`). Widening gives a type to some of these operators (`leavesOpen`).
-/

namespace NavScript

variable {α : Type}

/-- The second node is the first under conversions. -/
inductive Converted (n : Node) : Node → Prop
  | refl : Converted n n
  | convert {m : Node} (h : Converted n m) (span : Span) (ty : Option Ty) (c : Conversion) :
    Converted n ⟨span, ty, .convert c m⟩

theorem Converted.convertTo {n m : Node} (h : Converted n m) (c : Conversion) (ty : Ty) :
    Converted n (.convertTo c m ty) :=
  h.convert _ _ c

theorem Node.boxed_converted (n : Node) : Converted n n.boxed := by
  unfold Node.boxed
  split
  · split
    · exact Converted.refl.convertTo ..
    · exact .refl
  · exact .refl

theorem Node.ty_boxed {n : Node} {ty : Ty} (h : n.ty = some ty) : n.boxed.ty = some ty.boxed := by
  unfold Node.boxed
  rw [h]
  cases hp : ty.isPrimitive with
  | true => simp [hp, Node.convertTo]
  | false => simp [hp, h, Ty.boxed_of_reference hp]

theorem Widening.bringTo_converted (n : Node) (kind : NumericKind) :
    Converted n (Widening.bringTo n kind) := by
  unfold bringTo
  extract_lets m
  have unboxed : Converted n m := by
    dsimp only [m]
    split
    · split
      · exact Converted.refl.convertTo ..
      · exact .refl
    · exact .refl
  split
  · split
    · exact unboxed
    · exact unboxed.convertTo ..
  · exact unboxed

theorem Widening.boxedFor_converted (n : Node) (target : Ty) :
    Converted n (Widening.boxedFor n target) := by
  unfold boxedFor
  split
  · exact n.boxed_converted
  · exact .refl

namespace Returns

theorem beforeUnbox_converted (n : Node) : Converted (beforeUnbox n) n := by
  obtain ⟨span, ty, kind⟩ := n
  unfold beforeUnbox
  split
  · rename_i expr h
    simp only at h
    subst h
    exact Converted.refl.convert span ty .unbox
  · exact .refl

/-- Nothing is unboxed, or a box where a primitive is expected. -/
theorem unboxFor_cases (expected found : Ty) (value : Node) :
    unboxFor expected found value = (value, found) ∨
      ∃ prim, found.unboxed? = some prim ∧ expected.isPrimitive = true ∧
        unboxFor expected found value = (.convertTo .unbox value prim, prim) := by
  unfold unboxFor
  cases held : found.unboxed? with
  | none => exact .inl rfl
  | some prim =>
    cases primitive : expected.isPrimitive with
    | false => exact .inl (by simp)
    | true => exact .inr ⟨prim, rfl, rfl, by simp⟩

theorem unboxFor_converted (expected found : Ty) (n : Node) :
    Converted n (unboxFor expected found n).1 := by
  obtain made | ⟨prim, -, -, made⟩ := unboxFor_cases expected found n <;> rw [made]
  · exact .refl
  · exact Converted.refl.convertTo ..

end Returns

/-- What the visible nodes of a tree have to give. -/
def Node.gather (own : Node → List α) (n : Node) : List α := n.visible.flatMap own

/-- Of the nodes that the later passes make, only operators without a type have something to give. -/
structure Quiet (own : Node → List α) : Prop where
  made : ∀ n : Node, n.label ∈ ["Literal", "Conditional", "OperatorCall", "Convert"] → own n = []
  typed : ∀ span ty op lhs rhs, own ⟨span, some ty, .binary op lhs rhs⟩ = []

/-- No operator has something to give either. -/
structure Silent (own : Node → List α) : Prop extends Quiet own where
  operator : ∀ n : Node, n.label = "Binary" → own n = []

section

variable {own : Node → List α}

theorem gather_stream (span : Span) (ty : Option Ty) (steps : List (Step Node)) :
    Node.gather own ⟨span, ty, .stream steps⟩ = own ⟨span, ty, .stream steps⟩ := by
  simp [Node.gather, Node.visible_stream]

theorem gather_mk {kind : Kind Node} (h : kind.label ≠ "Stream") (span : Span) (ty : Option Ty) :
    Node.gather own ⟨span, ty, kind⟩ =
      own ⟨span, ty, kind⟩ ++ kind.children.flatMap (Node.gather own) := by
  unfold Node.gather
  rw [Node.visible_mk h, List.flatMap_cons, List.flatMap_assoc]

/-- What each node has to give over changed children. -/
def ownOver (own : Node → List α) (f : Node → Node) (n : Node) : List α :=
  own ⟨n.span, n.ty, n.kind.map f⟩

/-- A change that keeps what is gathered node by node lets nodes give what they do over changed
children. -/
theorem gather_transform_over {f : Node → Node}
    (step : ∀ n, Node.gather own (f n) = Node.gather own n) (n : Node) :
    Node.gather own (n.transform f) = n.gather (ownOver own (Node.transform f)) := by
  induction n using Node.induct with
  | h span ty kind ih =>
    rw [Node.transform_mk, step]
    by_cases hk : kind.label = "Stream"
    · cases kind
      case stream steps =>
        rw [gather_stream, Kind.map, gather_stream]
        rfl
      all_goals simp [Kind.label] at hk
    · rw [gather_mk (by rw [Kind.label_map]; exact hk), gather_mk hk, Kind.children_map,
        List.flatMap_map]
      rw [List.flatMap_def, List.flatMap_def, List.map_congr_left ih]
      rfl

/-- A change of all nodes keeps what is gathered if it does so node by node. -/
theorem gather_transform {f : Node → Node}
    (same : ∀ span ty kind, own ⟨span, ty, kind.map (Node.transform f)⟩ = own ⟨span, ty, kind⟩)
    (step : ∀ n, Node.gather own (f n) = Node.gather own n) (n : Node) :
    Node.gather own (n.transform f) = Node.gather own n := by
  have given : ownOver own (Node.transform f) = own := by
    funext m
    cases m
    exact same ..
  rw [gather_transform_over step, given]

variable (quiet : Quiet own)
include quiet

/-- Of a node that a later pass makes only the children have something to give. -/
theorem Quiet.gather {kind : Kind Node}
    (h : kind.label ∈ ["Literal", "Conditional", "OperatorCall", "Convert"]) (span : Span)
    (ty : Option Ty) :
    Node.gather own ⟨span, ty, kind⟩ = kind.children.flatMap (Node.gather own) := by
  have hs : kind.label ≠ "Stream" := by
    intro heq
    simp [heq] at h
  rw [gather_mk hs, quiet.made ⟨span, ty, kind⟩ h, List.nil_append]

theorem Quiet.gather_literal {n : Node} {lit : Literal} (h : n.kind = .literal lit) :
    Node.gather own n = [] := by
  obtain ⟨span, ty, kind⟩ := n
  subst h
  exact quiet.gather (by simp [Kind.label]) span ty

theorem Quiet.gather_convert (span : Span) (ty : Option Ty) (c : Conversion) (e : Node) :
    Node.gather own ⟨span, ty, .convert c e⟩ = Node.gather own e := by
  rw [quiet.gather (by simp [Kind.label])]
  simp [Kind.children]

/-- Under conversions there is as much to gather. -/
theorem Quiet.gather_converted {n m : Node} (h : Converted n m) :
    Node.gather own m = Node.gather own n := by
  induction h with
  | refl => rfl
  | convert h span ty c ih => rw [quiet.gather_convert, ih]

omit quiet in
theorem resultTy_lookupTypes (i : OperatorMethod) (op : Operator) (left right : Ty) :
    i.resultTy (OperatorCalls.lookupTypes op left right).1 = i.resultTy left := by
  unfold OperatorCalls.lookupTypes OperatorMethod.resultTy
  split
  · rfl
  · simp only
    split
    · exact left.boxed_boxed
    · rfl

omit quiet in
/-- Over typed operands an operator that is not left to widening becomes a call of its implementation. -/
theorem callOf?_typed (cx : Context) (span : Span) (op : Operator) {lhs rhs : Node} {left right : Ty}
    (hl : lhs.ty = some left) (hr : rhs.ty = some right) :
    OperatorCalls.callOf? cx span op lhs rhs =
      if OperatorCalls.isNumeric op left right then none
      else (OperatorCalls.implementation? cx op left right).map fun i =>
        ⟨span, some (i.resultTy left), .operatorCall i.owner i.method
          (if OperatorCalls.boxes op left right then lhs.boxed else lhs)
          (if OperatorCalls.boxes op left right then rhs.boxed else rhs)⟩ := by
  unfold OperatorCalls.callOf?
  simp only [hl, hr, Option.bind_eq_bind, Option.bind_some]
  split
  · rfl
  · cases OperatorCalls.implementation? cx op left right with
    | none => rfl
    | some i => simp [resultTy_lookupTypes]

omit quiet in
/-- A call of an operator has typed operands, and boxes both or neither. -/
theorem callOf?_made {cx : Context} {span : Span} {op : Operator} {lhs rhs n : Node}
    (h : OperatorCalls.callOf? cx span op lhs rhs = some n) :
    ∃ left right, lhs.ty = some left ∧ rhs.ty = some right ∧ ∃ ty owner method,
      n = ⟨span, ty, .operatorCall owner method
        (if OperatorCalls.boxes op left right then lhs.boxed else lhs)
        (if OperatorCalls.boxes op left right then rhs.boxed else rhs)⟩ := by
  obtain ⟨left, hleft, right, hright, -⟩ : ∃ left, lhs.ty = some left ∧
      ∃ right, rhs.ty = some right ∧ _ := by
    simpa only [OperatorCalls.callOf?, Option.bind_eq_bind, Option.bind_eq_some_iff] using h
  rw [callOf?_typed cx span op hleft hright] at h
  split at h
  · cases h
  · obtain ⟨impl, -, rfl⟩ := Option.map_eq_some_iff.1 h
    exact ⟨left, right, hleft, hright, _, _, _, rfl⟩

theorem Quiet.gather_callOf {cx : Context} {span : Span} {op : Operator} {lhs rhs n : Node}
    (h : OperatorCalls.callOf? cx span op lhs rhs = some n) :
    Node.gather own n = Node.gather own lhs ++ Node.gather own rhs := by
  obtain ⟨left, right, -, -, ty, owner, method, rfl⟩ := callOf?_made h
  rw [quiet.gather (by simp [Kind.label])]
  split <;> simp [Kind.children, quiet.gather_converted (Node.boxed_converted _)]

/-! ## Widening -/

open Widening

/-- Two constants of a kind over which an operator has no value at compile time. -/
structure Valueless (op : Operator) (kind : NumericKind) (l r : Literal) : Prop where
  left : l.numericKind? = some kind
  right : r.numericKind? = some kind
  none : (if op.isArithmetic then Literal.fold? op l r else none) = none

omit quiet in
/-- At compile time two constants become one, or the operator over two others that it has no value
over. -/
theorem constants?_made {span : Span} {op : Operator} {kind : NumericKind} {ty : Ty}
    {lhs rhs n : Node} (h : constants? span op kind ty lhs rhs = some n) :
    ∃ l r, lhs.kind = .literal l ∧ rhs.kind = .literal r ∧
      ((∃ value, n = (Node.ofLiteral value).withSpan span) ∨ ∃ l r, n = ⟨span, some ty,
        .binary op ((Node.ofLiteral l).withSpan lhs.span) ((Node.ofLiteral r).withSpan rhs.span)⟩ ∧
          Valueless op kind l r) := by
  unfold constants? Operands.literals? at h
  split at h
  · rename_i l r hl hr
    simp only [Option.bind_eq_bind, Option.bind_some, Option.bind_eq_some_iff] at h
    obtain ⟨l', hl', r', hr', h⟩ := h
    refine ⟨l, r, hl, hr, ?_⟩
    split at h <;> simp only [Option.pure_def, Option.some.injEq] at h
    · exact .inl ⟨_, h.symm⟩
    · rename_i hnone
      exact .inr ⟨l', r', h.symm, Literal.numericKind?_widenTo? hl', Literal.numericKind?_widenTo? hr', hnone⟩
  · cases h

theorem Quiet.gather_constants {span : Span} {op : Operator} {kind : NumericKind} {ty : Ty}
    {lhs rhs n : Node} (h : constants? span op kind ty lhs rhs = some n) :
    Node.gather own n = Node.gather own lhs ++ Node.gather own rhs := by
  obtain ⟨l, r, hl, hr, made⟩ := constants?_made h
  rw [quiet.gather_literal hl, quiet.gather_literal hr]
  obtain ⟨value, rfl⟩ | ⟨l', r', rfl, -⟩ := made
  · exact quiet.gather_literal rfl
  · rw [gather_mk (by simp [Kind.label]), quiet.typed]
    simp only [Kind.children, List.flatMap_cons, List.flatMap_nil]
    rw [quiet.gather_literal rfl, quiet.gather_literal rfl]
    rfl

omit quiet in
/-- An operator over two numbers is one over constants, or over the numbers in their common kind. -/
theorem numeric_made (fold : Bool) (span : Span) (op : Operator) (kind : NumericKind) (lhs rhs : Node) :
    ∃ ty, ty ≠ .void ∧ (constants? span op kind ty lhs rhs = some (numeric fold span op kind lhs rhs) ∨
      numeric fold span op kind lhs rhs =
        ⟨span, some ty, .binary op (bringTo lhs kind) (bringTo rhs kind)⟩) := by
  refine ⟨if op.isComparison then .boolean else kind.ty, ?_, ?_⟩
  · split
    · nofun
    · cases kind <;> nofun
  · unfold numeric
    simp only
    generalize (if op.isComparison = true then Ty.boolean else kind.ty) = ty
    cases fold with
    | false => exact .inr rfl
    | true =>
      cases made : constants? span op kind ty lhs rhs with
      | none => exact .inr rfl
      | some n => exact .inl rfl

theorem Quiet.gather_numeric (fold : Bool) (span : Span) (op : Operator) (kind : NumericKind)
    (lhs rhs : Node) :
    Node.gather own (numeric fold span op kind lhs rhs) =
      Node.gather own lhs ++ Node.gather own rhs := by
  obtain ⟨ty, -, made | made⟩ := numeric_made fold span op kind lhs rhs
  · exact quiet.gather_constants made
  · rw [made, gather_mk (by simp [Kind.label]), quiet.typed]
    simp [Kind.children, quiet.gather_converted (bringTo_converted ..)]

omit quiet in
/-- Whether widening leaves an operator over operands of these types as it is. -/
def leavesOpen (op : Operator) (left right : Option Ty) : Bool :=
  !op.isLogical &&
    match left, right with
    | some left, some right =>
      !OperatorCalls.isNumeric op left right &&
        !(op.isComparison && left.same right && left.isPrimitive)
    | _, _ => true

omit quiet in
theorem binary_open {fold : Bool} {span : Span} {ty : Option Ty} {op : Operator} {lhs rhs : Node}
    (h : leavesOpen op lhs.ty rhs.ty = true) :
    binary fold span ty op lhs rhs = ⟨span, ty, .binary op lhs rhs⟩ := by
  unfold leavesOpen at h
  simp only [Bool.and_eq_true, Bool.not_eq_true'] at h
  obtain ⟨hlogical, h⟩ := h
  unfold binary
  simp only [hlogical, Bool.false_eq_true, if_false]
  split
  · rfl
  · rename_i hop
    split
    · rename_i left right hl hr
      simp only [hl, hr, Bool.and_eq_true, Bool.not_eq_true'] at h
      obtain ⟨hnumeric, hsame⟩ := h
      split
      · rename_i l r hl' hr'
        simp only [OperatorCalls.isNumeric, hl', hr', Option.isSome_some, Bool.true_and] at hnumeric
        simp [hnumeric] at hop
      · simp [hsame]
    · rfl

omit quiet in
theorem Literal.ty_ne_void (l : Literal) : l.ty ≠ .void := by
  intro h
  cases l <;> cases h

omit quiet in
theorem numeric_ty (fold : Bool) (span : Span) (op : Operator) (kind : NumericKind) (lhs rhs : Node) :
    ∃ ty, ty ≠ .void ∧ (numeric fold span op kind lhs rhs).ty = some ty := by
  obtain ⟨result, other, made | made⟩ := numeric_made fold span op kind lhs rhs
  · obtain ⟨-, -, -, -, ⟨value, made⟩ | ⟨l, r, made, -⟩⟩ := constants?_made made <;> rw [made]
    · exact ⟨value.ty, value.ty_ne_void, rfl⟩
    · exact ⟨result, other, rfl⟩
  · rw [made]
    exact ⟨result, other, rfl⟩

omit quiet in
theorem binary_closed (fold : Bool) (span : Span) (ty : Option Ty) {op : Operator} {lhs rhs : Node}
    (h : leavesOpen op lhs.ty rhs.ty = false) :
    binary fold span ty op lhs rhs = ⟨span, some .boolean, .binary op lhs rhs⟩ ∨
      ∃ kind, binary fold span ty op lhs rhs = numeric fold span op kind lhs rhs := by
  unfold leavesOpen at h
  unfold binary
  simp only
  split
  · exact .inl rfl
  · rename_i hlogical
    cases hl : lhs.ty with
    | none => simp [hlogical, hl] at h
    | some left =>
      cases hr : rhs.ty with
      | none => simp [hlogical, hl, hr] at h
      | some right =>
        simp only [hlogical, hl, hr, Bool.not_false, Bool.true_and] at h
        have hop : (op.isArithmetic || op.isComparison) = true := by
          unfold OperatorCalls.isNumeric at h
          cases ha : op.isArithmetic <;> cases hc : op.isComparison <;> simp [ha, hc] at h ⊢
        rw [if_neg (by simp [hop])]
        cases hl' : NumericKind.ofOperand? left with
        | none =>
          have hnumeric : OperatorCalls.isNumeric op left right = false := by
            simp [OperatorCalls.isNumeric, hl']
          simp only [hnumeric, Bool.not_false, Bool.true_and, Bool.not_eq_false'] at h
          simp only [hl']
          exact .inl (if_pos h)
        | some l =>
          cases hr' : NumericKind.ofOperand? right with
          | none =>
            have hnumeric : OperatorCalls.isNumeric op left right = false := by
              simp [OperatorCalls.isNumeric, hr']
            simp only [hnumeric, Bool.not_false, Bool.true_and, Bool.not_eq_false'] at h
            simp only [hl', hr']
            exact .inl (if_pos h)
          | some r =>
            simp only [hl', hr']
            exact .inr ⟨l.promote r, rfl⟩

omit quiet in
/-- Widening leaves the type of an operator, or gives it one other than void. -/
theorem binary_ty (fold : Bool) (span : Span) (ty : Option Ty) (op : Operator) (lhs rhs : Node) :
    (binary fold span ty op lhs rhs).ty = ty ∨
      ∃ result, result ≠ .void ∧ (binary fold span ty op lhs rhs).ty = some result := by
  cases hopen : leavesOpen op lhs.ty rhs.ty with
  | true =>
    rw [binary_open hopen]
    exact .inl rfl
  | false =>
    obtain made | ⟨kind, made⟩ := binary_closed fold span ty hopen <;> rw [made]
    · exact .inr ⟨.boolean, by decide, rfl⟩
    · exact .inr (numeric_ty ..)

theorem Quiet.gather_binary_closed {fold : Bool} {span : Span} {ty : Option Ty} {op : Operator}
    {lhs rhs : Node} (h : leavesOpen op lhs.ty rhs.ty = false) :
    Node.gather own (binary fold span ty op lhs rhs) =
      Node.gather own lhs ++ Node.gather own rhs := by
  obtain made | ⟨kind, made⟩ := binary_closed fold span ty h
  · rw [made, gather_mk (by simp [Kind.label]), quiet.typed]
    simp [Kind.children]
  · rw [made]
    exact quiet.gather_numeric ..

omit quiet in
theorem commonTy_reference (classes : ClassTable) (t e : Ty) :
    (commonTy classes t e).isReference = true := by
  unfold commonTy
  split
  · exact e.boxed_isReference
  · split
    · exact t.boxed_isReference
    · split
      · exact e.boxed_isReference
      · split
        · exact t.boxed_isReference
        · rfl

omit quiet in
/-- Two branches are kept, brought to the common kind of two numbers, or boxed where they meet in a
reference. -/
theorem conditional_made (classes : ClassTable) (span : Span) (c t e : Node) :
    (conditional classes span c t e = ⟨span, none, .conditional c t e⟩ ∧ (t.ty = none ∨ e.ty = none)) ∨
      ∃ left right, t.ty = some left ∧ e.ty = some right ∧
        ((left.same right = true ∧
            conditional classes span c t e = ⟨span, some left, .conditional c t e⟩) ∨
          left.same right = false ∧
            ((∃ kind, NumericKind.ofTy? left ≠ none ∧ NumericKind.ofTy? right ≠ none ∧
              conditional classes span c t e =
                ⟨span, some kind.ty, .conditional c (bringTo t kind) (bringTo e kind)⟩) ∨
              conditional classes span c t e = ⟨span, some (commonTy classes left right),
                .conditional c (boxedFor t (commonTy classes left right))
                  (boxedFor e (commonTy classes left right))⟩)) := by
  unfold conditional
  simp only
  split
  · rename_i left right hl hr
    refine .inr ⟨left, right, hl, hr, ?_⟩
    split
    · rename_i alike
      exact .inl ⟨alike, rfl⟩
    · rename_i unlike
      refine .inr ⟨Bool.eq_false_iff.2 unlike, ?_⟩
      split
      · rename_i lk rk hlk hrk
        exact .inl ⟨lk.promote rk, by simp [hlk], by simp [hrk], rfl⟩
      · exact .inr rfl
  · rename_i unknown
    refine .inl ⟨rfl, ?_⟩
    cases hl : t.ty with
    | none => exact .inl rfl
    | some left =>
      cases hr : e.ty with
      | none => exact .inr rfl
      | some right => exact absurd hr (unknown left right hl)

theorem Quiet.gather_conditional (classes : ClassTable) (span : Span) (c t e : Node) :
    Node.gather own (conditional classes span c t e) =
      Node.gather own c ++ Node.gather own t ++ Node.gather own e := by
  have children (ty : Option Ty) (t e : Node) :
      Node.gather own ⟨span, ty, .conditional c t e⟩ =
        Node.gather own c ++ Node.gather own t ++ Node.gather own e := by
    rw [quiet.gather (by simp [Kind.label])]
    simp [Kind.children]
  obtain ⟨made, -⟩ | ⟨left, right, -, -, ⟨-, made⟩ | ⟨-, ⟨kind, -, -, made⟩ | made⟩⟩ :=
    conditional_made classes span c t e <;> rw [made, children]
  · rw [quiet.gather_converted (bringTo_converted ..), quiet.gather_converted (bringTo_converted ..)]
  · rw [quiet.gather_converted (boxedFor_converted ..), quiet.gather_converted (boxedFor_converted ..)]

/-! ## Results of methods -/

open Returns

omit quiet in
/-- A result that converts, or is rejected, is the value, or what comes of it where it is unboxed if
need be: that, converted once more, or without an unboxing. -/
theorem convert_made {classes : ClassTable} {expected found : Ty} {value n : Node}
    (h : Returns.convert classes expected found value = .ok n ∨
      Returns.convert classes expected found value = .error n) :
    n = value ∨ n = (unboxFor expected found value).1 ∨
      n = beforeUnbox (unboxFor expected found value).1 ∨
      ∃ c t, n = .convertTo c (unboxFor expected found value).1 t := by
  unfold Returns.convert at h
  split at h
  · rcases h with h | h <;> cases h
    exact .inl rfl
  · right
    generalize unboxFor expected found value = pair at h ⊢
    obtain ⟨value', found'⟩ := pair
    simp only at h ⊢
    split at h
    · rcases h with h | h <;> cases h
      exact .inl rfl
    · split at h <;> split at h
      · rcases h with h | h <;> cases h
        exact .inr (.inr ⟨_, _, rfl⟩)
      · rcases h with h | h <;> cases h
        exact .inr (.inl rfl)
      · split at h <;> rcases h with h | h <;> cases h
        · exact .inr (.inr ⟨_, _, rfl⟩)
        · exact .inl rfl
      · split at h <;> rcases h with h | h <;> cases h
        · exact .inl rfl
        · exact .inr (.inl rfl)

/-- A result that converts, or is rejected, holds what it held. -/
theorem Quiet.gather_result {classes : ClassTable} {expected found : Ty} {value n : Node}
    (h : Returns.convert classes expected found value = .ok n ∨
      Returns.convert classes expected found value = .error n) :
    Node.gather own n = Node.gather own value := by
  have unboxed := unboxFor_converted expected found value
  obtain rfl | rfl | rfl | ⟨c, t, rfl⟩ := convert_made h
  · rfl
  · exact quiet.gather_converted unboxed
  · rw [← quiet.gather_converted (beforeUnbox_converted _), quiet.gather_converted unboxed]
  · exact quiet.gather_converted (unboxed.convertTo ..)

omit quiet in
/-- A body keeps all but its last node, and that is converted if its type is known; an empty body stays
or becomes null. -/
theorem checkBody_made (classes : ClassTable) (span : Span) (method : String) (expected : Ty)
    (body : List Node) :
    (body = [] ∧ ((checkBody classes span method expected body).1 = [] ∨
        (checkBody classes span method expected body).1 = [(Node.nullOf expected).withSpan span])) ∨
      ∃ before last value, body = before ++ [last] ∧
        (checkBody classes span method expected body).1 = before ++ [value] ∧
        ((last.ty = none ∧ value = last) ∨ ∃ found, last.ty = some found ∧
          (Returns.convert classes expected found last = .ok value ∨
            Returns.convert classes expected found last = .error value)) := by
  unfold checkBody
  split
  · rename_i hlast
    refine .inl ⟨List.getLast?_eq_none_iff.1 hlast, ?_⟩
    split
    · exact .inl rfl
    · exact .inr rfl
  · rename_i last hlast
    obtain ⟨before, rfl⟩ := List.getLast?_eq_some_iff.1 hlast
    refine .inr ⟨before, last, ?_⟩
    rw [List.dropLast_concat]
    split
    · rename_i unknown
      exact ⟨last, rfl, rfl, .inl ⟨unknown, rfl⟩⟩
    · rename_i found typed
      split
      · rename_i value h
        exact ⟨value, rfl, rfl, .inr ⟨found, typed, .inl h⟩⟩
      · rename_i value h
        exact ⟨value, rfl, rfl, .inr ⟨found, typed, .inr h⟩⟩

theorem Quiet.gather_checkBody (classes : ClassTable) (span : Span) (method : String)
    (expected : Ty) (body : List Node) :
    (checkBody classes span method expected body).1.flatMap (Node.gather own) =
      body.flatMap (Node.gather own) := by
  obtain ⟨rfl, made | made⟩ | ⟨before, last, value, rfl, made, ⟨-, rfl⟩ | ⟨found, -, result⟩⟩ :=
    checkBody_made classes span method expected body <;> rw [made]
  · simp [quiet.gather_literal (n := (Node.nullOf expected).withSpan span) rfl]
  · simp [quiet.gather_result result]

end

/-- What the check of its results makes of a node. -/
def returned (classes : ClassTable) (n : Node) : Node :=
  match n.kind with
  | .methodDecl d => { n with kind := .methodDecl (Returns.checkDecl classes n.span d).1 }
  | _ => n

/-- The diagnostic is about the result of a method. -/
def Diagnostic.IsReturn (d : Diagnostic) : Prop :=
  (∃ method expected found span, d = .returnMismatch method expected found span) ∨
    ∃ method expected span, d = .missingReturn method expected span

theorem checkDecl_diagnostics (classes : ClassTable) (span : Span) (d : Method Node) :
    ∀ diagnostic ∈ (Returns.checkDecl classes span d).2, diagnostic.IsReturn := by
  intro diagnostic h
  unfold Returns.checkDecl at h
  split at h
  · cases h
  · split at h
    · cases h
    · unfold Returns.checkBody at h
      simp only at h
      split at h
      · split at h
        · exact .inr ⟨_, _, _, List.mem_singleton.1 h⟩
        · cases h
      · split at h
        · cases h
        · split at h
          · cases h
          · exact .inl ⟨_, _, _, _, List.mem_singleton.1 h⟩

/-- The diagnostic is about the result of a method that the tree declares, whose body has been checked
before. -/
def Reporting (classes : ClassTable) (root : Node) (diagnostic : Diagnostic) : Prop :=
  ∃ n ∈ root.nodes, ∃ d : Method Node, n.kind = .methodDecl d ∧ diagnostic ∈ (Returns.checkDecl
    classes n.span { d with body := d.body.map (Node.transform (returned classes)) }).2

/-- What is reported at a node over checked children. -/
def reports (classes : ClassTable) (n : Node) : List Diagnostic :=
  match n.kind with
  | .methodDecl d => (Returns.checkDecl classes n.span d).2
  | _ => []

/-- The results of methods are checked node by node, and what is reported is in the order of the nodes. -/
theorem checkReturns_met (cx : Context) (root : Node) :
    checkReturns cx root = (root.transform (returned cx.classes),
      (root.met (returned cx.classes)).flatMap (reports cx.classes)) := by
  rw [List.flatMap_eq_foldl]
  have step (n : Node) (ds : List Diagnostic) :
      (Returns.step cx.classes n).run ds = (returned cx.classes n, ds ++ reports cx.classes n) := by
    obtain ⟨span, ty, kind⟩ := n
    cases kind
    case methodDecl d => rfl
    all_goals exact Prod.ext rfl (List.append_nil ds).symm
  exact Node.transformM_met step root []

theorem reporting_iff {cx : Context} {root : Node} {d : Diagnostic} :
    Reporting cx.classes root d ↔ d ∈ (checkReturns cx root).2 := by
  rw [checkReturns_met, List.mem_flatMap]
  constructor
  · rintro ⟨⟨span, ty, _⟩, hn, m, rfl, hd⟩
    exact ⟨_, (Node.mem_met root).2 ⟨_, hn, rfl⟩, hd⟩
  · rintro ⟨m, hm, hd⟩
    obtain ⟨⟨span, ty, kind⟩, hn, rfl⟩ := (Node.mem_met root).1 hm
    cases kind
    case methodDecl m => exact ⟨_, hn, m, rfl, hd⟩
    all_goals cases hd

theorem Reporting.isReturn {classes : ClassTable} {root : Node} {d : Diagnostic}
    (h : Reporting classes root d) : d.IsReturn := by
  obtain ⟨n, -, m, -, hd⟩ := h
  exact checkDecl_diagnostics _ _ _ d hd

/-- What does not depend on the result of a method is still gathered where results are checked. -/
theorem Quiet.gather_returned {own : Node → List α} (quiet : Quiet own) {classes : ClassTable}
    (checked : ∀ span ty d, own ⟨span, ty, .methodDecl (Returns.checkDecl classes span d).1⟩ =
      own ⟨span, ty, .methodDecl d⟩) (n : Node) :
    Node.gather own (returned classes n) = Node.gather own n := by
  obtain ⟨span, ty, kind⟩ := n
  cases kind
  case methodDecl d =>
    show Node.gather own ⟨span, ty, .methodDecl (Returns.checkDecl classes span d).1⟩ = _
    rw [gather_mk (by simp [Kind.label]), gather_mk (by simp [Kind.label]), checked]
    simp only [Kind.children]
    unfold Returns.checkDecl
    split
    · rfl
    · split
      · rfl
      · rw [quiet.gather_checkBody]
  all_goals rfl

@[simp] theorem returned_ty (classes : ClassTable) (n : Node) : (returned classes n).ty = n.ty := by
  unfold returned
  split <;> rfl

theorem transform_returned_ty (classes : ClassTable) (n : Node) :
    (n.transform (returned classes)).ty = n.ty := by
  obtain ⟨span, ty, kind⟩ := n
  rw [Node.transform_mk, returned_ty]

/-! ## The passes together -/

/-- A tree behind the operator pass and widening. -/
def settle (cx : Context) (n : Node) : Node := widenNumbers cx (resolveOperators cx n)

theorem resolveOperators_mk {cx : Context} {kind : Kind Node} (h : kind.label ≠ "Binary")
    (span : Span) (ty : Option Ty) :
    resolveOperators cx ⟨span, ty, kind⟩ = ⟨span, ty, kind.map (resolveOperators cx)⟩ := by
  unfold resolveOperators
  rw [Node.transform_mk]
  cases kind
  case binary => exact absurd rfl h
  all_goals rfl

/-- A node that is no operator is settled over its settled children. -/
theorem settle_mk {cx : Context} {kind : Kind Node} (h : kind.label ≠ "Binary") (span : Span)
    (ty : Option Ty) :
    settle cx ⟨span, ty, kind⟩ = Widening.step cx ⟨span, ty, kind.map (settle cx)⟩ := by
  unfold settle
  rw [resolveOperators_mk h]
  unfold widenNumbers
  rw [Node.transform_mk, Kind.map_map]

theorem widenNumbers_of_quiet {cx : Context} {kind : Kind Node} (h : kind.label ≠ "Binary")
    (h' : kind.label ≠ "Conditional") (span : Span) (ty : Option Ty) :
    Widening.step cx ⟨span, ty, kind⟩ = ⟨span, ty, kind⟩ := by
  cases kind
  case binary => exact absurd rfl h
  case conditional => exact absurd rfl h'
  all_goals rfl

theorem widenNumbers_mk {cx : Context} {kind : Kind Node} (h : kind.label ∉ ["Binary", "Conditional"])
    (span : Span) (ty : Option Ty) :
    widenNumbers cx ⟨span, ty, kind⟩ = ⟨span, ty, kind.map (widenNumbers cx)⟩ := by
  simp only [List.mem_cons, List.not_mem_nil, or_false, not_or] at h
  unfold widenNumbers
  rw [Node.transform_mk]
  exact widenNumbers_of_quiet (by rw [Kind.label_map]; exact h.1) (by rw [Kind.label_map]; exact h.2) _ _

theorem resolveOperators_binary (cx : Context) (span : Span) (ty : Option Ty) (op : Operator)
    (lhs rhs : Node) :
    resolveOperators cx ⟨span, ty, .binary op lhs rhs⟩ =
      (OperatorCalls.callOf? cx span op (resolveOperators cx lhs) (resolveOperators cx rhs)).getD
        ⟨span, ty, .binary op (resolveOperators cx lhs) (resolveOperators cx rhs)⟩ := by
  unfold resolveOperators
  rw [Node.transform_mk]
  rfl

/-- An operator is settled by a call, or widening sees it over its settled operands. -/
theorem settle_binary (cx : Context) (span : Span) (ty : Option Ty) (op : Operator)
    (lhs rhs : Node) :
    settle cx ⟨span, ty, .binary op lhs rhs⟩ =
      match OperatorCalls.callOf? cx span op (resolveOperators cx lhs) (resolveOperators cx rhs) with
      | some call => widenNumbers cx call
      | none => Widening.binary cx.config.foldLiterals span ty op (settle cx lhs) (settle cx rhs) := by
  unfold settle
  rw [resolveOperators_binary]
  split
  · rename_i call h
    rw [h, Option.getD_some]
  · rename_i h
    rw [h, Option.getD_none]
    unfold widenNumbers
    rw [Node.transform_mk]
    rfl

section

variable {own : Node → List α} (silent : Silent own)
include silent

theorem Silent.gather_binary (span : Span) (ty : Option Ty) (op : Operator) (lhs rhs : Node) :
    Node.gather own ⟨span, ty, .binary op lhs rhs⟩ = Node.gather own lhs ++ Node.gather own rhs := by
  rw [gather_mk (by simp [Kind.label]), silent.operator _ rfl]
  simp [Kind.children]

theorem Silent.gather_operators (cx : Context) (n : Node) :
    Node.gather own (resolveOperators cx n) = n.gather (ownOver own (resolveOperators cx)) := by
  refine gather_transform_over (fun m => ?_) n
  obtain ⟨span, ty, kind⟩ := m
  cases kind
  case binary op lhs rhs =>
    show Node.gather own
      ((OperatorCalls.callOf? cx span op lhs rhs).getD ⟨span, ty, .binary op lhs rhs⟩) = _
    cases h : OperatorCalls.callOf? cx span op lhs rhs with
    | none => rfl
    | some call => rw [Option.getD_some, silent.gather_callOf h, silent.gather_binary]
  all_goals rfl

theorem Silent.gather_widen (cx : Context) (n : Node) :
    Node.gather own (widenNumbers cx n) = n.gather (ownOver own (widenNumbers cx)) := by
  refine gather_transform_over (fun m => ?_) n
  obtain ⟨span, ty, kind⟩ := m
  cases kind
  case binary op lhs rhs =>
    show Node.gather own (Widening.binary cx.config.foldLiterals span ty op lhs rhs) = _
    cases h : leavesOpen op lhs.ty rhs.ty with
    | true => rw [binary_open h]
    | false => rw [silent.gather_binary_closed h, silent.gather_binary]
  case conditional c t e =>
    cases ty with
    | none =>
      refine (silent.gather_conditional ..).trans ?_
      rw [silent.gather (by simp [Kind.label])]
      simp [Kind.children]
    | some ty => rfl
  all_goals rfl

theorem Silent.over (f : Node → Node) : Silent (ownOver own f) where
  made n h := silent.made _ (by
    unfold Node.label at h ⊢
    rw [Kind.label_map]
    exact h)
  typed span ty op lhs rhs := silent.typed ..
  operator n h := silent.operator _ (by
    unfold Node.label at h ⊢
    rw [Kind.label_map]
    exact h)

/-- The nodes of a settled tree give what they do over settled children. -/
theorem Silent.gather_settle (cx : Context) (n : Node) :
    Node.gather own (settle cx n) = n.gather (ownOver own (settle cx)) := by
  have composed : ownOver (ownOver own (widenNumbers cx)) (resolveOperators cx) =
      ownOver own (settle cx) := by
    funext m
    unfold ownOver
    simp only [Kind.map_map]
    rfl
  unfold settle
  rw [silent.gather_widen, (silent.over _).gather_operators, composed]
  rfl

/-- All passes behind the navigation keep what nodes give regardless of their children. -/
theorem Silent.gather_passes (cx : Context)
    (checked : ∀ span ty d, own ⟨span, ty, .methodDecl (Returns.checkDecl cx.classes span d).1⟩ =
      own ⟨span, ty, .methodDecl d⟩)
    (same : ∀ f, ownOver own f = own) (n : Node) :
    Node.gather own ((settle cx n).transform (returned cx.classes)) = n.gather own := by
  rw [gather_transform_over (silent.gather_returned checked), same, silent.gather_settle, same]

end

/-- What an analysis makes: the navigated tree settled, its results checked, and what the passes
have to report, one after another. -/
theorem analyze_made {cx : Context} {root : Node} {a : Analysis} (h : analyze cx root = .ok a) :
    ∃ navigated ds, resolveNavigation cx root = (.ok navigated, ds) ∧
      a.root = (settle cx navigated).transform (returned cx.classes) ∧
      ∃ new, (∀ d ∈ new, Reporting cx.classes (settle cx navigated) d) ∧
        a.diagnostics = ds ++ new ++ leftovers a.root := by
  unfold analyze Pass.standard at h
  simp only [runPasses, Pass.run] at h
  split at h
  · rename_i navigated ds hnav
    cases h
    exact ⟨navigated, ds, hnav, congrArg Prod.fst (checkReturns_met cx (settle cx navigated)), _,
      fun _ => reporting_iff.2, by simp [settle]⟩
  · cases h

theorem analyze_ok {cx : Context} {root : Node} {a : Analysis} (h : analyze cx root = .ok a) :
    ∃ navigated ds, resolveNavigation cx root = (.ok navigated, ds) ∧
      a.root = (settle cx navigated).transform (returned cx.classes) ∧
      ∃ new, (∀ d ∈ new, d.IsReturn) ∧ a.diagnostics = ds ++ new ++ leftovers a.root := by
  obtain ⟨navigated, ds, hnav, hroot, new, hnew, hds⟩ := analyze_made h
  exact ⟨navigated, ds, hnav, hroot, new, fun d hd => (hnew d hd).isReturn, hds⟩

theorem leftovers_eq (n : Node) : leftovers n = n.gather Leftover.own := by
  induction n using Node.induct with
  | h span ty kind ih =>
    have children : kind.children.map leftovers = kind.children.map (Node.gather Leftover.own) :=
      List.map_congr_left ih
    unfold leftovers
    rw [Node.para_mk]
    by_cases hk : kind.label = "Stream"
    · cases kind
      case stream steps =>
        rw [gather_stream]
        rfl
      all_goals simp [Kind.label] at hk
    · rw [gather_mk hk, List.flatMap_def, ← children]
      cases kind
      case stream => exact absurd rfl hk
      all_goals
        change Leftover.own ⟨span, ty, Kind.map Prod.fst (Kind.map _ _)⟩ ++
          List.flatMap Prod.snd (Kind.children (Kind.map _ _)) = _
        rw [Kind.map_map, Kind.map_id, Kind.children_map, List.flatMap_map, List.flatMap_def]
        rfl

end NavScript
