import NavScript.Proofs.Folding
import NavScript.Proofs.Passes

/-!
# Operands behind widening

Behind widening an operator over two numbers, boxed or not, has operands of one kind, and widening once
more changes nothing (`widening_settles`). `Settled` is the invariant of the induction: a node has
compatible operands, and the step of widening leaves it as it is. The step makes settled nodes of any node
over settled ones: what it wraps operands in are conversions, what it computes are constants, and an
operator that it has dealt with takes the same way out again.
-/

namespace NavScript

variable {n m lhs rhs : Node} {ty left right : Ty} {kind k : NumericKind} {span : Span} {op : Operator}

/-- What is numeric by itself is no box. -/
theorem NumericKind.unboxed?_of_ofTy? (h : NumericKind.ofTy? ty = some k) : ty.unboxed? = none := by
  cases ty
  case named c =>
    obtain ⟨name, package⟩ := c
    simp only [NumericKind.ofTy?, beq_iff_eq] at h
    split at h
    · rename_i hname
      subst hname
      rfl
    · split at h
      · rename_i hname
        subst hname
        rfl
      · cases h
  all_goals rfl

theorem NumericKind.ofOperand?_of_ofTy? (h : NumericKind.ofTy? ty = some k) :
    NumericKind.ofOperand? ty = some k := by
  simp [NumericKind.ofOperand?, h]

/-- A number of the given kind that is not boxed. -/
def Node.OfKind (kind : NumericKind) (n : Node) : Prop :=
  ∃ ty, n.ty = some ty ∧ NumericKind.ofTy? ty = some kind

theorem ofKind_literal {l : Literal} (h : l.numericKind? = some kind) :
    ((Node.ofLiteral l).withSpan span).OfKind kind :=
  ⟨l.ty, rfl, by rw [Literal.ofTy?_ty_of_numericKind? h, kind.ofTy?_ty]⟩

/-- A constant is under no conversion. -/
theorem Converted.eq_of_literal {l : Literal} (h : Converted n m) (constant : m.kind = .literal l) :
    m = n := by
  cases h with
  | refl => rfl
  | convert => cases constant

namespace Widening

theorem bringTo_ofKind (h : n.OfKind kind) : bringTo n kind = n := by
  obtain ⟨ty, typed, number⟩ := h
  unfold bringTo
  simp [typed, NumericKind.unboxed?_of_ofTy? number, number]

/-- A number is of the kind that it is brought to. -/
theorem ofKind_bringTo (typed : n.ty = some ty) (number : NumericKind.ofOperand? ty = some k)
    (kind : NumericKind) : (bringTo n kind).OfKind kind := by
  have brought : ∀ {m : Node} {u : Ty}, m.ty = some u → NumericKind.ofTy? u = some k →
      (if k = kind then m else .convertTo .widen m kind.ty).OfKind kind := by
    intro m u hm hu
    split
    · rename_i same
      exact ⟨u, hm, same ▸ hu⟩
    · exact ⟨kind.ty, rfl, kind.ofTy?_ty⟩
  unfold bringTo
  cases plain : NumericKind.ofTy? ty with
  | some k' =>
    obtain rfl : k' = k := by simpa [NumericKind.ofOperand?, plain] using number
    simpa [typed, NumericKind.unboxed?_of_ofTy? plain, plain] using brought typed plain
  | none =>
    have number : ty.unboxed?.bind NumericKind.ofTy? = some k := by
      simpa [NumericKind.ofOperand?, plain] using number
    obtain ⟨prim, held, number⟩ := Option.bind_eq_some_iff.1 number
    simpa [typed, held, number, Node.convertTo] using brought (m := .convertTo .unbox n prim) rfl number

/-- An operator over two numbers of a kind, with its type. -/
def overKind (span : Span) (op : Operator) (kind : NumericKind) (lhs rhs : Node) : Node :=
  ⟨span, some (if op.isComparison then .boolean else kind.ty), .binary op lhs rhs⟩

theorem numeric_of_constants?_none (fold : Bool)
    (h : constants? span op kind (if op.isComparison then .boolean else kind.ty) lhs rhs = none) :
    numeric fold span op kind lhs rhs = overKind span op kind (bringTo lhs kind) (bringTo rhs kind) := by
  unfold numeric
  cases fold with
  | false => rfl
  | true =>
    simp only [if_true, h]
    rfl

theorem numeric_of_constants?_some
    (h : constants? span op kind (if op.isComparison then .boolean else kind.ty) lhs rhs = some n) :
    numeric true span op kind lhs rhs = n := by
  unfold numeric
  simp only [if_true, h, Option.getD_some]

theorem constants?_of_literals? {ty : Ty} (h : Operands.literals? lhs rhs = none) :
    constants? span op kind ty lhs rhs = none := by
  unfold constants?
  rw [h]
  rfl

/-- Bringing operands to a kind makes no constants of them. -/
theorem constants?_bringTo {ty : Ty} (h : constants? span op kind ty lhs rhs = none) :
    constants? span op kind ty (bringTo lhs kind) (bringTo rhs kind) = none := by
  cases pair : Operands.literals? (bringTo lhs kind) (bringTo rhs kind) with
  | none => exact constants?_of_literals? pair
  | some _ =>
    obtain ⟨hl, hr⟩ := literals?_eq pair
    rw [(bringTo_converted lhs kind).eq_of_literal hl, (bringTo_converted rhs kind).eq_of_literal hr]
    exact h

/-- An operator without a value over constants of a kind is made of them again. -/
theorem constants?_valueless {ty : Ty} {l r : Literal} {left right : Span}
    (h : Valueless op kind l r) :
    constants? span op kind ty ((Node.ofLiteral l).withSpan left) ((Node.ofLiteral r).withSpan right) =
      some ⟨span, some ty,
        .binary op ((Node.ofLiteral l).withSpan left) ((Node.ofLiteral r).withSpan right)⟩ := by
  have pair : Operands.literals? ((Node.ofLiteral l).withSpan left) ((Node.ofLiteral r).withSpan right) =
      some (l, r) := rfl
  unfold constants?
  simp only [pair, Option.bind_eq_bind, Option.bind_some, Literal.widenTo?_self h.left,
    Literal.widenTo?_self h.right, h.none]
  rfl

/-- An operand as widening leaves it: what it was, under conversions, or a constant. -/
def Operand (n m : Node) : Prop := Converted n m ∨ ∃ l span, m = (Node.ofLiteral l).withSpan span

/-- An operator over two numbers is computed, or it stands over operands of the kind, of which it is
made again. -/
theorem numeric_again (span : Span) (op : Operator) (fold : Bool) (hl : (bringTo lhs kind).OfKind kind)
    (hr : (bringTo rhs kind).OfKind kind) :
    (∃ value, numeric fold span op kind lhs rhs = (Node.ofLiteral value).withSpan span) ∨
      ∃ l r, numeric fold span op kind lhs rhs = overKind span op kind l r ∧
        l.OfKind kind ∧ r.OfKind kind ∧ Operand lhs l ∧ Operand rhs r ∧
        numeric fold span op kind l r = overKind span op kind l r := by
  have again : bringTo (bringTo lhs kind) kind = bringTo lhs kind ∧
      bringTo (bringTo rhs kind) kind = bringTo rhs kind := ⟨bringTo_ofKind hl, bringTo_ofKind hr⟩
  have operands : Operand lhs (bringTo lhs kind) ∧ Operand rhs (bringTo rhs kind) :=
    ⟨.inl (bringTo_converted ..), .inl (bringTo_converted ..)⟩
  cases fold with
  | false =>
    refine .inr ⟨_, _, rfl, hl, hr, operands.1, operands.2, ?_⟩
    show overKind .. = _
    rw [again.1, again.2]
  | true =>
    cases made : constants? span op kind (if op.isComparison then .boolean else kind.ty) lhs rhs with
    | none =>
      refine .inr ⟨_, _, numeric_of_constants?_none true made, hl, hr, operands.1, operands.2, ?_⟩
      rw [numeric_of_constants?_none true (constants?_bringTo made), again.1, again.2]
    | some n =>
      rw [numeric_of_constants?_some made]
      obtain ⟨-, -, -, -, folded | ⟨l, r, rfl, valueless⟩⟩ := constants?_made made
      · exact .inl folded
      · refine .inr ⟨_, _, rfl, ofKind_literal valueless.left, ofKind_literal valueless.right,
          .inr ⟨l, _, rfl⟩, .inr ⟨r, _, rfl⟩, ?_⟩
        exact numeric_of_constants?_some (constants?_valueless valueless)

theorem isLogical_eq_false (h : (op.isArithmetic || op.isComparison) = true) : op.isLogical = false := by
  cases op <;> first | rfl | cases h

/-- The operator computes with the numbers that its operands are, boxed or not. -/
structure Numbers (op : Operator) (lhs rhs : Node) (l r : NumericKind) : Prop where
  computes : (op.isArithmetic || op.isComparison) = true
  left : lhs.ty.bind NumericKind.ofOperand? = some l
  right : rhs.ty.bind NumericKind.ofOperand? = some r

theorem binary_numbers {l r : NumericKind} (fold : Bool) (ty : Option Ty) (h : Numbers op lhs rhs l r) :
    binary fold span ty op lhs rhs = numeric fold span op (l.promote r) lhs rhs := by
  obtain ⟨hop, hl, hr⟩ := h
  obtain ⟨left, hleft, hl⟩ := Option.bind_eq_some_iff.1 hl
  obtain ⟨right, hright, hr⟩ := Option.bind_eq_some_iff.1 hr
  unfold binary
  simp only [isLogical_eq_false hop, hop, hleft, hright, hl, hr]
  rfl

/-- An operator that computes with no two numbers keeps its operands, and its type too unless it is
boolean. -/
theorem binary_other (span : Span) (fold : Bool) (h : ∀ l r, ¬ Numbers op lhs rhs l r) :
    ∃ boolean : Bool, (op.isLogical = true → boolean = true) ∧ ∀ ty,
      binary fold span ty op lhs rhs =
        ⟨span, if boolean then some .boolean else ty, .binary op lhs rhs⟩ := by
  unfold binary
  cases logical : op.isLogical with
  | true => exact ⟨true, fun _ => rfl, fun _ => by simp⟩
  | false =>
    cases hop : op.isArithmetic || op.isComparison with
    | false => exact ⟨false, id, fun _ => by simp⟩
    | true =>
      cases hleft : lhs.ty with
      | none => exact ⟨false, id, fun _ => by simp⟩
      | some left =>
        cases hright : rhs.ty with
        | none => exact ⟨false, id, fun _ => by simp⟩
        | some right =>
          refine ⟨op.isComparison && left.same right && left.isPrimitive, by simp, fun ty => ?_⟩
          have other : ∀ l r, NumericKind.ofOperand? left = some l →
              NumericKind.ofOperand? right = some r → False :=
            fun l r hl hr => h l r ⟨hop, by simp [hleft, hl], by simp [hright, hr]⟩
          -- the match on the two kinds falls through by `other`
          cases same : op.isComparison && left.same right && left.isPrimitive <;>
            simp only [Bool.false_eq_true, if_false, if_true, Bool.not_true, same]

end Widening

/-- The operands of an operator over two numbers, boxed or not, are numbers of one kind and not boxed, and
the operator has the type of that kind, or is boolean if it compares; a connective is boolean. -/
def Node.Compatible (n : Node) : Prop :=
  ∀ op lhs rhs, n.kind = .binary op lhs rhs →
    (op.isLogical = true → n.ty = some .boolean) ∧
    (op.isArithmetic = true ∨ op.isComparison = true → ∀ left right, lhs.ty = some left → rhs.ty = some right →
      (NumericKind.ofOperand? left).isSome → (NumericKind.ofOperand? right).isSome →
        ∃ kind, NumericKind.ofTy? left = some kind ∧ NumericKind.ofTy? right = some kind ∧
          left.unboxed? = none ∧ right.unboxed? = none ∧
          n.ty = some (if op.isComparison then .boolean else kind.ty))

/-- The node has compatible operands, and widening has nothing to do at it. -/
structure Settled (cx : Context) (n : Node) : Prop where
  compatible : n.Compatible
  fixed : Widening.step cx n = n

theorem compatible_other (h : n.label ≠ "Binary") : n.Compatible :=
  fun op lhs rhs hn => absurd (by rw [Node.label, hn]; rfl) h

theorem settled_other {cx : Context} (h : n.label ≠ "Binary") (h' : n.label ≠ "Conditional") :
    Settled cx n where
  compatible := compatible_other h
  fixed := by
    obtain ⟨span, ty, kind⟩ := n
    exact widenNumbers_of_quiet h h' span ty

/-- What holds of conversions and of all nodes of a tree holds of the tree under conversions. -/
theorem Converted.nodes {P : Node → Prop} (h : Converted n m)
    (conversion : ∀ x : Node, x.label = "Convert" → P x) (held : ∀ x ∈ n.nodes, P x) :
    ∀ x ∈ m.nodes, P x := by
  induction h with
  | refl => exact held
  | convert h span ty c ih =>
    rw [Node.nodes_mk, List.forall_mem_cons]
    exact ⟨conversion _ rfl, by simpa [Kind.children] using ih⟩

namespace Widening

/-- All nodes of a tree are settled. -/
def AllSettled (cx : Context) (n : Node) : Prop := ∀ m ∈ n.nodes, Settled cx m

variable {cx : Context}

theorem AllSettled.converted (h : AllSettled cx n) (conv : Converted n m) : AllSettled cx m :=
  conv.nodes (fun x hx => settled_other (by simp [hx]) (by simp [hx])) h

theorem allSettled_literal (l : Literal) (span : Span) :
    AllSettled cx ((Node.ofLiteral l).withSpan span) := by
  intro m hm
  have leaf : ((Node.ofLiteral l).withSpan span).nodes = [(Node.ofLiteral l).withSpan span] :=
    Node.nodes_mk ..
  rw [leaf, List.mem_singleton] at hm
  rw [hm]
  exact settled_other (show "Literal" ≠ "Binary" by decide) (show "Literal" ≠ "Conditional" by decide)

theorem AllSettled.operand (h : AllSettled cx n) (operand : Operand n m) : AllSettled cx m := by
  obtain converted | ⟨l, span, rfl⟩ := operand
  · exact h.converted converted
  · exact allSettled_literal l span

/-- A settled node over settled trees is a settled tree. -/
theorem allSettled_mk {kind : Kind Node} {ty : Option Ty} (own : Settled cx ⟨span, ty, kind⟩)
    (below : ∀ c ∈ kind.children, AllSettled cx c) : AllSettled cx ⟨span, ty, kind⟩ :=
  Node.forall_nodes_mk.2 ⟨own, below⟩

theorem compatible_overKind (hop : (op.isArithmetic || op.isComparison) = true) (hl : lhs.OfKind kind)
    (hr : rhs.OfKind kind) : (overKind span op kind lhs rhs).Compatible := by
  rintro op lhs rhs ⟨⟩
  refine ⟨fun logical => ?_, fun _ left right hleft hright _ _ => ?_⟩
  · rw [isLogical_eq_false hop] at logical
    cases logical
  · obtain ⟨left, typed, left_kind⟩ := hl
    obtain ⟨right, typed', right_kind⟩ := hr
    obtain rfl := Option.some.inj (hleft.symm.trans typed)
    obtain rfl := Option.some.inj (hright.symm.trans typed')
    exact ⟨kind, left_kind, right_kind, NumericKind.unboxed?_of_ofTy? left_kind,
      NumericKind.unboxed?_of_ofTy? right_kind, rfl⟩

/-- An operator over settled operands is settled by the step of widening. -/
theorem allSettled_binary (hl : AllSettled cx lhs) (hr : AllSettled cx rhs) (ty : Option Ty) :
    AllSettled cx (Widening.step cx ⟨span, ty, .binary op lhs rhs⟩) := by
  show AllSettled cx (binary cx.config.foldLiterals span ty op lhs rhs)
  by_cases numbers : ∃ l r, Numbers op lhs rhs l r
  · obtain ⟨l, r, numbers⟩ := numbers
    obtain ⟨left, typed, left_kind⟩ := Option.bind_eq_some_iff.1 numbers.left
    obtain ⟨right, typed', right_kind⟩ := Option.bind_eq_some_iff.1 numbers.right
    rw [binary_numbers _ ty numbers]
    obtain ⟨value, made⟩ | ⟨l', r', made, ofKind, ofKind', operand, operand', again⟩ :=
      numeric_again span op cx.config.foldLiterals
        (ofKind_bringTo typed left_kind (l.promote r)) (ofKind_bringTo typed' right_kind (l.promote r))
    · rw [made]
      exact allSettled_literal value span
    · rw [made]
      refine allSettled_mk ⟨compatible_overKind numbers.computes ofKind ofKind', ?_⟩ ?_
      · obtain ⟨u, hu, kind⟩ := ofKind
        obtain ⟨u', hu', kind'⟩ := ofKind'
        have numbers' : Numbers op l' r' (l.promote r) (l.promote r) :=
          ⟨numbers.computes, by simp [hu, NumericKind.ofOperand?_of_ofTy? kind],
            by simp [hu', NumericKind.ofOperand?_of_ofTy? kind']⟩
        refine (binary_numbers _ _ numbers').trans ?_
        rw [NumericKind.promote_self]
        exact again
      · simp [Kind.children, hl.operand operand, hr.operand operand']
  · have other : ∀ l r, ¬ Numbers op lhs rhs l r := fun l r h => numbers ⟨l, r, h⟩
    obtain ⟨boolean, logical, made⟩ := binary_other span cx.config.foldLiterals other
    rw [made]
    refine allSettled_mk ⟨?_, ?_⟩ (by simp [Kind.children, hl, hr])
    · rintro op lhs rhs ⟨⟩
      refine ⟨fun h => by simp [logical h], fun hop left right hleft hright hl hr => ?_⟩
      obtain ⟨l, hl⟩ := Option.isSome_iff_exists.1 hl
      obtain ⟨r, hr⟩ := Option.isSome_iff_exists.1 hr
      exact absurd ⟨by simpa using hop, by simp [hleft, hl], by simp [hright, hr]⟩ (other l r)
    · refine (made _).trans ?_
      cases boolean <;> rfl

/-- A conditional that widening has gone over has a type, or a branch without one. -/
theorem allSettled_conditional {c t e : Node} (hc : AllSettled cx c) (ht : AllSettled cx t)
    (he : AllSettled cx e) (ty : Option Ty) :
    AllSettled cx (Widening.step cx ⟨span, ty, .conditional c t e⟩) := by
  have typed (u : Ty) {t' e' : Node} (ht' : Converted t t') (he' : Converted e e') :
      AllSettled cx ⟨span, some u, .conditional c t' e'⟩ := by
    refine allSettled_mk ⟨compatible_other (by simp [Node.label, Kind.label]), rfl⟩ ?_
    simp [Kind.children, hc, ht.converted ht', he.converted he']
  cases ty with
  | some u => exact typed u .refl .refl
  | none =>
    show AllSettled cx (conditional cx.classes span c t e)
    obtain ⟨made, -⟩ | ⟨left, right, -, -, ⟨-, made⟩ | ⟨-, ⟨kind, -, -, made⟩ | made⟩⟩ :=
      conditional_made cx.classes span c t e
    · have fixed : Widening.step cx ⟨span, none, .conditional c t e⟩ = _ := made
      rw [made]
      exact allSettled_mk ⟨compatible_other (by simp [Node.label, Kind.label]), fixed⟩
        (by simp [Kind.children, hc, ht, he])
    all_goals rw [made]
    · exact typed left .refl .refl
    · exact typed _ (bringTo_converted t kind) (bringTo_converted e kind)
    · exact typed _ (boxedFor_converted t _) (boxedFor_converted e _)

theorem allSettled_step {kind : Kind Node} (ty : Option Ty) (below : ∀ c ∈ kind.children, AllSettled cx c) :
    AllSettled cx (Widening.step cx ⟨span, ty, kind⟩) := by
  cases kind
  case binary op lhs rhs =>
    simp only [Kind.children, List.forall_mem_cons] at below
    exact allSettled_binary below.1 below.2.1 ty
  case conditional c t e =>
    simp only [Kind.children, List.forall_mem_cons] at below
    exact allSettled_conditional below.1 below.2.1 below.2.2.1 ty
  all_goals exact allSettled_mk ⟨compatible_other (by simp [Node.label, Kind.label]), rfl⟩ below

end Widening

/-- Behind widening the operands of every operator are compatible, and widening once more leaves the tree
as it is. -/
theorem widening_settles (cx : Context) (root : Node) :
    (∀ n ∈ (widenNumbers cx root).nodes, n.Compatible) ∧
      widenNumbers cx (widenNumbers cx root) = widenNumbers cx root := by
  have settled : Widening.AllSettled cx (widenNumbers cx root) :=
    Node.nodes_transform fun _ ty _ _ => Widening.allSettled_step ty
  exact ⟨fun n hn => (settled n hn).compatible, Node.transform_fixed fun n hn => (settled n hn).fixed⟩

end NavScript
