import NavScript.Proofs.Composites
import NavScript.Proofs.VoidVisits

/-!
# Void values in analysed trees

Behind the navigation void is boxed in three places: as an operand of a call that takes references, as
one branch of a conditional over another type, and as the result of a method that returns a class above
`Void` (`TakesVoid`). No pass converts void in another way, so an analysis says where it does
(`analysis_boxes_void_iff`).
-/

namespace NavScript

theorem exists_visible_mk {P : Node → Prop} {kind : Kind Node} (h : kind.label ≠ "Stream") (span : Span)
    (ty : Option Ty) : (∃ m ∈ Node.visible ⟨span, ty, kind⟩, P m) ↔
      P ⟨span, ty, kind⟩ ∨ ∃ e ∈ kind.children, ∃ m ∈ e.visible, P m := by
  rw [Node.visible_mk h, List.exists_mem_cons_iff]
  refine or_congr_right ⟨?_, ?_⟩
  · rintro ⟨m, hm, held⟩
    obtain ⟨e, he, hm⟩ := List.mem_flatMap.1 hm
    exact ⟨e, he, m, hm, held⟩
  · rintro ⟨e, he, m, hm, held⟩
    exact ⟨m, List.mem_flatMap.2 ⟨e, he, hm⟩, held⟩

theorem exists_of_each {p q r : Node → Prop} {b : Prop} {ns : List Node}
    (each : ∀ n ∈ ns, (p n ↔ q n ∨ b ∧ r n)) :
    (∃ n ∈ ns, p n) ↔ (∃ n ∈ ns, q n) ∨ b ∧ ∃ n ∈ ns, r n := by
  rw [exists_congr fun n => and_congr_right (each n)]
  simp only [and_or_left, exists_or, and_left_comm (b := b), exists_and_left]

theorem Ty.same_void_iff {t : Ty} : t.same .void = true ↔ t = .void := by
  cases t <;> simp [Ty.void, Ty.same]

theorem Ty.void_same_iff {t : Ty} : Ty.void.same t = true ↔ t = .void := by
  cases t <;> simp [Ty.void, Ty.same, eq_comm (a := Prim.void)]

section

variable {c : Conversion} {cx : Context}

theorem mem_voided_boxed (n : Node) :
    c ∈ n.boxed.voided Node.ty ↔ c ∈ n.voided Node.ty ∨ c = .box ∧ n.ty = some .void := by
  unfold Node.boxed
  split
  · rename_i ty typed
    split
    · rw [Node.convertTo, mem_voided_convert, or_comm]
    · rename_i reference
      refine (or_iff_left ?_).symm
      rintro ⟨-, hv⟩
      refine reference ?_
      rw [Option.some.inj (typed.symm.trans hv)]
      rfl
  · rename_i unknown
    refine (or_iff_left ?_).symm
    rintro ⟨-, hv⟩
    exact Option.some_ne_none _ (hv.symm.trans unknown)

theorem not_mem_voided_literal {n : Node} {lit : Literal} (h : n.kind = .literal lit) :
    c ∉ n.voided Node.ty := by
  obtain ⟨span, ty, kind⟩ := n
  subst h
  exact not_mem_voided_leaf (by simp [Kind.label]) rfl _ _

namespace Widening

theorem mem_voided_bringTo (n : Node) (kind : NumericKind) :
    c ∈ (bringTo n kind).voided Node.ty ↔ c ∈ n.voided Node.ty := by
  unfold bringTo
  extract_lets unboxed
  have same : c ∈ unboxed.voided Node.ty ↔ c ∈ n.voided Node.ty := by
    unfold unboxed
    split
    · rename_i prim held
      split
      · rw [Node.convertTo, mem_voided_convert]
        refine or_iff_right ?_
        rintro ⟨-, hv⟩
        rw [hv] at held
        cases held
      · rfl
    · rfl
  rw [← same]
  split
  · rename_i number
    split
    · rfl
    · rw [Node.convertTo, mem_voided_convert]
      refine or_iff_right ?_
      rintro ⟨-, hv⟩
      rw [hv] at number
      cases number
  · rfl

theorem mem_voided_operator (span : Span) (ty : Option Ty) (op : Operator) (lhs rhs : Node) :
    c ∈ Node.voided Node.ty ⟨span, ty, .binary op lhs rhs⟩ ↔
      c ∈ lhs.voided Node.ty ∨ c ∈ rhs.voided Node.ty :=
  mem_voided_pair (by simp [Kind.label]) rfl _ _

theorem mem_voided_constants {span : Span} {op : Operator} {kind : NumericKind} {ty : Ty}
    {lhs rhs n : Node} (h : constants? span op kind ty lhs rhs = some n) :
    c ∈ n.voided Node.ty ↔ c ∈ lhs.voided Node.ty ∨ c ∈ rhs.voided Node.ty := by
  obtain ⟨l, r, hl, hr, made⟩ := constants?_made h
  refine iff_of_false ?_ (not_or.2 ⟨not_mem_voided_literal hl, not_mem_voided_literal hr⟩)
  obtain ⟨value, rfl⟩ | ⟨l', r', rfl, -⟩ := made
  · exact not_mem_voided_literal rfl
  · rw [mem_voided_operator]
    exact not_or.2 ⟨not_mem_voided_literal rfl, not_mem_voided_literal rfl⟩

theorem mem_voided_numeric (fold : Bool) (span : Span) (op : Operator) (kind : NumericKind)
    (lhs rhs : Node) : c ∈ (numeric fold span op kind lhs rhs).voided Node.ty ↔
      c ∈ lhs.voided Node.ty ∨ c ∈ rhs.voided Node.ty := by
  obtain ⟨ty, -, made | made⟩ := numeric_made fold span op kind lhs rhs
  · exact mem_voided_constants made
  · rw [made, mem_voided_operator, mem_voided_bringTo, mem_voided_bringTo]

theorem mem_voided_binary (fold : Bool) (span : Span) (ty : Option Ty) (op : Operator)
    (lhs rhs : Node) : c ∈ (binary fold span ty op lhs rhs).voided Node.ty ↔
      c ∈ lhs.voided Node.ty ∨ c ∈ rhs.voided Node.ty := by
  cases hopen : leavesOpen op lhs.ty rhs.ty with
  | true => rw [binary_open hopen, mem_voided_operator]
  | false =>
    obtain made | ⟨kind, made⟩ := binary_closed fold span ty hopen <;> rw [made]
    · exact mem_voided_operator ..
    · exact mem_voided_numeric ..

/-- One of two branches is void, and the other has another type. -/
def OneVoid (t e : Option Ty) : Prop :=
  ∃ u v, t = some u ∧ e = some v ∧ u ≠ v ∧ (u = .void ∨ v = .void)

theorem oneVoid_some {u v : Ty} : OneVoid (some u) (some v) ↔ u ≠ v ∧ (u = .void ∨ v = .void) := by
  constructor
  · rintro ⟨_, _, hu, hv, other⟩
    cases hu
    cases hv
    exact other
  · exact fun other => ⟨u, v, rfl, rfl, other⟩

theorem mem_voided_branches (classes : ClassTable) (span : Span) (test t e : Node) :
    c ∈ (conditional classes span test t e).voided Node.ty ↔
      c ∈ test.voided Node.ty ∨ c ∈ t.voided Node.ty ∨ c ∈ e.voided Node.ty ∨
        c = .box ∧ OneVoid t.ty e.ty := by
  have kept (none : ¬ OneVoid t.ty e.ty) (ty : Option Ty) {t' e' : Node}
      (ht : c ∈ t'.voided Node.ty ↔ c ∈ t.voided Node.ty)
      (he : c ∈ e'.voided Node.ty ↔ c ∈ e.voided Node.ty) :
      c ∈ Node.voided Node.ty ⟨span, ty, .conditional test t' e'⟩ ↔ c ∈ test.voided Node.ty ∨
        c ∈ t.voided Node.ty ∨ c ∈ e.voided Node.ty ∨ c = .box ∧ OneVoid t.ty e.ty := by
    simp [mem_voided_conditional, ht, he, none]
  obtain ⟨made, unknown⟩ | ⟨u, v, hu, hv, ⟨alike, made⟩ | ⟨unlike, ⟨kind, hk, hl, made⟩ | made⟩⟩ :=
    conditional_made classes span test t e <;> rw [made]
  · refine kept ?_ _ Iff.rfl Iff.rfl
    rintro ⟨u, v, hu, hv, -⟩
    rcases unknown with unknown | unknown
    · exact Option.some_ne_none u (hu.symm.trans unknown)
    · exact Option.some_ne_none v (hv.symm.trans unknown)
  · refine kept ?_ _ Iff.rfl Iff.rfl
    rw [hu, hv, oneVoid_some]
    rintro ⟨differ, rfl | rfl⟩
    · exact differ (Ty.void_same_iff.1 alike).symm
    · exact differ (Ty.same_void_iff.1 alike)
  · refine kept ?_ _ (mem_voided_bringTo ..) (mem_voided_bringTo ..)
    rw [hu, hv, oneVoid_some]
    rintro ⟨-, rfl | rfl⟩
    · exact hk rfl
    · exact hl rfl
  · have one : OneVoid (some u) (some v) ↔ u = .void ∨ v = .void := by
      rw [oneVoid_some, and_iff_right_iff_imp]
      rintro void rfl
      rw [or_self] at void
      rw [void] at unlike
      cases unlike
    simp only [mem_voided_conditional, boxedFor, commonTy_reference, if_true, mem_voided_boxed, hu, hv, one,
      Option.some.injEq]
    rw [and_or_left, or_assoc, or_left_comm (a := c = .box ∧ u = .void)]

/-- Widening gives no operator the type void. -/
theorem binary_void {fold : Bool} {span : Span} {ty : Option Ty} {op : Operator} {lhs rhs : Node}
    (h : (binary fold span ty op lhs rhs).ty = some .void) : ty = some .void := by
  obtain same | ⟨result, other, typed⟩ := binary_ty fold span ty op lhs rhs
  · exact same.symm.trans h
  · exact absurd (Option.some.inj (typed.symm.trans h)) other

end Widening

/-- What has a type is void behind widening only if it was before. -/
theorem void_of_widened {n : Node} {t : Ty} (typed : n.ty = some t)
    (void : (widenNumbers cx n).ty = some .void) : t = .void := by
  obtain ⟨span, ty, kind⟩ := n
  unfold widenNumbers at void
  rw [Node.transform_mk] at void
  obtain rfl : ty = some t := typed
  refine Option.some.inj ?_
  cases kind
  case binary => exact Widening.binary_void void
  all_goals exact void

/-- Operands are boxed before they are widened. -/
theorem mem_voided_widened_boxed {n : Node} {t : Ty} (typed : n.ty = some t) :
    c ∈ (widenNumbers cx n.boxed).voided Node.ty ↔ c ∈ (widenNumbers cx n).voided Node.ty ∨
      c = .box ∧ (widenNumbers cx n).ty = some .void := by
  unfold Node.boxed
  rw [typed]
  simp only
  split
  · have widened (span : Span) (ty : Option Ty) : widenNumbers cx ⟨span, ty, .convert .box n⟩ =
        ⟨span, ty, .convert .box (widenNumbers cx n)⟩ := widenNumbers_mk (by simp [Kind.label]) ..
    rw [Node.convertTo, widened, mem_voided_convert, or_comm]
  · rename_i reference
    refine (or_iff_left ?_).symm
    rintro ⟨-, void⟩
    refine reference ?_
    rw [void_of_widened typed void]
    rfl

/-- The pass of operators or widening boxes void in the node: as an operand of a call that takes
references, or as a branch of a conditional over another type. -/
inductive SettlesVoid (cx : Context) : Node → Prop
  | operand {span : Span} {ty : Option Ty} {op : Operator} {lhs rhs : Node} {left right : Ty}
    (hleft : (resolveOperators cx lhs).ty = some left)
    (hright : (resolveOperators cx rhs).ty = some right)
    (calls : (OperatorCalls.callOf? cx span op (resolveOperators cx lhs)
      (resolveOperators cx rhs)).isSome = true)
    (boxes : OperatorCalls.boxes op left right = true)
    (void : (settle cx lhs).ty = some .void ∨ (settle cx rhs).ty = some .void) :
    SettlesVoid cx ⟨span, ty, .binary op lhs rhs⟩
  | branch {span : Span} {test t e : Node}
    (void : Widening.OneVoid (settle cx t).ty (settle cx e).ty) :
    SettlesVoid cx ⟨span, none, .conditional test t e⟩

/-- The result type that a method declares, with the type of what its body ends in. -/
def Node.results (typing : Node → Option Ty) (n : Node) : List (Ty × Option Ty) :=
  match n.kind with
  | .methodDecl d =>
    match d.returnTy, d.body.getLast? with
    | some expected, some last => [(expected, typing last)]
    | _, _ => []
  | _ => []

/-- The method returns a class that `Void` is below, and its body ends in void. -/
def ReturnsVoid (classes : ClassTable) (typing : Node → Option Ty) (n : Node) : Prop :=
  ∃ expected, (expected, some .void) ∈ n.results typing ∧
    classes.isSubtype Ty.void.boxed expected = true

/-- A pass behind the navigation boxes void in the node. -/
def TakesVoid (cx : Context) (n : Node) : Prop :=
  SettlesVoid cx n ∨ ReturnsVoid cx.classes (fun e => (settle cx e).ty) n

/-- An operator that becomes a call boxes its void operands. -/
theorem mem_voided_call {span : Span} {op : Operator} {lhs rhs call : Node}
    (called : OperatorCalls.callOf? cx span op (resolveOperators cx lhs) (resolveOperators cx rhs) =
      some call) (ty : Option Ty) : c ∈ (widenNumbers cx call).voided Node.ty ↔
        c ∈ (settle cx lhs).voided Node.ty ∨ c ∈ (settle cx rhs).voided Node.ty ∨
          c = .box ∧ SettlesVoid cx ⟨span, ty, .binary op lhs rhs⟩ := by
  obtain ⟨left, right, hleft, hright, callTy, owner, method, rfl⟩ := callOf?_made called
  have settles : SettlesVoid cx ⟨span, ty, .binary op lhs rhs⟩ ↔
      OperatorCalls.boxes op left right = true ∧
        ((settle cx lhs).ty = some .void ∨ (settle cx rhs).ty = some .void) := by
    constructor
    · rintro (⟨hleft', hright', -, boxes, void⟩ | -)
      cases hleft.symm.trans hleft'
      cases hright.symm.trans hright'
      exact ⟨boxes, void⟩
    · rintro ⟨boxes, void⟩
      exact .operand hleft hright (by rw [called]; rfl) boxes void
  rw [widenNumbers_mk (by simp [Kind.label]), mem_voided_pair (by simp [Kind.map, Kind.label]) rfl,
    settles]
  cases OperatorCalls.boxes op left right with
  | false =>
    simp only [Bool.false_eq_true, if_false, false_and, and_false, or_false]
    rfl
  | true =>
    simp only [if_true, mem_voided_widened_boxed hleft, mem_voided_widened_boxed hright, true_and,
      and_or_left]
    exact or_or_or_comm.trans or_assoc

/-- A node that is no stream converts void by itself, is settled so that void is boxed in it, or has
the conversions of its settled children. -/
theorem mem_voided_settle_mk {kind : Kind Node} (h : kind.label ≠ "Stream") (span : Span)
    (ty : Option Ty) : c ∈ (settle cx ⟨span, ty, kind⟩).voided Node.ty ↔
      (c ∈ voidConversion (fun e => (settle cx e).ty) ⟨span, ty, kind⟩ ∨
        c = .box ∧ SettlesVoid cx ⟨span, ty, kind⟩) ∨
      ∃ e ∈ kind.children, c ∈ (settle cx e).voided Node.ty := by
  by_cases convert : kind.label = "Convert"
  · cases kind
    case convert d e =>
      have settles : ¬ SettlesVoid cx ⟨span, ty, .convert d e⟩ := by rintro ⟨⟩
      rw [settle_mk (by simp [Kind.label])]
      show c ∈ Node.voided Node.ty ⟨span, ty, .convert d (settle cx e)⟩ ↔ _
      rw [mem_voided_convert, mem_voidConversion_convert]
      simp [Kind.children, settles]
    all_goals simp [Kind.label] at convert
  rw [voidConversion_other (n := ⟨span, ty, kind⟩) convert, or_iff_right List.not_mem_nil]
  by_cases operator : kind.label = "Binary"
  · cases kind
    case binary op lhs rhs =>
      have operands : (∃ e ∈ (Kind.binary op lhs rhs).children, c ∈ (settle cx e).voided Node.ty) ↔
          c ∈ (settle cx lhs).voided Node.ty ∨ c ∈ (settle cx rhs).voided Node.ty := by
        simp [Kind.children]
      rw [settle_binary, operands]
      cases called : OperatorCalls.callOf? cx span op (resolveOperators cx lhs)
          (resolveOperators cx rhs) with
      | some call =>
        rw [mem_voided_call called ty, ← or_assoc, or_comm]
      | none =>
        refine (Widening.mem_voided_binary ..).trans (or_iff_right ?_).symm
        rintro ⟨-, ⟨-, -, calls, -, -⟩⟩
        rw [called] at calls
        cases calls
    all_goals simp [Kind.label] at operator
  by_cases conditional : kind.label = "Conditional"
  · cases kind
    case conditional test t e =>
      rw [settle_mk (by simp [Kind.label])]
      have parts : (∃ e' ∈ (Kind.conditional test t e).children, c ∈ (settle cx e').voided Node.ty) ↔
          c ∈ (settle cx test).voided Node.ty ∨ c ∈ (settle cx t).voided Node.ty ∨
            c ∈ (settle cx e).voided Node.ty := by
        simp [Kind.children]
      rw [parts]
      cases ty with
      | none =>
        have settles : SettlesVoid cx ⟨span, none, .conditional test t e⟩ ↔
            Widening.OneVoid (settle cx t).ty (settle cx e).ty := by
          refine ⟨fun h => ?_, .branch⟩
          cases h
          assumption
        refine (Widening.mem_voided_branches ..).trans ?_
        rw [settles, ← or_assoc, ← or_assoc, or_comm, or_assoc]
      | some ty =>
        have settles : ¬ SettlesVoid cx ⟨span, some ty, .conditional test t e⟩ := by rintro ⟨⟩
        exact (mem_voided_conditional ..).trans (or_iff_right fun h => settles h.2).symm
    all_goals simp [Kind.label] at conditional
  · have settles : ¬ SettlesVoid cx ⟨span, ty, kind⟩ := by
      rintro (⟨-, -, -, -, -⟩ | -)
      · exact operator rfl
      · exact conditional rfl
    have label : (kind.map (settle cx)).label ∉ ["Stream", "Convert"] := by
      rw [Kind.label_map]
      simp [h, convert]
    rw [settle_mk operator, widenNumbers_of_quiet (by rwa [Kind.label_map]) (by rwa [Kind.label_map]),
      mem_voided_mk label, Kind.children_map, or_iff_right fun h => settles h.2]
    simp only [List.mem_map, exists_exists_and_eq_and]

/-- A settled tree converts void as the tree did, over the types that the parts have in the end, and it
boxes void where the passes do so. -/
theorem mem_voided_settle (n : Node) : c ∈ (settle cx n).voided Node.ty ↔
    c ∈ n.voided (fun e => (settle cx e).ty) ∨ c = .box ∧ ∃ m ∈ n.visible, SettlesVoid cx m := by
  induction n using Node.induct with
  | h span ty kind ih =>
    by_cases stream : kind.label = "Stream"
    · cases kind
      case stream steps =>
        have settles : ¬ SettlesVoid cx ⟨span, ty, .stream steps⟩ := by rintro ⟨⟩
        have settled : settle cx ⟨span, ty, .stream steps⟩ =
            ⟨span, ty, .stream (steps.map (·.map (settle cx)))⟩ := settle_mk (by simp [Kind.label]) ..
        unfold Node.voided
        rw [settled, gather_stream, gather_stream, Node.visible_stream]
        simp [voidConversion, settles]
      all_goals simp [Kind.label] at stream
    · rw [mem_voided_settle_mk stream, exists_of_each ih, mem_voided_own stream,
        exists_visible_mk stream, and_or_left, or_or_or_comm]

end

/-! ## Results of methods -/

/-- No class is the box of void. -/
theorem Ty.unboxed?_ne_void {t u : Ty} (h : t.unboxed? = some u) : u ≠ .void := by
  cases t
  case named c =>
    obtain ⟨k, held, rfl⟩ := Option.map_eq_some_iff.1 h
    have other := (List.mem_filter.1 (List.mem_of_find?_eq_some held)).2
    rintro void
    cases void
    cases other
  all_goals cases h

section

open Returns

variable {c : Conversion} {classes : ClassTable} {expected found : Ty} {value n : Node}
  {body : List Node} {typing : Node → Option Ty}

theorem mem_voided_beforeUnbox (boxed : .unbox ∉ n.voided Node.ty) :
    c ∈ (beforeUnbox n).voided Node.ty ↔ c ∈ n.voided Node.ty := by
  obtain ⟨span, ty, kind⟩ := n
  unfold beforeUnbox
  split
  · rename_i e heq
    obtain rfl : kind = .convert .unbox e := heq
    rw [mem_voided_convert] at boxed ⊢
    refine (or_iff_right ?_).symm
    rintro ⟨-, void⟩
    exact boxed (.inl ⟨rfl, void⟩)
  · rfl

/-- A value that is unboxed is not void, before or after. -/
theorem mem_voided_unboxFor (expected : Ty) (typed : value.ty = some found) :
    (unboxFor expected found value).1.ty = some (unboxFor expected found value).2 ∧
      ((unboxFor expected found value).2 = .void ↔ found = .void) ∧
      ∀ c, c ∈ (unboxFor expected found value).1.voided Node.ty ↔ c ∈ value.voided Node.ty := by
  unfold unboxFor
  split
  · rename_i prim held
    split
    · have other : found ≠ .void := by
        rintro rfl
        cases held
      refine ⟨rfl, iff_of_false (Ty.unboxed?_ne_void held) other, fun c => ?_⟩
      rw [Node.convertTo, mem_voided_convert, typed, Option.some.injEq]
      exact or_iff_right fun h => other h.2
    · exact ⟨typed, Iff.rfl, fun _ => Iff.rfl⟩
  · exact ⟨typed, Iff.rfl, fun _ => Iff.rfl⟩

theorem reference_of_boxed_void (h : classes.isSubtype Ty.void.boxed expected = true) :
    expected.isReference = true := by
  cases expected
  case prim => simp [Ty.void, Ty.boxed, Ty.ofClass, ClassTable.isSubtype, Ty.same, Ty.isReference,
    Ty.isPrimitive] at h
  all_goals rfl

/-- Whether it converts or is rejected, a result that is not void keeps what it converts. -/
theorem mem_voided_result_other (typed : value.ty = some found) (boxed : .unbox ∉ value.voided Node.ty)
    (other : found ≠ .void) (h : Returns.convert classes expected found value = .ok n ∨
      Returns.convert classes expected found value = .error n) :
    c ∈ n.voided Node.ty ↔ c ∈ value.voided Node.ty := by
  obtain ⟨typed', void, held⟩ := mem_voided_unboxFor expected typed
  obtain rfl | rfl | rfl | ⟨d, t, rfl⟩ := convert_made h
  · rfl
  · exact held c
  · rw [mem_voided_beforeUnbox (by rwa [held]), held]
  · rw [Node.convertTo, mem_voided_convert, typed', Option.some.injEq, void, held]
    exact or_iff_right fun h => other h.2

/-- A void result is boxed where a class above `Void` is expected. -/
theorem convert_void (declared : expected.isVoid = false) :
    Returns.convert classes expected .void value =
      if classes.isSubtype Ty.void.boxed expected then .ok (.convertTo .box value Ty.void.boxed)
      else if expected.isReference then .error value
      else if classes.isSubtype .void expected then .ok value
      else .error (beforeUnbox value) := by
  have unlike : Ty.void.same expected = false := by
    rw [Bool.eq_false_iff, ne_eq, Ty.void_same_iff]
    rintro rfl
    cases declared
  have null : (decide (Ty.void = .null) && expected.isReference) = false := rfl
  have held : unboxFor expected .void value = (value, .void) := rfl
  have number : NumericKind.ofTy? .void = none := rfl
  have primitive : Ty.void.isPrimitive = true := rfl
  simp only [Returns.convert, unlike, null, held, number, primitive, Bool.or_self, Bool.false_eq_true,
    if_false, Bool.true_and]
  by_cases fits : classes.isSubtype Ty.void.boxed expected = true
  · rw [if_pos (reference_of_boxed_void fits), if_pos fits, if_pos fits]
  · rw [if_neg fits, if_neg fits]

/-- A result is boxed if it is void and fits that way. -/
theorem mem_voided_result (typed : value.ty = some found) (boxed : .unbox ∉ value.voided Node.ty)
    (declared : expected.isVoid = false)
    (h : Returns.convert classes expected found value = .ok n ∨
      Returns.convert classes expected found value = .error n) :
    c ∈ n.voided Node.ty ↔ c ∈ value.voided Node.ty ∨
      c = .box ∧ found = .void ∧ classes.isSubtype Ty.void.boxed expected = true := by
  by_cases void : found = .void
  · subst void
    rw [convert_void declared] at h
    split at h
    · rename_i fits
      rcases h with h | h <;> cases h
      rw [Node.convertTo, mem_voided_convert, typed, or_comm]
      simp [fits]
    · rename_i unfit
      simp only [unfit, and_false, or_false, Bool.false_eq_true]
      split at h
      · rcases h with h | h <;> cases h
        rfl
      · split at h <;> rcases h with h | h <;> cases h
        · rfl
        · exact mem_voided_beforeUnbox boxed
  · rw [mem_voided_result_other typed boxed void h]
    simp [void]

/-- A body is boxed if it ends in void and that fits the result type. -/
theorem mem_voided_checkBody (boxed : ∀ m ∈ body, .unbox ∉ m.voided Node.ty)
    (declared : expected.isVoid = false) (span : Span) (method : String) :
    (∃ m ∈ (checkBody classes span method expected body).1, c ∈ m.voided Node.ty) ↔
      (∃ m ∈ body, c ∈ m.voided Node.ty) ∨ c = .box ∧ (∃ last, body.getLast? = some last ∧
        last.ty = some .void) ∧ classes.isSubtype Ty.void.boxed expected = true := by
  obtain ⟨rfl, made | made⟩ | ⟨before, last, value, rfl, made, result⟩ :=
    checkBody_made classes span method expected body <;> rw [made]
  · simp
  · have null : c ∉ ((Node.nullOf expected).withSpan span).voided Node.ty :=
      not_mem_voided_literal rfl
    simp [null]
  · have ends : (∃ l, (before ++ [last]).getLast? = some l ∧ l.ty = some .void) ↔
        last.ty = some .void := by simp
    have converted : c ∈ value.voided Node.ty ↔ c ∈ last.voided Node.ty ∨
        c = .box ∧ last.ty = some .void ∧ classes.isSubtype Ty.void.boxed expected = true := by
      obtain ⟨unknown, rfl⟩ | ⟨found, typed, result⟩ := result
      · simp [unknown]
      · rw [typed, Option.some.injEq]
        exact mem_voided_result typed (boxed last (by simp)) declared result
    rw [ends]
    simp only [List.mem_append, List.mem_singleton, or_and_right, exists_or, exists_eq_left, converted,
      or_assoc]

theorem results_other (h : n.label ≠ "MethodDecl") : n.results typing = [] := by
  obtain ⟨span, ty, kind⟩ := n
  cases kind
  case methodDecl => exact absurd rfl h
  all_goals rfl

theorem results_map (f : Node → Node) (span : Span) (ty : Option Ty) (kind : Kind Node) :
    Node.results typing ⟨span, ty, kind.map f⟩ = Node.results (fun e => typing (f e)) ⟨span, ty, kind⟩ := by
  cases kind
  case methodDecl d =>
    obtain ⟨name, params, returnTy, body⟩ := d
    simp only [Node.results, Kind.map, List.getLast?_map]
    cases returnTy <;> cases body.getLast? <;> rfl
  all_goals rfl

theorem returnsVoid_method (span : Span) (ty : Option Ty) (name : String) (params : List Param) :
    ReturnsVoid classes typing ⟨span, ty, .methodDecl ⟨name, params, some expected, body⟩⟩ ↔
      (∃ last, body.getLast? = some last ∧ typing last = some .void) ∧
        classes.isSubtype Ty.void.boxed expected = true := by
  cases hlast : body.getLast? <;> simp [ReturnsVoid, Node.results, hlast, eq_comm (a := some Ty.void)]

theorem voidConversion_map (f : Node → Node) (span : Span) (ty : Option Ty) (kind : Kind Node) :
    voidConversion typing ⟨span, ty, kind.map f⟩ =
      voidConversion (fun e => typing (f e)) ⟨span, ty, kind⟩ := by
  cases kind <;> rfl

/-- The check of a method boxes its result if that is void and fits. -/
theorem mem_voided_returned (boxed : .unbox ∉ n.voided Node.ty) :
    c ∈ (returned classes n).voided Node.ty ↔
      c ∈ n.voided Node.ty ∨ c = .box ∧ ReturnsVoid classes Node.ty n := by
  by_cases method : n.label = "MethodDecl"
  · obtain ⟨span, ty, kind⟩ := n
    cases kind
    case methodDecl d =>
      obtain ⟨name, params, returnTy, body⟩ := d
      have whole (body : List Node) : c ∈ Node.voided Node.ty
          ⟨span, ty, .methodDecl ⟨name, params, returnTy, body⟩⟩ ↔ ∃ m ∈ body, c ∈ m.voided Node.ty :=
        mem_voided_mk (by simp [Kind.label]) _ _
      cases returnTy with
      | none =>
        refine (or_iff_left ?_).symm
        rintro ⟨-, expected, result, -⟩
        cases result
      | some expected =>
        rw [returnsVoid_method]
        cases declared : expected.isVoid with
        | true =>
          have same : returned classes ⟨span, ty, .methodDecl ⟨name, params, some expected, body⟩⟩ =
              ⟨span, ty, .methodDecl ⟨name, params, some expected, body⟩⟩ := by
            simp [returned, checkDecl, declared]
          rw [same]
          refine (or_iff_left ?_).symm
          rintro ⟨-, -, fits⟩
          have reference := reference_of_boxed_void fits
          rw [Ty.isVoid_iff.1 declared] at reference
          cases reference
        | false =>
          have made : returned classes ⟨span, ty, .methodDecl ⟨name, params, some expected, body⟩⟩ =
              ⟨span, ty, .methodDecl ⟨name, params, some expected,
                (checkBody classes span name expected body).1⟩⟩ := by
            simp [returned, checkDecl, declared]
          have plain : ∀ m ∈ body, .unbox ∉ m.voided Node.ty := fun m hm h =>
            boxed ((mem_voided_mk (by simp [Kind.label]) _ _).2 ⟨m, hm, h⟩)
          rw [made, whole, whole, mem_voided_checkBody plain declared]
    all_goals simp [Node.label, Kind.label] at method
  · have same : returned classes n = n := by
      obtain ⟨span, ty, kind⟩ := n
      cases kind
      case methodDecl => exact absurd rfl method
      all_goals rfl
    rw [same]
    refine (or_iff_left ?_).symm
    rintro ⟨-, expected, result, -⟩
    rw [results_other method] at result
    cases result

/-- The check of results boxes void results that fit, in a tree that converts void in this way alone. -/
theorem mem_voided_returns (n : Node) (boxed : ∀ c ∈ n.voided Node.ty, c = .box) (c : Conversion) :
    c ∈ (n.transform (returned classes)).voided Node.ty ↔
      c ∈ n.voided Node.ty ∨ c = .box ∧ ∃ m ∈ n.visible, ReturnsVoid classes Node.ty m := by
  induction n using Node.induct generalizing c with
  | h span ty kind ih =>
    rw [Node.transform_mk]
    have typed : (fun e : Node => (e.transform (returned classes)).ty) = Node.ty :=
      funext fun e => transform_returned_ty ..
    have own : voidConversion Node.ty ⟨span, ty, kind.map (Node.transform (returned classes))⟩ =
        voidConversion Node.ty ⟨span, ty, kind⟩ := by
      rw [voidConversion_map, typed]
    have result : ReturnsVoid classes Node.ty ⟨span, ty, kind.map (Node.transform (returned classes))⟩ ↔
        ReturnsVoid classes Node.ty ⟨span, ty, kind⟩ := by
      unfold ReturnsVoid
      rw [results_map, typed]
    by_cases stream : kind.label = "Stream"
    · cases kind
      case stream steps =>
        have none : ¬ ReturnsVoid classes Node.ty ⟨span, ty, .stream steps⟩ := by
          rintro ⟨expected, result, -⟩
          cases result
        show c ∈ Node.voided Node.ty
          ⟨span, ty, .stream (steps.map (·.map (Node.transform (returned classes))))⟩ ↔ _
        unfold Node.voided
        rw [gather_stream, gather_stream, Node.visible_stream]
        simp [voidConversion, none]
      all_goals simp [Kind.label] at stream
    · have stream' : (kind.map (Node.transform (returned classes))).label ≠ "Stream" := by
        rwa [Kind.label_map]
      have child (e : Node) (he : e ∈ kind.children) : ∀ c ∈ e.voided Node.ty, c = .box :=
        fun c hc => boxed c ((mem_voided_own stream ..).2 (.inr ⟨e, he, hc⟩))
      have beneath (c : Conversion) :
          c ∈ Node.voided Node.ty ⟨span, ty, kind.map (Node.transform (returned classes))⟩ ↔
            c ∈ Node.voided Node.ty ⟨span, ty, kind⟩ ∨
              c = .box ∧ ∃ e ∈ kind.children, ∃ m ∈ e.visible, ReturnsVoid classes Node.ty m := by
        rw [mem_voided_own stream', own, mem_voided_own stream, Kind.children_map, or_assoc,
          ← exists_of_each fun e he => ih e he (child e he) c]
        simp only [List.mem_map, exists_exists_and_eq_and]
      have plain : .unbox ∉
          Node.voided Node.ty ⟨span, ty, kind.map (Node.transform (returned classes))⟩ := by
        rw [beneath]
        rintro (h | ⟨h, -⟩)
        · cases boxed _ h
        · cases h
      rw [mem_voided_returned plain, beneath, result, exists_visible_mk stream, or_assoc, ← and_or_left,
        or_comm (b := ReturnsVoid classes Node.ty ⟨span, ty, kind⟩)]

theorem results_silent : Silent (Node.results Node.ty) where
  made n h := results_other fun method => by simp [method] at h
  typed span ty op lhs rhs := rfl
  operator n h := results_other fun method => by simp [method] at h

/-- Settling changes types alone of what decides on a result. -/
theorem returnsVoid_settle {cx : Context} (n : Node) :
    (∃ m ∈ (settle cx n).visible, ReturnsVoid classes Node.ty m) ↔
      ∃ m ∈ n.visible, ReturnsVoid classes (fun e => (settle cx e).ty) m := by
  have gathered (typing : Node → Option Ty) (n : Node) :
      (∃ m ∈ n.visible, ReturnsVoid classes typing m) ↔ ∃ expected,
        (expected, some .void) ∈ n.gather (Node.results typing) ∧
          classes.isSubtype Ty.void.boxed expected = true := by
    unfold ReturnsVoid Node.gather
    constructor
    · rintro ⟨m, hm, expected, result, fits⟩
      exact ⟨expected, List.mem_flatMap.2 ⟨m, hm, result⟩, fits⟩
    · rintro ⟨expected, result, fits⟩
      obtain ⟨m, hm, result⟩ := List.mem_flatMap.1 result
      exact ⟨m, hm, expected, result, fits⟩
  have settled : ownOver (Node.results Node.ty) (settle cx) = Node.results fun e => (settle cx e).ty :=
    funext fun _ => results_map ..
  rw [gathered, gathered, results_silent.gather_settle, settled]

end

/-! ## Analyses -/

/-- The tree converts a void value in this way. -/
def Node.ConvertsVoid (n : Node) (c : Conversion) : Prop :=
  ∃ m ∈ n.nodes, ∃ e, m.kind = .convert c e ∧ e.ty = some .void

theorem convertsVoid_iff {n : Node} (resolved : ∀ m ∈ n.visible, m.label ≠ "Stream") {c : Conversion} :
    n.ConvertsVoid c ↔ c ∈ n.voided Node.ty := by
  unfold Node.ConvertsVoid Node.voided Node.gather
  rw [Node.visible_eq_nodes resolved, List.mem_flatMap]
  refine exists_congr fun m => and_congr_right fun among => ?_
  obtain ⟨span, ty, kind⟩ := m
  constructor
  · rintro ⟨e, rfl, void⟩
    exact (mem_voidConversion_convert ..).2 ⟨rfl, void⟩
  · intro h
    by_cases convert : kind.label = "Convert"
    · cases kind
      case convert d e =>
        obtain ⟨rfl, void⟩ := (mem_voidConversion_convert ..).1 h
        exact ⟨e, rfl, void⟩
      all_goals simp [Kind.label] at convert
    · rw [voidConversion_other (n := ⟨span, ty, kind⟩) convert] at h
      cases h

open Resolve

/-- In trees that code can be made from void is boxed and not converted otherwise. It is boxed where
lowering boxes it, in a stream that is kept, and where a pass behind the navigation does. -/
theorem analysis_boxes_void_iff {s : Setup} (hs : s.Installed) {operators : OperatorTable}
    {env : Environment} {root : Node} (front : root.FrontEnd) {a : Analysis}
    (h : analyze (s.context operators env) root = .ok a) (emits : a.canEmit = true) :
    ∃ navigated ds, resolveNavigation (s.context operators env) root = (.ok navigated, ds) ∧
      ∀ c, a.root.ConvertsVoid c ↔ c = .box ∧
        ((∃ v, Kept (s.context operators env) root v ∧ BoxesVoid (s.context operators env) v) ∨
          ∃ n ∈ navigated.visible, TakesVoid (s.context operators env) n) := by
  obtain ⟨navigated, ds, hnav, hroot, new, -, hds⟩ := analyze_ok h
  obtain ⟨last, run, rfl⟩ := Resolve.resolveNavigation_ok hnav
  refine ⟨navigated, _, hnav, fun c => ?_⟩
  have silent : ∀ d ∈ last.diagnostics, ¬ d.IsStep := by
    intro d hd step
    refine Analysis.no_error (d := d) emits ?_ ?_
    · rw [hds, List.append_assoc]
      exact List.mem_append_left _ hd
    · obtain ⟨_, _, _, rfl⟩ := step
      rfl
  have keeps : KeepsTypes fun e => (settle (s.context operators env) e).ty := by
    intro n label
    simp only [List.mem_cons, List.not_mem_nil, or_false, not_or] at label
    exact settle_ty label.1 fun conditional => absurd conditional label.2
  have resolved (c : Conversion) :=
    resolved_voided (c := c) keeps hs.provided hs.callSlots front run silent
  have settled (c : Conversion) :
      c ∈ (settle (s.context operators env) navigated).voided Node.ty ↔ c = .box ∧
        ((∃ v, Kept (s.context operators env) root v ∧ BoxesVoid (s.context operators env) v) ∨
          ∃ n ∈ navigated.visible, SettlesVoid (s.context operators env) n) := by
    rw [mem_voided_settle, resolved, and_or_left]
  have takes : (∃ n ∈ navigated.visible, TakesVoid (s.context operators env) n) ↔
      (∃ n ∈ navigated.visible, SettlesVoid (s.context operators env) n) ∨
        ∃ n ∈ navigated.visible, ReturnsVoid (s.context operators env).classes
          (fun e => (settle (s.context operators env) e).ty) n := by
    simp only [TakesVoid, and_or_left, exists_or]
  rw [convertsVoid_iff (Analysis.no_stream (analysis_reported hs h) emits), hroot,
    mem_voided_returns _ (fun c hc => ((settled c).1 hc).1), settled, returnsVoid_settle, takes,
    ← and_or_left, or_assoc]

/-- A manifest with a method that returns nothing. -/
def logText : String :=
  "[[class]]\nname = \"Person\"\nmethods = [\x7b name = \"log\", returns = \"void\" \x7d]\n"

/-- A method that returns an object, as which the body gives the result of that method. -/
def logMethod : Node :=
  .ofKind (.methodDecl ⟨"m", [], some .object, [.ofKind (.call "log" [])]⟩)

def logContext (m : Manifest) : Context :=
  ((Setup.ofConfig {}).install m).context .standard { binding := .ofClass "Person" }

theorem logMethod_frontEnd : logMethod.FrontEnd := ⟨by decide, by decide, by decide⟩

theorem logMethod_analysed :
    ∃ m, Manifest.read "model" logText = .ok m ∧ ((Setup.ofConfig {}).install m).Installed ∧
      ∃ a, analyze (logContext m) logMethod = .ok a ∧ a.canEmit = true ∧
        .box ∈ a.root.voided Node.ty := by
  have computed : (Manifest.read "model" logText).toOption.any (fun m =>
      (analyze (logContext m) logMethod).toOption.any fun a =>
        a.canEmit && (a.root.voided Node.ty).contains .box) = true := by
    decide +kernel
  cases read : Manifest.read "model" logText with
  | error e =>
    rw [read] at computed
    cases computed
  | ok m =>
    rw [read] at computed
    refine ⟨m, rfl, .install (.ofConfig {}) read, ?_⟩
    cases run : analyze (logContext m) logMethod with
    | error fault => simp [run, Except.toOption] at computed
    | ok a =>
      simp only [Except.toOption, Option.any_some, run, Bool.and_eq_true, List.contains_iff_mem] at computed
      exact ⟨a, rfl, computed⟩

/-- What the analysis of that method boxes. -/
theorem analysis_boxes_void_log :
    ∃ m, Manifest.read "model" logText = .ok m ∧ ∃ a, analyze (logContext m) logMethod = .ok a ∧
      ∃ navigated ds, resolveNavigation (logContext m) logMethod = (.ok navigated, ds) ∧
        ∀ c, a.root.ConvertsVoid c ↔ c = .box ∧
          ((∃ v, Kept (logContext m) logMethod v ∧ BoxesVoid (logContext m) v) ∨
            ∃ n ∈ navigated.visible, TakesVoid (logContext m) n) := by
  obtain ⟨m, read, installed, a, h, emits, -⟩ := logMethod_analysed
  exact ⟨m, read, a, h, analysis_boxes_void_iff installed logMethod_frontEnd h emits⟩

/-- Code is made of the method, although nothing returns from the call that is boxed. -/
theorem analysis_converts_void :
    ∃ m, Manifest.read "model" logText = .ok m ∧ ((Setup.ofConfig {}).install m).Installed ∧
      logMethod.FrontEnd ∧ ∃ a, analyze (logContext m) logMethod = .ok a ∧ a.canEmit = true ∧
        a.root.ConvertsVoid .box := by
  obtain ⟨m, read, installed, a, h, emits, boxed⟩ := logMethod_analysed
  have resolved := Analysis.no_stream (analysis_reported installed h) emits
  exact ⟨m, read, installed, logMethod_frontEnd, a, h, emits, (convertsVoid_iff resolved).2 boxed⟩

end NavScript
