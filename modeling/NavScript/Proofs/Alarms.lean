import NavScript.Proofs.Growth
import NavScript.Proofs.Passes
import NavScript.Setup.Basic

/-!
# Operators that are reported

An operator is reported where it is left without a type over typed operands. Both of its chances are
over by then: the operator pass has looked for an implementation for the types its operands had at
that time, and widening has looked for numbers. The report is a false alarm where an implementation
exists for the types that the operands have in the end. This happens to an operand that only
widening gives its type to (`Misjudged`), as to a sum of numbers before a string.
-/

namespace NavScript

/-- The report of an operator over typed operands that has no type itself. -/
def operatorAlarm (n : Node) : List Diagnostic :=
  match n.kind with
  | .binary _ _ _ => Leftover.own n
  | _ => []

theorem operatorAlarm_quiet : Quiet operatorAlarm where
  made n h := by
    obtain ⟨span, ty, kind⟩ := n
    cases kind
    case binary => simp [Node.label, Kind.label] at h
    all_goals rfl
  typed span ty op lhs rhs := by simp [operatorAlarm, Leftover.own]

theorem mem_operatorAlarm {n : Node} {op : Operator} {left right : Ty} {span : Span} :
    .unresolvedOperator op left right span ∈ operatorAlarm n ↔
      ∃ lhs rhs, n = ⟨span, none, .binary op lhs rhs⟩ ∧ lhs.ty = some left ∧
        rhs.ty = some right := by
  obtain ⟨span', ty, kind⟩ := n
  constructor
  · intro h
    cases kind
    case binary op' lhs rhs =>
      simp only [operatorAlarm, Leftover.own] at h
      split at h
      · rename_i l r hl hr
        cases List.mem_singleton.1 h
        exact ⟨lhs, rhs, rfl, hl, hr⟩
      · cases h
    all_goals cases h
  · rintro ⟨lhs, rhs, heq, hl, hr⟩
    cases heq
    simp [operatorAlarm, Leftover.own, hl, hr]

theorem mem_leftovers_operator {n : Node} {op : Operator} {left right : Ty} {span : Span} :
    .unresolvedOperator op left right span ∈ leftovers n ↔
      .unresolvedOperator op left right span ∈ n.gather operatorAlarm := by
  rw [leftovers_eq]
  unfold Node.gather
  simp only [List.mem_flatMap]
  refine exists_congr fun m => and_congr_right fun _ => ?_
  obtain ⟨span', ty, kind⟩ := m
  cases kind
  case binary => exact Iff.rfl
  all_goals simp [operatorAlarm, Leftover.own]

variable {cx : Context}

/-- The alarm that an operator of a navigated tree raises in the end. -/
def settledAlarm (cx : Context) (n : Node) : List Diagnostic :=
  match n.kind with
  | .binary op lhs rhs =>
    if (OperatorCalls.callOf? cx n.span op (resolveOperators cx lhs)
        (resolveOperators cx rhs)).isNone && leavesOpen op (settle cx lhs).ty (settle cx rhs).ty then
      operatorAlarm ⟨n.span, n.ty, .binary op (settle cx lhs) (settle cx rhs)⟩
    else []
  | _ => []

/-- Boxing an operand is no concern of widening. -/
theorem gather_widen_boxed {α : Type} {own : Node → List α} (quiet : Quiet own) (n : Node) :
    Node.gather own (widenNumbers cx n.boxed) = Node.gather own (widenNumbers cx n) := by
  unfold Node.boxed
  split
  · split
    · unfold widenNumbers
      rw [Node.convertTo, Node.transform_mk]
      exact quiet.gather_convert ..
    · rfl
  · rfl

theorem gather_widen_callOf {α : Type} {own : Node → List α} (quiet : Quiet own) {span : Span}
    {op : Operator} {lhs rhs n : Node} (h : OperatorCalls.callOf? cx span op lhs rhs = some n) :
    Node.gather own (widenNumbers cx n) =
      Node.gather own (widenNumbers cx lhs) ++ Node.gather own (widenNumbers cx rhs) := by
  obtain ⟨left, right, -, -, ty, owner, method, rfl⟩ := callOf?_made h
  rw [widenNumbers_mk (by simp [Kind.label]), Kind.map, quiet.gather (by simp [Kind.label])]
  simp only [Kind.children, List.flatMap_cons, List.flatMap_nil, List.append_nil]
  split
  · rw [gather_widen_boxed quiet, gather_widen_boxed quiet]
  · rfl

/-- The alarms of a settled tree, read off the tree before. -/
theorem alarms_settle (n : Node) :
    Node.gather operatorAlarm (settle cx n) = n.gather (settledAlarm cx) := by
  have quiet := operatorAlarm_quiet
  induction n using Node.induct with
  | h span ty kind ih =>
    have children : (kind.map (settle cx)).children.flatMap (Node.gather operatorAlarm) =
        kind.children.flatMap (Node.gather (settledAlarm cx)) := by
      rw [Kind.children_map, List.flatMap_map, List.flatMap_def, List.flatMap_def,
        List.map_congr_left ih]
    have other (h : kind.label ≠ "Stream") (h' : kind.label ≠ "Binary")
        (h'' : kind.label ≠ "Conditional") : Node.gather operatorAlarm (settle cx ⟨span, ty, kind⟩) =
          Node.gather (settledAlarm cx) ⟨span, ty, kind⟩ := by
      have own : settledAlarm cx ⟨span, ty, kind⟩ = [] ∧
          operatorAlarm ⟨span, ty, kind.map (settle cx)⟩ = [] := by
        cases kind
        case binary => exact absurd rfl h'
        all_goals exact ⟨rfl, rfl⟩
      rw [settle_mk h', widenNumbers_of_quiet (by rw [Kind.label_map]; exact h')
        (by rw [Kind.label_map]; exact h''), gather_mk (by rw [Kind.label_map]; exact h), gather_mk h,
        own.1, own.2, children]
    cases kind
    case stream steps =>
      rw [settle_mk (by simp [Kind.label]), widenNumbers_of_quiet (by simp [Kind.label, Kind.map])
        (by simp [Kind.label, Kind.map]), Kind.map, gather_stream, gather_stream]
      rfl
    case conditional c t e =>
      rw [settle_mk (by simp [Kind.label]), gather_mk (by simp [Kind.label]), ← children]
      simp only [Kind.map, Kind.children, List.flatMap_cons, List.flatMap_nil, List.append_nil]
      cases ty with
      | none =>
        refine (quiet.gather_conditional ..).trans ?_
        rw [List.append_assoc]
        rfl
      | some ty =>
        show Node.gather operatorAlarm ⟨span, some ty, .conditional _ _ _⟩ = _
        rw [quiet.gather (by simp [Kind.label])]
        simp [Kind.children, settledAlarm]
    case binary op lhs rhs =>
      rw [gather_mk (by simp [Kind.label]), ← children]
      simp only [Kind.map, Kind.children, List.flatMap_cons, List.flatMap_nil, List.append_nil]
      rw [settle_binary]
      simp only [settledAlarm]
      split
      · rename_i call h
        simp only [h, Option.isNone_some, Bool.false_and, Bool.false_eq_true, if_false,
          List.nil_append]
        exact gather_widen_callOf quiet h
      · rename_i h
        simp only [h, Option.isNone_none, Bool.true_and]
        cases hopen : leavesOpen op (settle cx lhs).ty (settle cx rhs).ty with
        | true =>
          rw [binary_open hopen, gather_mk (by simp [Kind.label])]
          simp [Kind.children]
        | false =>
          rw [quiet.gather_binary_closed hopen]
          rfl
    all_goals exact other (by simp [Kind.label]) (by simp [Kind.label]) (by simp [Kind.label])

/-- An operator that no pass answers, over operands that have these types in the end. -/
structure Unanswered (cx : Context) (span : Span) (op : Operator) (lhs rhs : Node)
    (left right : Ty) : Prop where
  lhsTy : (settle cx lhs).ty = some left
  rhsTy : (settle cx rhs).ty = some right
  uncalled :
    OperatorCalls.callOf? cx span op (resolveOperators cx lhs) (resolveOperators cx rhs) = none
  unwidened : leavesOpen op (some left) (some right) = true

theorem mem_settledAlarm {n : Node} {op : Operator} {left right : Ty} {span : Span} :
    .unresolvedOperator op left right span ∈ settledAlarm cx n ↔
      ∃ lhs rhs, n = ⟨span, none, .binary op lhs rhs⟩ ∧
        Unanswered cx span op lhs rhs left right := by
  obtain ⟨span', ty, kind⟩ := n
  constructor
  · intro h
    cases kind
    case binary op' lhs rhs =>
      simp only [settledAlarm] at h
      split at h
      · rename_i hopen
        obtain ⟨_, _, heq, hl, hr⟩ := mem_operatorAlarm.1 h
        cases heq
        simp only [Bool.and_eq_true, Option.isNone_iff_eq_none, hl, hr] at hopen
        exact ⟨lhs, rhs, rfl, hl, hr, hopen.1, hopen.2⟩
      · cases h
    all_goals cases h
  · rintro ⟨lhs, rhs, heq, h⟩
    cases heq
    have hopen : ((OperatorCalls.callOf? cx span op (resolveOperators cx lhs)
        (resolveOperators cx rhs)).isNone &&
          leavesOpen op (settle cx lhs).ty (settle cx rhs).ty) = true := by
      rw [h.uncalled, h.lhsTy, h.rhsTy, h.unwidened]
      rfl
    simp only [settledAlarm, hopen, if_true]
    exact mem_operatorAlarm.2 ⟨_, _, rfl, h.lhsTy, h.rhsTy⟩

/-- Reported are the operators of the navigated tree that no pass answers. -/
theorem mem_analysis_operator {root navigated : Node} {ds new : List Diagnostic} {a : Analysis}
    (hnav : resolveNavigation cx root = (.ok navigated, ds))
    (hroot : a.root = (settle cx navigated).transform (returned cx.classes))
    (hnew : ∀ d ∈ new, d.IsReturn) (hds : a.diagnostics = ds ++ new ++ leftovers a.root)
    {op : Operator} {left right : Ty} {span : Span} :
    .unresolvedOperator op left right span ∈ a.diagnostics ↔
      ∃ lhs rhs, ⟨span, none, .binary op lhs rhs⟩ ∈ navigated.visible ∧
        Unanswered cx span op lhs rhs left right := by
  have step : .unresolvedOperator op left right span ∉ ds := by
    intro h
    obtain ⟨_, _, _, heq⟩ := Resolve.resolveNavigation_steps hnav _ h
    cases heq
  have result : .unresolvedOperator op left right span ∉ new := by
    intro h
    rcases hnew _ h with ⟨_, _, _, _, heq⟩ | ⟨_, _, _, heq⟩ <;> cases heq
  have same (span : Span) (ty : Option Ty) (kind : Kind Node) :
      operatorAlarm ⟨span, ty, kind.map (Node.transform (returned cx.classes))⟩ =
        operatorAlarm ⟨span, ty, kind⟩ := by
    cases kind
    case binary => simp only [operatorAlarm, Leftover.own, Kind.map, transform_returned_ty]
    all_goals rfl
  have alarms : Node.gather operatorAlarm a.root = navigated.gather (settledAlarm cx) := by
    rw [hroot, gather_transform same (operatorAlarm_quiet.gather_returned fun _ _ _ => rfl)]
    exact alarms_settle navigated
  rw [hds, List.mem_append, List.mem_append, mem_leftovers_operator, alarms]
  simp only [step, result, false_or, Node.gather, List.mem_flatMap, mem_settledAlarm]
  constructor
  · rintro ⟨n, hn, lhs, rhs, rfl, h⟩
    exact ⟨lhs, rhs, hn, h⟩
  · rintro ⟨lhs, rhs, hn, h⟩
    exact ⟨_, hn, lhs, rhs, rfl, h⟩

/-- An operator is reported although the types of its operands have an implementation, or are both
numbers: the operator pass saw other types, or the operator is none of numbers. -/
def Misjudged (cx : Context) (n : Node) : Prop :=
  ∃ span op lhs rhs left right, n = ⟨span, none, .binary op lhs rhs⟩ ∧
    Unanswered cx span op lhs rhs left right ∧
    (((resolveOperators cx lhs).ty, (resolveOperators cx rhs).ty) ≠ (some left, some right) ∧
        (OperatorCalls.implementation? cx op left right).isSome ∨
      (op = .elvis ∨ op = .instanceOf) ∧ (NumericKind.ofOperand? left).isSome ∧
        (NumericKind.ofOperand? right).isSome)

/-- What the operator pass does not answer by the types that the operands have in the end has no
implementation for them. -/
theorem Unanswered.implementation {span : Span} {op : Operator} {lhs rhs : Node} {left right : Ty}
    (h : Unanswered cx span op lhs rhs left right)
    (hl : (resolveOperators cx lhs).ty = some left)
    (hr : (resolveOperators cx rhs).ty = some right) :
    OperatorCalls.implementation? cx op left right = none := by
  have hopen := h.unwidened
  simp only [leavesOpen, Bool.and_eq_true, Bool.not_eq_true'] at hopen
  have hcall := h.uncalled
  rw [callOf?_typed cx span op hl hr, hopen.2.1] at hcall
  exact Option.map_eq_none_iff.1 hcall

/-- Numbers that widening leaves alone stand at an operator that is none of numbers. -/
theorem Unanswered.numbers {span : Span} {op : Operator} {lhs rhs : Node} {left right : Ty}
    (h : Unanswered cx span op lhs rhs left right) (hl : (NumericKind.ofOperand? left).isSome)
    (hr : (NumericKind.ofOperand? right).isSome) : op = .elvis ∨ op = .instanceOf := by
  have hopen := h.unwidened
  simp only [leavesOpen, Bool.and_eq_true, Bool.not_eq_true', OperatorCalls.isNumeric, hl, hr,
    Bool.true_and] at hopen
  cases op <;> simp_all [Operator.isLogical, Operator.isArithmetic, Operator.isComparison]

/-- No report of an operator is a false alarm exactly where none of the operators outside streams is
misjudged. -/
theorem operator_alarms_true_iff {root : Node} {a : Analysis} (h : analyze cx root = .ok a) :
    ∃ navigated ds, resolveNavigation cx root = (.ok navigated, ds) ∧
      ((∀ op left right span, .unresolvedOperator op left right span ∈ a.diagnostics →
          OperatorCalls.implementation? cx op left right = none ∧
            ¬((NumericKind.ofOperand? left).isSome ∧ (NumericKind.ofOperand? right).isSome)) ↔
        ∀ n ∈ navigated.visible, ¬ Misjudged cx n) := by
  obtain ⟨navigated, ds, hnav, hroot, new, hnew, hds⟩ := analyze_ok h
  refine ⟨navigated, ds, hnav, ?_⟩
  constructor
  · rintro htrue n hn ⟨span, op, lhs, rhs, left, right, rfl, hopen, hfalse⟩
    have hmem := (mem_analysis_operator hnav hroot hnew hds).2 ⟨lhs, rhs, hn, hopen⟩
    obtain ⟨himpl, hnumbers⟩ := htrue op left right span hmem
    rcases hfalse with ⟨-, hsome⟩ | ⟨-, hkinds⟩
    · rw [himpl] at hsome
      cases hsome
    · exact hnumbers hkinds
  · intro hjudged op left right span hmem
    obtain ⟨lhs, rhs, hn, hopen⟩ := (mem_analysis_operator hnav hroot hnew hds).1 hmem
    have hnot := hjudged _ hn
    constructor
    · cases himpl : OperatorCalls.implementation? cx op left right with
      | none => rfl
      | some impl =>
        refine absurd ⟨span, op, lhs, rhs, left, right, rfl, hopen, .inl ⟨?_, ?_⟩⟩ hnot
        · intro heq
          simp only [Prod.mk.injEq] at heq
          rw [hopen.implementation heq.1 heq.2] at himpl
          cases himpl
        · rw [himpl]
          rfl
    · rintro ⟨hl, hr⟩
      exact hnot ⟨span, op, lhs, rhs, left, right, rfl, hopen, .inr ⟨hopen.numbers hl hr, hl, hr⟩⟩

/-- The setup without manifests. -/
def bareContext : Context := (Setup.ofConfig {}).context .standard {}

def sumOf (lhs rhs : Node) : Node := .ofKind (.binary .add lhs rhs)

def oneOf : Node := .ofLiteral (.int ⟨1, by decide, by decide⟩)

def twoOf : Node := .ofLiteral (.int ⟨2, by decide, by decide⟩)

def textOf : Node := .ofLiteral (.string "s")

/-- Of a number and a text the alarms are decided by the operators there are. -/
theorem operator_alarms_number_text :
    ∃ a, analyze bareContext (sumOf oneOf textOf) = .ok a ∧
      ∃ navigated ds, resolveNavigation bareContext (sumOf oneOf textOf) = (.ok navigated, ds) ∧
        ((∀ op left right span, .unresolvedOperator op left right span ∈ a.diagnostics →
            OperatorCalls.implementation? bareContext op left right = none ∧
              ¬((NumericKind.ofOperand? left).isSome ∧ (NumericKind.ofOperand? right).isSome)) ↔
          ∀ n ∈ navigated.visible, ¬ Misjudged bareContext n) :=
  ⟨_, rfl, operator_alarms_true_iff rfl⟩

/-- A sum of numbers before a text is reported, although numbers and texts are concatenated. -/
theorem operator_alarm_sum_text :
    analyze bareContext (sumOf (sumOf oneOf oneOf) textOf) =
        .ok ⟨sumOf twoOf textOf, [.unresolvedOperator .add (.prim .int) .string .synthetic]⟩ ∧
      (OperatorCalls.implementation? bareContext .add (.prim .int) .string).isSome = true :=
  ⟨rfl, rfl⟩

end NavScript
