import NavScript.Proofs.Passes
import NavScript.Proofs.Survey

/-!
# The later passes keep the depth of the stack

Surveys without labels are about the depth of the stack only (`Node.depth`). The passes behind the
navigation put conversions around operands, branches and results or take them away, which makes no
difference to it, and a constant leaves as much as the operator that it is folded from.
-/

namespace NavScript

namespace Course

variable {V : Type} {f g h : Course V} {frame : List V} {v : V}

theorem andThen_assoc : (f.andThen g).andThen h = f.andThen (g.andThen h) := by
  funext frame
  unfold andThen
  cases f frame with
  | none => rfl
  | some mid =>
    simp only [Option.bind_some]
    cases g mid.1 with
    | none => rfl
    | some last =>
      simp only [Option.map_some, Option.bind_some, Option.map_map, Function.comp_def, Bool.and_assoc]

theorem relabel_drop : (relabel v).andThen drop = drop := by
  funext frame
  cases frame <;> rfl

/-- What replaces the value that is left does not matter to what takes it. -/
theorem andThen_relabel_drop : (f.andThen (relabel v)).andThen drop = f.andThen drop := by
  rw [andThen_assoc, relabel_drop]

theorem stay_andThen : (stay (V := V)).andThen f = f := by
  funext frame
  unfold andThen stay
  simp only [Option.bind_some, Bool.true_and]
  cases f frame <;> rfl

theorem alone_push : alone (push v) = stay := by
  funext frame
  rfl

theorem andThen_drop_some {r : List V × Bool} :
    f.andThen drop frame = some r ↔ ∃ u, f frame = some (u :: r.1, r.2) := by
  constructor
  · intro run
    obtain ⟨mid, a, last, b, hf, hdrop, rfl⟩ := andThen_some run
    cases mid with
    | nil => cases hdrop
    | cons u rest =>
      cases hdrop
      exact ⟨u, by rw [hf, Bool.and_true]⟩
  · rintro ⟨u, hf⟩
    exact andThen_drop hf

/-- A chain of its own is known by what is left when its value is taken. -/
theorem alone_congr (same : f.andThen drop = g.andThen drop) : alone f = alone g := by
  have implies {f g : Course V} (same : f.andThen drop = g.andThen drop) {frame : List V}
      {r : List V × Bool} (run : alone f frame = some r) : alone g frame = some r := by
    obtain ⟨u, a, hf, rfl⟩ := alone_some run
    have dropped : g.andThen drop [] = some ([], a) := by
      rw [← same]
      exact andThen_drop hf
    obtain ⟨w, hg⟩ := andThen_drop_some.1 dropped
    exact alone_eq hg
  funext frame
  exact Option.ext fun r => ⟨implies same, implies same.symm⟩

theorem either_congr [DecidableEq V] {f' g' : Course V} (hf : f.andThen drop = f'.andThen drop)
    (hg : g.andThen drop = g'.andThen drop) : either f g v = either f' g' v := by
  have implies {f g f' g' : Course V} (hf : f.andThen drop = f'.andThen drop)
      (hg : g.andThen drop = g'.andThen drop) {frame : List V} {r : List V × Bool}
      (run : either f g v frame = some r) : either f' g' v frame = some r := by
    obtain ⟨u, w, mid, a, b, left, right, rfl⟩ := either_some run
    have left' : f'.andThen drop frame = some (mid, a) := by
      rw [← hf]
      exact andThen_drop left
    have right' : g'.andThen drop frame = some (mid, b) := by
      rw [← hg]
      exact andThen_drop right
    obtain ⟨u', left'⟩ := andThen_drop_some.1 left'
    obtain ⟨w', right'⟩ := andThen_drop_some.1 right'
    exact either_eq left' right'
  funext frame
  exact Option.ext fun r => ⟨implies hf hg, implies hf.symm hg.symm⟩

end Course

open Course

section

variable {n m : Node} {env : List (String × Unit)}

/-- Labels that say nothing. -/
def unlabelled : Option Ty → Unit := fun _ => ()

/-- What a node makes of the depth of the stack. -/
abbrev Node.depth (n : Node) (env : List (String × Unit)) : Course Unit := n.survey unlabelled env

theorem depth_convert (span : Span) (ty : Option Ty) (c : Conversion) (n : Node) :
    Node.depth ⟨span, ty, .convert c n⟩ env = (n.depth env).andThen (relabel ()) :=
  survey_mk ..

theorem Converted.dropped (h : Converted n m) :
    (m.depth env).andThen drop = (n.depth env).andThen drop := by
  induction h with
  | refl => rfl
  | convert h span ty c ih =>
    rw [depth_convert, andThen_relabel_drop]
    exact ih

theorem Converted.alone (h : Converted n m) :
    Course.alone (m.depth env) = Course.alone (n.depth env) :=
  alone_congr h.dropped

/-- Sheets without labels are known by their courses. -/
theorem sheet_ext (declares : n.label = "MethodDecl" ↔ m.label = "MethodDecl")
    (same : ∀ env, n.depth env = m.depth env) : n.sheet unlabelled = m.sheet unlabelled := by
  have course : (n.sheet unlabelled).course = (m.sheet unlabelled).course := funext same
  have declared : (n.sheet unlabelled).declares = (m.sheet unlabelled).declares := by
    rw [sheet_declares, sheet_declares, Bool.eq_iff_iff, beq_iff_eq, beq_iff_eq]
    exact declares
  exact Sheet.ext rfl rfl declared course

theorem depth_binary (span : Span) (ty : Option Ty) (op : Operator) (l r : Node) :
    Node.depth ⟨span, ty, .binary op l r⟩ env =
      ((Course.alone (l.depth env)).andThen (Course.alone (r.depth env))).andThen (push ()) :=
  survey_mk ..

theorem depth_operatorCall (span : Span) (ty : Option Ty) (owner : Ty) (method : String)
    (l r : Node) : Node.depth ⟨span, ty, .operatorCall owner method l r⟩ env =
      ((Course.alone (l.depth env)).andThen (Course.alone (r.depth env))).andThen (push ()) :=
  survey_mk ..

theorem depth_conditional (span : Span) (ty : Option Ty) (c t e : Node) :
    Node.depth ⟨span, ty, .conditional c t e⟩ env =
      ((c.depth env).andThen drop).andThen (either (t.depth env) (e.depth env) ()) :=
  survey_mk ..

theorem depth_literal (h : n.isLiteral = true) : n.depth env = push () := by
  obtain ⟨span, ty, kind⟩ := n
  cases kind
  case literal => exact survey_mk ..
  all_goals cases h

theorem depth_operatorStep (cx : Context) (n : Node) :
    (OperatorCalls.step cx n).sheet unlabelled = n.sheet unlabelled := by
  obtain ⟨span, ty, kind⟩ := n
  cases kind
  case binary op l r =>
    show Node.sheet _ ((OperatorCalls.callOf? cx span op l r).getD ⟨span, ty, .binary op l r⟩) = _
    cases h : OperatorCalls.callOf? cx span op l r with
    | none => rfl
    | some call =>
      obtain ⟨left, right, -, -, callTy, owner, method, rfl⟩ := callOf?_made h
      refine sheet_ext (by simp [Node.label, Kind.label]) fun env => ?_
      rw [Option.getD_some, depth_operatorCall, depth_binary]
      split
      · rw [l.boxed_converted.alone, r.boxed_converted.alone]
      · rfl
  all_goals rfl

open Widening

/-- A constant that is folded leaves as much as the operator over constants. -/
theorem depth_constants {span : Span} {op : Operator} {kind : NumericKind} {t : Ty} {l r made : Node}
    (h : constants? span op kind t l r = some made) (ty : Option Ty) :
    made.sheet unlabelled = Node.sheet unlabelled ⟨span, ty, .binary op l r⟩ := by
  have operands (span : Span) (ty : Option Ty) (l r : Node) (hl : l.isLiteral = true)
      (hr : r.isLiteral = true) (env : List (String × Unit)) :
      Node.depth ⟨span, ty, .binary op l r⟩ env = push () := by
    rw [depth_binary, depth_literal hl, depth_literal hr, alone_push, stay_andThen, stay_andThen]
  have literal {n : Node} {lit : Literal} (h : n.kind = .literal lit) : n.isLiteral = true := by
    unfold Node.isLiteral
    rw [h]
  obtain ⟨a, b, hl, hr, ⟨value, rfl⟩ | ⟨a', b', rfl, -⟩⟩ := constants?_made h
  · refine sheet_ext (by simp [Node.label, Kind.label, Node.withSpan, Node.ofLiteral]) fun env => ?_
    rw [operands span ty l r (literal hl) (literal hr)]
    exact depth_literal rfl
  · refine sheet_ext (by simp [Node.label, Kind.label]) fun env => ?_
    rw [operands span ty l r (literal hl) (literal hr)]
    exact operands _ _ _ _ rfl rfl env

theorem depth_numeric (fold : Bool) (span : Span) (ty : Option Ty) (op : Operator)
    (kind : NumericKind) (l r : Node) :
    (numeric fold span op kind l r).sheet unlabelled =
      Node.sheet unlabelled ⟨span, ty, .binary op l r⟩ := by
  obtain ⟨t, -, made | made⟩ := numeric_made fold span op kind l r
  · exact depth_constants made ty
  · rw [made]
    refine sheet_ext (by simp [Node.label, Kind.label]) fun env => ?_
    rw [depth_binary, depth_binary, (bringTo_converted l kind).alone, (bringTo_converted r kind).alone]

theorem depth_widenedBinary (fold : Bool) (span : Span) (ty : Option Ty) (op : Operator) (l r : Node) :
    (binary fold span ty op l r).sheet unlabelled =
      Node.sheet unlabelled ⟨span, ty, .binary op l r⟩ := by
  cases hopen : leavesOpen op l.ty r.ty with
  | true => rw [binary_open hopen]
  | false =>
    obtain made | ⟨kind, made⟩ := binary_closed fold span ty hopen <;> rw [made]
    · exact sheet_ext (by simp [Node.label, Kind.label]) fun env => by rw [depth_binary, depth_binary]
    · exact depth_numeric ..

theorem depth_widenedConditional (classes : ClassTable) (span : Span) (ty : Option Ty) (c t e : Node) :
    (conditional classes span c t e).sheet unlabelled =
      Node.sheet unlabelled ⟨span, ty, .conditional c t e⟩ := by
  have converted {t' e' : Node} (ht : Converted t t') (he : Converted e e') (ty' : Option Ty) :
      Node.sheet unlabelled ⟨span, ty', .conditional c t' e'⟩ =
        Node.sheet unlabelled ⟨span, ty, .conditional c t e⟩ := by
    refine sheet_ext (by simp [Node.label, Kind.label]) fun env => ?_
    rw [depth_conditional, depth_conditional, either_congr ht.dropped he.dropped]
  obtain ⟨made, -⟩ | ⟨left, right, -, -, ⟨-, made⟩ | ⟨-, ⟨kind, -, -, made⟩ | made⟩⟩ :=
    conditional_made classes span c t e <;> rw [made]
  · exact converted .refl .refl _
  · exact converted .refl .refl _
  · exact converted (bringTo_converted ..) (bringTo_converted ..) _
  · exact converted (boxedFor_converted ..) (boxedFor_converted ..) _

theorem depth_widenStep (cx : Context) (n : Node) :
    (Widening.step cx n).sheet unlabelled = n.sheet unlabelled := by
  obtain ⟨span, ty, kind⟩ := n
  cases kind
  case binary => exact depth_widenedBinary ..
  case conditional =>
    cases ty with
    | none => exact depth_widenedConditional ..
    | some ty => rfl
  all_goals rfl

open Returns

/-- A result that converts, or is rejected, leaves what it left. -/
theorem alone_result {classes : ClassTable} {expected found : Ty} {value : Node}
    (h : Returns.convert classes expected found value = .ok n ∨
      Returns.convert classes expected found value = .error n) :
    Course.alone (n.depth env) = Course.alone (value.depth env) := by
  have unboxed : Course.alone ((unboxFor expected found value).1.depth env) =
      Course.alone (value.depth env) := (unboxFor_converted expected found value).alone
  obtain rfl | rfl | rfl | ⟨c, t, rfl⟩ := convert_made h
  · rfl
  · exact unboxed
  · rw [← (beforeUnbox_converted _).alone, unboxed]
  · rw [(Converted.refl.convertTo ..).alone, unboxed]

theorem depth_checkBody (classes : ClassTable) (span : Span) (method : String) (expected : Ty)
    (body : List Node) :
    all ((checkBody classes span method expected body).1.map fun n => Course.alone (n.depth env)) =
      all (body.map fun n => Course.alone (n.depth env)) := by
  obtain ⟨rfl, made | made⟩ | ⟨before, last, value, rfl, made, ⟨-, rfl⟩ | ⟨found, -, result⟩⟩ :=
    checkBody_made classes span method expected body <;> rw [made]
  · have null : ((Node.nullOf expected).withSpan span).depth env = push () := depth_literal rfl
    rw [List.map_singleton, null, alone_push]
    show stay.andThen stay = stay
    exact stay_andThen
  · simp only [List.map_append, List.map_singleton, alone_result result]

theorem depth_methodDecl (span : Span) (ty : Option Ty) (d : Method Node) :
    Node.depth ⟨span, ty, .methodDecl d⟩ env =
      all (d.body.map fun n => Course.alone (n.depth env)) := by
  refine (survey_mk ..).trans ?_
  simp only [Kind.map, surveyKind, List.map_map]
  rfl

theorem depth_returned (classes : ClassTable) (n : Node) :
    (returned classes n).sheet unlabelled = n.sheet unlabelled := by
  obtain ⟨span, ty, kind⟩ := n
  cases kind
  case methodDecl d =>
    show Node.sheet unlabelled ⟨span, ty, .methodDecl (Returns.checkDecl classes span d).1⟩ = _
    refine sheet_ext (by simp [Node.label, Kind.label]) fun env => ?_
    rw [depth_methodDecl, depth_methodDecl]
    unfold Returns.checkDecl
    split
    · rfl
    · split
      · rfl
      · exact depth_checkBody ..
  all_goals rfl

theorem depth_transform {f : Node → Node} (step : ∀ n, (f n).sheet unlabelled = n.sheet unlabelled)
    (n : Node) : (n.transform f).sheet unlabelled = n.sheet unlabelled := by
  induction n using Node.induct with
  | h span ty kind ih =>
    rw [Node.transform_mk, step, sheet_mk, sheet_mk, Kind.map_map, Kind.label_map,
      Kind.map_congr ih]

/-- The passes behind the navigation keep the depth of the stack. -/
theorem depth_passes (cx : Context) (n : Node) :
    ((settle cx n).transform (returned cx.classes)).sheet unlabelled = n.sheet unlabelled := by
  rw [depth_transform (depth_returned cx.classes)]
  unfold settle widenNumbers resolveOperators
  rw [depth_transform (depth_widenStep cx), depth_transform (depth_operatorStep cx)]

end

end NavScript
