import NavScript.Proofs.Exposed
import NavScript.Proofs.Passes

/-!
# The regions of diagnostics

The passes behind the navigation put conversions around nodes and take the place of operators, but what
their trees expose was exposed before (`settle_sited`), and a node that is taken out of an unboxing has
been exposed in it. So each diagnostic of an analysis is about a region of the tree that it was given,
and none is about a synthetic one unless that tree has such.
-/

namespace NavScript

variable {S : Span → Prop}

namespace Hereditary

variable {P : Node → Prop} (h : Hereditary P)
include h

/-- Conversions make no difference. -/
theorem converted {n m : Node} (hm : Converted n m) : P m ↔ P n := by
  induction hm with
  | refl => exact Iff.rfl
  | convert _ span ty c ih =>
    rw [h.iff rfl, ← ih]
    exact ⟨fun all => all _ (List.mem_singleton.2 rfl), fun hm _ hc => List.mem_singleton.1 hc ▸ hm⟩

theorem branches {c t e : Node} (hc : P c) (ht : P t) (he : P e) (classes : ClassTable) (span : Span) :
    P (Widening.conditional classes span c t e) := by
  have both {t' e' : Node} (t : Converted t t') (e : Converted e e') (ty : Option Ty) :
      P ⟨span, ty, .conditional c t' e'⟩ :=
    h.conditional hc ((h.converted t).2 ht) ((h.converted e).2 he) _ _
  obtain ⟨made, -⟩ | ⟨left, right, -, -, ⟨-, made⟩ | ⟨-, ⟨kind, -, -, made⟩ | made⟩⟩ :=
    conditional_made classes span c t e <;> rw [made]
  · exact both .refl .refl _
  · exact both .refl .refl _
  · exact both (Widening.bringTo_converted ..) (Widening.bringTo_converted ..) _
  · exact both (Widening.boxedFor_converted ..) (Widening.boxedFor_converted ..) _

theorem result {classes : ClassTable} {expected found : Ty} {value n : Node} (hvalue : P value)
    (made : Returns.convert classes expected found value = .ok n ∨
      Returns.convert classes expected found value = .error n) : P n := by
  have unboxed := Returns.unboxFor_converted expected found value
  obtain rfl | rfl | rfl | ⟨c, t, rfl⟩ := convert_made made
  · exact hvalue
  · exact (h.converted unboxed).2 hvalue
  · exact (h.converted (Returns.beforeUnbox_converted _)).1 ((h.converted unboxed).2 hvalue)
  · exact (h.converted (unboxed.convertTo ..)).2 hvalue

/-- The nodes of a body have what they had before its result was checked. -/
theorem body (classes : ClassTable) (span : Span) (method : String) (expected : Ty) {body : List Node}
    (hbody : ∀ c ∈ body, P c) :
    ∀ c ∈ (Returns.checkBody classes span method expected body).1, P c := by
  obtain ⟨rfl, made | made⟩ | ⟨before, last, value, rfl, made, result⟩ :=
    checkBody_made classes span method expected body <;> rw [made]
  · exact hbody
  · exact fun c hc => List.mem_singleton.1 hc ▸ h.leaf rfl rfl _ _
  · have hlast : P last := hbody last (List.mem_append_right _ (List.mem_singleton.2 rfl))
    have hvalue : P value := by
      obtain ⟨-, rfl⟩ | ⟨found, -, result⟩ := result
      · exact hlast
      · exact h.result hlast result
    intro c hc
    rcases List.mem_append.1 hc with hc | hc
    · exact hbody c (List.mem_append_left _ hc)
    · exact List.mem_singleton.1 hc ▸ hvalue

end Hereditary

/-- Operators stand where they are, over operands that stand. -/
theorem sited_binary {span : Span} {ty : Option Ty} {op : Operator} {lhs rhs : Node} :
    Node.Sited Node.exposed S ⟨span, ty, .binary op lhs rhs⟩ ↔
      S span ∧ lhs.Sited Node.exposed S ∧ rhs.Sited Node.exposed S := by
  rw [sited_mk]
  simp [Node.exposed, Node.unmeant, Node.judged, Kind.children]

theorem sited_operatorStep (cx : Context) (n : Node) (h : n.Sited Node.exposed S) :
    (OperatorCalls.step cx n).Sited Node.exposed S := by
  obtain ⟨span, ty, kind⟩ := n
  cases kind
  case binary op lhs rhs =>
    show Node.Sited _ _ ((OperatorCalls.callOf? cx span op lhs rhs).getD ⟨span, ty, .binary op lhs rhs⟩)
    cases call : OperatorCalls.callOf? cx span op lhs rhs with
    | none => exact h
    | some made =>
      obtain ⟨left, right, -, -, ty, owner, method, rfl⟩ := callOf?_made call
      obtain ⟨-, hl, hr⟩ := sited_binary.1 h
      refine sited_mk.2 ⟨fun _ hs => absurd hs List.not_mem_nil, fun c hc => ?_⟩
      have boxed {n : Node} (hn : n.Sited Node.exposed S) : n.boxed.Sited Node.exposed S :=
        (exposed_hereditary.converted n.boxed_converted).2 hn
      rcases List.mem_cons.1 hc with rfl | hc
      · split
        · exact boxed hl
        · exact hl
      · rw [List.mem_singleton.1 hc]
        split
        · exact boxed hr
        · exact hr
  all_goals exact h

theorem sited_numeric (fold : Bool) {span : Span} {lhs rhs : Node} (hs : S span)
    (hl : lhs.Sited Node.exposed S) (hr : rhs.Sited Node.exposed S) (op : Operator)
    (kind : NumericKind) : (Widening.numeric fold span op kind lhs rhs).Sited Node.exposed S := by
  have leaf (lit : Literal) (span : Span) :
      ((Node.ofLiteral lit).withSpan span).Sited Node.exposed S := exposed_hereditary.leaf rfl rfl _ _
  obtain ⟨ty, -, made | made⟩ := numeric_made fold span op kind lhs rhs
  · obtain ⟨l, r, -, -, ⟨value, folded⟩ | ⟨l', r', folded, -⟩⟩ := constants?_made made
    · rw [folded]
      exact leaf value span
    · rw [folded]
      exact sited_binary.2 ⟨hs, leaf l' _, leaf r' _⟩
  · rw [made]
    have left := (exposed_hereditary.converted (Widening.bringTo_converted lhs kind)).2 hl
    have right := (exposed_hereditary.converted (Widening.bringTo_converted rhs kind)).2 hr
    exact sited_binary.2 ⟨hs, left, right⟩

theorem sited_wideningStep (cx : Context) (n : Node) (h : n.Sited Node.exposed S) :
    (Widening.step cx n).Sited Node.exposed S := by
  obtain ⟨span, ty, kind⟩ := n
  cases kind
  case binary op lhs rhs =>
    show Node.Sited _ _ (Widening.binary cx.config.foldLiterals span ty op lhs rhs)
    obtain ⟨hs, hl, hr⟩ := sited_binary.1 h
    cases opened : leavesOpen op lhs.ty rhs.ty with
    | true =>
      rw [binary_open opened]
      exact h
    | false =>
      obtain made | ⟨kind, made⟩ := binary_closed cx.config.foldLiterals span ty opened
      · rw [made]
        exact sited_binary.2 ⟨hs, hl, hr⟩
      · rw [made]
        exact sited_numeric _ hs hl hr op kind
  case conditional c t e =>
    cases ty with
    | some ty => exact h
    | none =>
      have parts := (exposed_hereditary.iff rfl _ _).1 h
      simp only [Kind.children, List.forall_mem_cons] at parts
      exact exposed_hereditary.branches parts.1 parts.2.1 parts.2.2.1 _ _
  all_goals exact h

/-- A change that shows of each node what the node showed does so of trees. -/
theorem transform_shown {f : Node → Node} (keeps : ∀ n, (f n).shown = n.shown) (n : Node) :
    (n.transform f).shown = n.shown := by
  have spans (m : Node) : (m.transform f).span = m.span := by
    obtain ⟨span, ty, kind⟩ := m
    rw [Node.transform_mk]
    exact (List.cons.inj (keeps _)).1
  obtain ⟨span, ty, kind⟩ := n
  rw [Node.transform_mk, keeps]
  cases kind
  case convert c e => cases c <;> simp [Node.shown, Returns.beforeUnbox, Kind.map, spans]
  all_goals rfl

theorem operatorStep_shown (cx : Context) (n : Node) : (OperatorCalls.step cx n).shown = n.shown := by
  obtain ⟨span, ty, kind⟩ := n
  cases kind
  case binary op lhs rhs =>
    show ((OperatorCalls.callOf? cx span op lhs rhs).getD ⟨span, ty, .binary op lhs rhs⟩).shown = _
    cases call : OperatorCalls.callOf? cx span op lhs rhs with
    | none => rfl
    | some made =>
      obtain ⟨left, right, -, -, ty, owner, method, rfl⟩ := callOf?_made call
      rfl
  all_goals rfl

theorem wideningStep_shown (cx : Context) (n : Node) : (Widening.step cx n).shown = n.shown := by
  obtain ⟨span, ty, kind⟩ := n
  cases kind
  case binary op lhs rhs =>
    show (Widening.binary cx.config.foldLiterals span ty op lhs rhs).shown = [span, span]
    cases opened : leavesOpen op lhs.ty rhs.ty with
    | true =>
      rw [binary_open opened]
      rfl
    | false =>
      obtain made | ⟨kind, made⟩ := binary_closed cx.config.foldLiterals span ty opened
      · rw [made]
        rfl
      · rw [made]
        obtain ⟨ty, -, made | made⟩ := numeric_made cx.config.foldLiterals span op kind lhs rhs
        · obtain ⟨l, r, -, -, ⟨value, folded⟩ | ⟨l', r', folded, -⟩⟩ := constants?_made made
          · rw [folded]
            rfl
          · rw [folded]
            rfl
        · rw [made]
          rfl
  case conditional c t e =>
    cases ty with
    | some ty => rfl
    | none =>
      show (Widening.conditional cx.classes span c t e).shown = [span, span]
      obtain ⟨made, -⟩ | ⟨left, right, -, -, ⟨-, made⟩ | ⟨-, ⟨kind, -, -, made⟩ | made⟩⟩ :=
        conditional_made cx.classes span c t e <;> rw [made] <;> rfl
  all_goals rfl

theorem returned_shown (classes : ClassTable) (n : Node) : (returned classes n).shown = n.shown := by
  obtain ⟨span, ty, kind⟩ := n
  cases kind <;> rfl

/-- A change that keeps exposed regions node by node does so of trees. -/
theorem Node.Sited.transform {own : Node → List Span} {f : Node → Node} {n : Node}
    (h : n.Sited own S)
    (same : ∀ span ty kind, own ⟨span, ty, kind.map (Node.transform f)⟩ = own ⟨span, ty, kind⟩)
    (step : ∀ m, m.Sited own S → (f m).Sited own S) : (n.transform f).Sited own S := by
  induction n using Node.induct with
  | h span ty kind ih =>
    obtain ⟨here, children⟩ := sited_mk.1 h
    rw [Node.transform_mk]
    refine step _ (sited_mk.2 ⟨by rwa [same], fun c hc => ?_⟩)
    rw [Kind.children_map] at hc
    obtain ⟨d, hd, rfl⟩ := List.mem_map.1 hc
    exact ih d hd (children d hd)

theorem settle_sited (cx : Context) {n : Node} (h : n.Sited Node.exposed S) :
    (settle cx n).Sited Node.exposed S := by
  have called : (resolveOperators cx n).Sited Node.exposed S :=
    h.transform (exposed_map (transform_shown (operatorStep_shown cx))) (sited_operatorStep cx)
  exact called.transform (exposed_map (transform_shown (wideningStep_shown cx))) (sited_wideningStep cx)

theorem returned_sited (classes : ClassTable) {n : Node} (h : n.Sited Node.unmeant S) :
    (n.transform (returned classes)).Sited Node.unmeant S := by
  refine h.transform (fun _ _ kind => ?_) fun m hm => ?_
  · cases kind <;> rfl
  · obtain ⟨span, ty, kind⟩ := m
    cases kind
    case methodDecl d =>
      show Node.Sited _ _ ⟨span, ty, .methodDecl (Returns.checkDecl classes span d).1⟩
      obtain ⟨-, children⟩ := sited_mk.1 hm
      refine sited_mk.2 ⟨fun _ hs => absurd hs List.not_mem_nil, ?_⟩
      unfold Returns.checkDecl
      split
      · exact children
      · split
        · exact children
        · exact unmeant_hereditary.body classes span d.name _ children
    all_goals exact hm

/-- A result that is unboxed shows what it showed. -/
theorem unboxFor_shown (expected found : Ty) (n : Node) :
    (Returns.unboxFor expected found n).1.shown ⊆ n.shown := by
  unfold Returns.unboxFor
  split
  · split
    · simp [Node.shown, Returns.beforeUnbox, Node.convertTo]
    · exact List.Subset.refl _
  · exact List.Subset.refl _

/-- A rejected result stands where the result does, or what it unboxes. -/
theorem rejected_span {classes : ClassTable} {expected found : Ty} {value n : Node}
    (h : Returns.convert classes expected found value = .error n) : n.span ∈ value.shown := by
  have unboxed := unboxFor_shown expected found value
  obtain rfl | rfl | rfl | ⟨c, t, rfl⟩ := convert_made (.inr h)
  · exact List.mem_cons_self ..
  · exact unboxed (List.mem_cons_self ..)
  · exact unboxed (List.mem_cons_of_mem _ (List.mem_singleton.2 rfl))
  · exact unboxed (List.mem_cons_self ..)

/-- A method is reported at what it exposes. -/
theorem checkDecl_at {classes : ClassTable} {span : Span} {d : Method Node} (ty : Option Ty)
    (h : ∀ s ∈ Node.judged ⟨span, ty, .methodDecl d⟩, S s) :
    ∀ diagnostic ∈ (Returns.checkDecl classes span d).2, diagnostic.At S := by
  intro diagnostic hd
  unfold Returns.checkDecl at hd
  split at hd
  · cases hd
  · split at hd
    · cases hd
    · unfold Returns.checkBody at hd
      simp only at hd
      split at hd
      · split at hd
        · rw [List.mem_singleton.1 hd]
          exact ⟨span, rfl, h span (List.mem_cons_self ..)⟩
        · cases hd
      · rename_i last hlast
        split at hd
        · cases hd
        · split at hd
          · cases hd
          · rename_i value rejected
            rw [List.mem_singleton.1 hd]
            refine ⟨value.span, rfl, h _ (List.mem_cons_of_mem _ (List.mem_flatMap.2 ⟨last, ?_, ?_⟩))⟩
            · exact Option.mem_toList.2 hlast
            · exact rejected_span rejected

/-- The check of results reports what the tree before it exposes. -/
theorem Reporting.at {classes : ClassTable} {root : Node} {d : Diagnostic}
    (h : Reporting classes root d) (sited : root.Sited Node.exposed S) : d.At S := by
  obtain ⟨⟨span, ty, kind⟩, mem, m, rfl, hd⟩ := h
  refine checkDecl_at ty (fun s hs => sited _ mem s ?_) d hd
  rw [← exposed_map (transform_shown (returned_shown classes))]
  exact hs

theorem visible_subset_nodes (n : Node) : n.visible ⊆ n.nodes := by
  induction n using Node.induct with
  | h span ty kind ih =>
    intro m hm
    rw [Node.nodes_mk]
    by_cases hk : kind.label = "Stream"
    · cases kind
      case stream steps =>
        rw [Node.visible_stream] at hm
        exact List.mem_singleton.1 hm ▸ List.mem_cons_self ..
      all_goals simp [Kind.label] at hk
    · rw [Node.visible_mk hk] at hm
      rcases List.mem_cons.1 hm with rfl | hm
      · exact List.mem_cons_self ..
      · obtain ⟨c, hc, hm⟩ := List.mem_flatMap.1 hm
        exact List.mem_cons_of_mem _ (List.mem_flatMap.2 ⟨c, hc, ih c hc hm⟩)

theorem own_span {n : Node} {d : Diagnostic} (h : d ∈ Leftover.own n) :
    d.span? = some n.span ∧ n.span ∈ n.unmeant := by
  obtain ⟨span, ty, kind⟩ := n
  cases kind
  case name | call =>
    rw [List.mem_singleton.1 h]
    exact ⟨rfl, List.mem_singleton.2 rfl⟩
  case binary op lhs rhs =>
    simp only [Leftover.own] at h
    split at h
    · rw [List.mem_singleton.1 h]
      exact ⟨rfl, List.mem_singleton.2 rfl⟩
    · cases h
  all_goals cases h

theorem leftovers_at {root : Node} (sited : root.Sited Node.unmeant S) :
    ∀ d ∈ leftovers root, d.At S := by
  intro d hd
  rw [leftovers_eq] at hd
  obtain ⟨n, hn, hd⟩ := List.mem_flatMap.1 hd
  obtain ⟨span, unmeant⟩ := own_span hd
  exact ⟨n.span, span, sited n (visible_subset_nodes root hn) _ unmeant⟩

/-- The regions of the nodes of a tree and of their steps. -/
def Node.regions (root : Node) : List Span := root.nodes.flatMap Node.spans

/-- Each diagnostic of an analysis, with the standard navigators and those of manifests, is about the
region of a node or a step of the tree that is analysed. None is synthetic if no region of the tree is. -/
theorem analysis_regions {s : Setup} (hs : s.Installed) {operators : OperatorTable} {env : Environment}
    {root : Node} {a : Analysis} (h : analyze (s.context operators env) root = .ok a) :
    (∀ d ∈ a.diagnostics, ∃ span ∈ root.regions, d.span? = some span) ∧
      ((∀ span ∈ root.regions, span.isSynthetic = false) →
        ∀ d ∈ a.diagnostics, ∃ span, d.span? = some span ∧ span.isSynthetic = false) := by
  have written : root.Sited Node.spans (· ∈ root.regions) :=
    fun m hm s hs => List.mem_flatMap.2 ⟨m, hm, hs⟩
  obtain ⟨navigated, ds, hnav, hroot, new, hnew, hds⟩ := analyze_made h
  obtain ⟨last, run, rfl⟩ := Resolve.resolveNavigation_ok hnav
  have navigation : Resolve.Aimed (· ∈ root.regions) last :=
    Resolve.tree_reports root written run nofun
  have standing := Resolve.tree_standing hs.provided root written (Resolve.initialScopes_leaves env root) run
  have settled := settle_sited (s.context operators env) standing.sited
  have final : a.root.Sited Node.unmeant (· ∈ root.regions) :=
    hroot ▸ returned_sited _ (settled.mono fun n => List.subset_append_left _ _)
  -- steps are reported first, then what the checked tree exposes, and last what the final tree does
  have all : ∀ d ∈ a.diagnostics, d.At (· ∈ root.regions) := by
    intro d hd
    rw [hds] at hd
    rcases List.mem_append.1 hd with hd | hd
    · rcases List.mem_append.1 hd with hd | hd
      · exact navigation d hd
      · exact (hnew d hd).at settled
    · exact leftovers_at final d hd
  refine ⟨fun d hd => ?_, fun real d hd => ?_⟩
  · obtain ⟨span, about, mem⟩ := all d hd
    exact ⟨span, mem, about⟩
  · obtain ⟨span, about, mem⟩ := all d hd
    exact ⟨span, about, real span mem⟩

/-- A node on a line of its own. -/
def onLine (line : UInt32) (n : Node) : Node := n.withSpan (.ofLexeme line 1 0 "")

/-- A method that ends in a sum where a boolean is declared, and a name without a meaning behind it. -/
def sumScript : Node :=
  let five : Literal := .int ⟨5, by decide, by decide⟩
  let sum : Node := onLine 2
    (.ofKind (.binary .add (onLine 3 (.ofLiteral five)) (onLine 4 (.ofLiteral five))))
  onLine 1 (.ofKind (.script [onLine 5 (.ofKind (.methodDecl ⟨"f", [], some .boolean, [sum]⟩)),
    onLine 6 (.ofKind (.name "y"))]))

/-- The sum is folded, and rejected where it was written. -/
theorem analysis_regions_sum :
    ∃ a, analyze ((Setup.ofConfig {}).context .standard {}) sumScript = .ok a ∧
      a.diagnostics = [.returnMismatch "f" .boolean (.prim .int) (.ofLexeme 2 1 0 ""),
        .unresolvedName "y" (.ofLexeme 6 1 0 "")] ∧
      (∀ d ∈ a.diagnostics, ∃ span ∈ sumScript.regions, d.span? = some span) ∧
      ∀ d ∈ a.diagnostics, ∃ span, d.span? = some span ∧ span.isSynthetic = false := by
  have h : ∃ a, analyze ((Setup.ofConfig {}).context .standard {}) sumScript = .ok a ∧
      a.diagnostics = [.returnMismatch "f" .boolean (.prim .int) (.ofLexeme 2 1 0 ""),
        .unresolvedName "y" (.ofLexeme 6 1 0 "")] := ⟨_, rfl, rfl⟩
  obtain ⟨a, h, told⟩ := h
  obtain ⟨inside, real⟩ := analysis_regions (.ofConfig {}) h
  exact ⟨a, h, told, inside, real (by decide)⟩

end NavScript
