import NavScript.Proofs.Alarms
import NavScript.Proofs.Emission
import NavScript.Proofs.Hereditary

/-!
# The types of composite nodes

A script has the type of its last item, a declaration of a local the written type or that of its
value, a method without a written result the type its body ends in (`Node.Composed`). The navigation
sees to this, and no later pass does it again, although operators and conditionals get their types
later. So a composite node ends up with the type of its parts exactly where the part that decides has
not been retyped (`Overtaken`).
-/

namespace NavScript

/-- The type that a composite node takes from its parts. -/
def Node.composedTy? (n : Node) : Option (Option Ty) :=
  match n.kind with
  | .script items => some (items.getLast?.bind (·.ty))
  | .localDecl _ written value => some (written <|> value.ty)
  | .methodDecl d => if d.returnTy.isNone then some (some (Resolve.methodTy d)) else none
  | _ => none

def Node.Composed (n : Node) : Prop := ∀ ty ∈ n.composedTy?, n.ty = ty

/-- The type of a composite node, and the type of its parts. -/
def composition (n : Node) : List (Option Ty × Option Ty) := n.composedTy?.toList.map (n.ty, ·)

theorem composed_iff {n : Node} : n.Composed ↔ ∀ pair ∈ composition n, pair.1 = pair.2 := by
  unfold Node.Composed composition
  cases n.composedTy? <;> simp

theorem composed_of_label {n : Node} (h : n.label ∉ ["Script", "LocalDecl", "MethodDecl"]) :
    n.composedTy? = none := by
  obtain ⟨span, ty, kind⟩ := n
  cases kind
  case script | localDecl | methodDecl => simp [Node.label, Kind.label] at h
  all_goals rfl

theorem composition_silent : Silent composition where
  made n h := by
    unfold composition
    rw [composed_of_label (fun h' => by simp at h h'; rcases h' with h' | h' | h' <;> simp [h'] at h)]
    rfl
  typed span ty op lhs rhs := rfl
  operator n h := by
    unfold composition
    rw [composed_of_label (by simp [h])]
    rfl

/-- All nodes outside streams are composed. -/
def Node.Composes (n : Node) : Prop := ∀ m ∈ n.visible, m.Composed

theorem composes_stream (span : Span) (ty : Option Ty) (steps : List (Step Node)) :
    Node.Composes ⟨span, ty, .stream steps⟩ := by
  intro m hm
  rw [Node.visible_stream, List.mem_singleton] at hm
  subst hm
  nofun

theorem composes_mk {kind : Kind Node} (h : kind.label ≠ "Stream") (span : Span) (ty : Option Ty) :
    Node.Composes ⟨span, ty, kind⟩ ↔
      Node.Composed ⟨span, ty, kind⟩ ∧ ∀ c ∈ kind.children, c.Composes := by
  unfold Node.Composes
  rw [Node.visible_mk h, List.forall_mem_cons, List.forall_mem_flatMap]

/-- Where the node takes no type from its parts, only the parts count. -/
theorem composes_other {kind : Kind Node}
    (h : kind.label ∉ ["Stream", "Script", "LocalDecl", "MethodDecl"]) (span : Span)
    (ty : Option Ty) : Node.Composes ⟨span, ty, kind⟩ ↔ ∀ c ∈ kind.children, c.Composes := by
  simp only [List.mem_cons, not_or] at h
  rw [composes_mk h.1]
  have other : Node.composedTy? ⟨span, ty, kind⟩ = none := composed_of_label (by simpa [Node.label] using h.2)
  refine and_iff_right fun t ht => ?_
  rw [other] at ht
  cases ht

/-- The navigation composes the types. -/
theorem composes_resolvable : Resolvable Node.Composes where
  iff {kind} glues span ty :=
    composes_other (by cases kind <;> simp [Kind.glues, Kind.label] at glues ⊢) span ty
  withSpan n span h := by
    obtain ⟨span', ty, kind⟩ := n
    by_cases hk : kind.label = "Stream"
    · cases kind
      case stream steps => exact composes_stream span ty steps
      all_goals simp [Kind.label] at hk
    · rw [composes_mk hk] at h
      exact (composes_mk hk _ _).2 h
  stream := composes_stream
  name span ty x := (composes_other (by simp [Kind.label]) ..).2 fun _ hc => absurd hc List.not_mem_nil
  call span ty x args h := (composes_other (by simp [Kind.label]) ..).2 h
  operator {kind} label span ty h :=
    (composes_other (by cases kind <;> simp [Kind.label] at label ⊢) ..).2 h
  methodDecl span d h := by
    refine (composes_mk (by simp [Kind.label]) _ _).2 ⟨fun t ht => ?_, h⟩
    unfold Node.composedTy? at ht
    simp only at ht
    split at ht <;> cases ht
    rfl
  localDecl span x written value h := by
    refine (composes_mk (by simp [Kind.label]) _ _).2 ⟨fun t ht => ?_, ?_⟩
    · cases ht
      rfl
    · exact fun c hc => List.mem_singleton.1 hc ▸ h
  script span items h := by
    refine (composes_mk (by simp [Kind.label]) _ _).2 ⟨fun t ht => ?_, h⟩
    cases ht
    rfl

variable {cx : Context}

/-- The part that decides the type of a composite node. -/
def Node.part? (n : Node) : Option Node :=
  match n.kind with
  | .script items => items.getLast?
  | .localDecl _ none value => some value
  | .methodDecl d => if d.returnTy.isNone then d.body.getLast? else none
  | _ => none

/-- The type that a composite node has if the part that decides has the given one. A method always has
a type. -/
def Node.tyOver (n : Node) (part : Option Ty) : Option Ty :=
  match n.kind with
  | .methodDecl _ => some (part.getD .void)
  | _ => part

/-- The part that decides the type of the node gets another one from the later passes. -/
def Overtaken (cx : Context) (n : Node) : Prop :=
  ∃ part, n.part? = some part ∧ n.tyOver (settle cx part).ty ≠ n.tyOver part.ty

/-- Only operators and conditionals are retyped, of these only those without a type. -/
theorem settle_ty {n : Node} (h : n.label ≠ "Binary") (h' : n.label = "Conditional" → n.ty.isSome) :
    (settle cx n).ty = n.ty := by
  obtain ⟨span, ty, kind⟩ := n
  rw [settle_mk h]
  by_cases hk : kind.label = "Conditional"
  · obtain ⟨t, ht⟩ := Option.isSome_iff_exists.1 (h' hk)
    simp only at ht
    subst ht
    cases kind
    case conditional => rfl
    all_goals simp [Kind.label] at hk
  · rw [widenNumbers_of_quiet (by rw [Kind.label_map]; exact h) (by rw [Kind.label_map]; exact hk)]

/-- A node that is composed stays so over its settled parts unless it is overtaken. -/
theorem settled_composed_iff {n : Node} (h : n.Composed) :
    (∀ pair ∈ ownOver composition (settle cx) n, pair.1 = pair.2) ↔ ¬ Overtaken cx n := by
  show (∀ pair ∈ composition ⟨n.span, n.ty, n.kind.map (settle cx)⟩, _) ↔ _
  rw [← composed_iff]
  obtain ⟨span, ty, kind⟩ := n
  cases kind
  case script items =>
    have typed : ty = items.getLast?.bind (·.ty) := h _ rfl
    have same : Node.Composed ⟨span, ty, (Kind.script items).map (settle cx)⟩ ↔
        ty = (items.getLast?.map (settle cx)).bind (·.ty) := by
      simp [Node.Composed, Node.composedTy?, Kind.map]
    rw [same, typed]
    unfold Overtaken Node.part? Node.tyOver
    cases hlast : items.getLast? <;> simp [hlast, eq_comm]
  case localDecl x written value =>
    have typed : ty = (written <|> value.ty) := h _ rfl
    have same : Node.Composed ⟨span, ty, (Kind.localDecl x written value).map (settle cx)⟩ ↔
        ty = (written <|> (settle cx value).ty) := by
      simp [Node.Composed, Node.composedTy?, Kind.map]
    rw [same, typed]
    unfold Overtaken Node.part? Node.tyOver
    cases written <;> simp [eq_comm]
  case methodDecl d =>
    obtain ⟨name, params, returnTy, body⟩ := d
    cases returnTy with
    | some t => simp [Node.Composed, Node.composedTy?, Kind.map, Overtaken, Node.part?]
    | none =>
      have typed : ty = some ((body.getLast?.bind (·.ty)).getD .void) := h _ rfl
      have same : Node.Composed ⟨span, ty, (Kind.methodDecl ⟨name, params, none, body⟩).map
          (settle cx)⟩ ↔ ty = some (((body.getLast?.map (settle cx)).bind (·.ty)).getD .void) := by
        simp [Node.Composed, Node.composedTy?, Kind.map, Resolve.methodTy]
      rw [same, typed]
      unfold Overtaken Node.part? Node.tyOver
      cases hlast : body.getLast? <;> simp [hlast, eq_comm]
  all_goals simp [Node.Composed, Node.composedTy?, Kind.map, Overtaken, Node.part?]

/-- The check of results keeps composite nodes as they are. -/
theorem gather_composition_returned (n : Node) :
    Node.gather composition (n.transform (returned cx.classes)) = Node.gather composition n := by
  have last (ns : List Node) :
      ((ns.map (Node.transform (returned cx.classes))).getLast?.bind (·.ty)) =
        ns.getLast?.bind (·.ty) := by
    rw [List.getLast?_map]
    cases ns.getLast? <;> simp [transform_returned_ty]
  have same (span : Span) (ty : Option Ty) (kind : Kind Node) :
      composition ⟨span, ty, kind.map (Node.transform (returned cx.classes))⟩ =
        composition ⟨span, ty, kind⟩ := by
    cases kind
    case script items => simp only [composition, Node.composedTy?, Kind.map, last]
    case localDecl x written value =>
      simp only [composition, Node.composedTy?, Kind.map, transform_returned_ty]
    case methodDecl d => simp only [composition, Node.composedTy?, Kind.map, Resolve.methodTy, last]
    all_goals rfl
  refine gather_transform same (composition_silent.gather_returned fun span ty d => ?_) n
  -- only a body with a written result is changed
  cases hd : d.returnTy with
  | none => simp [Returns.checkDecl, hd]
  | some t =>
    have kept : (Returns.checkDecl cx.classes span d).1.returnTy = some t := by
      unfold Returns.checkDecl
      rw [hd]
      simp only
      split <;> simp [hd]
    simp [composition, Node.composedTy?, hd, kept]

/-- Where code can be made, every node is composed in the end exactly if no composite node of the
navigated tree is overtaken. What overtakes it is an operator or a conditional. -/
theorem analysis_composed_iff {s : Setup} (hs : s.Installed) {operators : OperatorTable}
    {env : Environment} {root : Node} {a : Analysis}
    (h : analyze (s.context operators env) root = .ok a) (emits : a.canEmit = true) :
    ∃ navigated ds, resolveNavigation (s.context operators env) root = (.ok navigated, ds) ∧
      (∀ n ∈ navigated.visible, n.Composed) ∧
      ((∀ n ∈ a.root.nodes, n.Composed) ↔
        ∀ n ∈ navigated.visible, ¬ Overtaken (s.context operators env) n) ∧
      ∀ n ∈ navigated.visible, Overtaken (s.context operators env) n → ∃ part, n.part? = some part ∧
        (part.label = "Binary" ∨ part.label = "Conditional" ∧ part.ty = none) := by
  obtain ⟨navigated, ds, hnav, hroot, -⟩ := analyze_ok h
  obtain ⟨st', hrun, -⟩ := Resolve.resolveNavigation_ok hnav
  have composes : navigated.Composes :=
    Resolve.tree_gives composes_resolvable hs.provided root
      (Resolve.initialScopes_leaves _ _) hrun
  have visible : a.root.visible = a.root.nodes :=
    Node.visible_eq_nodes (Analysis.no_stream (analysis_reported hs h) emits)
  refine ⟨navigated, ds, hnav, composes, ?_, ?_⟩
  · have settled : a.root.gather composition =
        navigated.gather (ownOver composition (settle (s.context operators env))) := by
      rw [hroot, gather_composition_returned, composition_silent.gather_settle]
    have gathered : (∀ n ∈ a.root.visible, n.Composed) ↔
        ∀ pair ∈ a.root.gather composition, pair.1 = pair.2 := by
      simp only [composed_iff, Node.gather, List.mem_flatMap]
      constructor
      · rintro h pair ⟨n, hn, hp⟩
        exact h n hn pair hp
      · exact fun h n hn pair hp => h pair ⟨n, hn, hp⟩
    rw [← visible, gathered, settled]
    simp only [Node.gather, List.mem_flatMap]
    constructor
    · exact fun h n hn => (settled_composed_iff (composes n hn)).1 fun pair hp => h pair ⟨n, hn, hp⟩
    · rintro h pair ⟨n, hn, hp⟩
      exact (settled_composed_iff (composes n hn)).2 (h n hn) pair hp
  · rintro n - ⟨part, hpart, late⟩
    refine ⟨part, hpart, ?_⟩
    by_contra other
    push Not at other
    refine late (congrArg n.tyOver (settle_ty other.1 fun hc => ?_))
    exact Option.ne_none_iff_isSome.1 (other.2 hc)

def threeOf : Node := .ofLiteral (.int ⟨3, by decide, by decide⟩)

/-- A method without a written result. -/
def methodOf (name : String) (body : List Node) : Node := .ofKind (.methodDecl ⟨name, [], none, body⟩)

/-- A method that returns a number has its type, as nothing retypes numbers. -/
theorem analysis_composed_number :
    ∃ a, analyze bareContext (methodOf "three" [threeOf]) = .ok a ∧ a.canEmit = true ∧
      ∃ navigated ds,
        resolveNavigation bareContext (methodOf "three" [threeOf]) = (.ok navigated, ds) ∧
        (∀ n ∈ navigated.visible, n.Composed) ∧
        ((∀ n ∈ a.root.nodes, n.Composed) ↔ ∀ n ∈ navigated.visible, ¬ Overtaken bareContext n) ∧
        ∀ n ∈ navigated.visible, Overtaken bareContext n → ∃ part, n.part? = some part ∧
          (part.label = "Binary" ∨ part.label = "Conditional" ∧ part.ty = none) :=
  ⟨_, rfl, rfl, analysis_composed_iff (.ofConfig {}) rfl rfl⟩

/-- A method that returns a sum stays void, although the sum becomes a number. -/
theorem analysis_composed_sum :
    let root : Node :=
      { ty := some .void, kind := .methodDecl ⟨"sum", [], none, [threeOf]⟩ }
    let a : Analysis := ⟨root, []⟩
    analyze bareContext (methodOf "sum" [sumOf oneOf twoOf]) = .ok a ∧ a.canEmit = true ∧
      root ∈ a.root.nodes ∧ ¬ root.Composed := by
  intro root a
  refine ⟨rfl, rfl, List.mem_cons_self .., fun composed => ?_⟩
  have number : some Ty.void = some (Ty.prim .int) := composed _ rfl
  cases number

end NavScript
