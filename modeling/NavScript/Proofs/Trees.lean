import NavScript.Tree.Children

/-!
# Trees and their parts

A property that passes from the children of a node to the node holds of every tree
(`Node.induct`). A change of the children changes what is read off them in the same way
(`Kind.children_map`), so a fold that only reads the children is a fold over lists.

`Node.nodes` lists all nodes of a tree, and `Node.visible` those that are not inside a navigation
stream, the streams themselves included.
-/

namespace NavScript

variable {α β γ : Type}

@[simp] theorem Test.children_map (f : α → β) (t : Test α) :
    (t.map f).children = t.children.map f := by
  cases t <;> rfl

@[simp] theorem Step.children_map (f : α → β) (s : Step α) :
    (s.map f).children = s.children.map f := by
  simp [Step.children, Step.map]

@[simp] theorem Kind.children_map (f : α → β) (k : Kind α) :
    (k.map f).children = k.children.map f := by
  cases k <;> simp [Kind.map, Kind.children, List.map_flatMap, List.flatMap_map]

@[simp] theorem Kind.label_map (f : α → β) (k : Kind α) : (k.map f).label = k.label := by
  cases k <;> rfl

theorem Test.map_congr {f g : α → β} {t : Test α} (h : ∀ a ∈ t.children, f a = g a) :
    t.map f = t.map g := by
  cases t <;> simp_all [Test.map, Test.children]

theorem Step.map_congr {f g : α → β} {s : Step α} (h : ∀ a ∈ s.children, f a = g a) :
    s.map f = s.map g := by
  simp only [Step.children, List.mem_append] at h
  simp only [Step.map, Test.map_congr fun a ha => h a (.inl ha)]
  simp only [List.map_congr_left fun a ha => h a (.inr ha)]

theorem Kind.map_congr {f g : α → β} {k : Kind α} (h : ∀ a ∈ k.children, f a = g a) :
    k.map f = k.map g := by
  cases k
  case stream steps =>
    simp only [Kind.children, List.mem_flatMap] at h
    simp only [Kind.map, Kind.stream.injEq]
    exact List.map_congr_left fun s hs => Step.map_congr fun a ha => h a ⟨s, hs, ha⟩
  all_goals simp_all [Kind.map, Kind.children]

theorem Test.map_map (f : α → β) (g : β → γ) (t : Test α) :
    (t.map f).map g = t.map fun a => g (f a) := by
  cases t <;> simp [Test.map]

theorem Step.map_map (f : α → β) (g : β → γ) (s : Step α) :
    (s.map f).map g = s.map fun a => g (f a) := by
  simp [Step.map, Test.map_map]

theorem Kind.map_map (f : α → β) (g : β → γ) (k : Kind α) :
    (k.map f).map g = k.map fun a => g (f a) := by
  cases k <;> simp [Kind.map, Step.map_map]

theorem Test.map_id (t : Test α) : (t.map fun a => a) = t := by
  cases t <;> simp [Test.map]

theorem Step.map_id (s : Step α) : (s.map fun a => a) = s := by
  simp [Step.map, Test.map_id]

theorem Kind.map_id (k : Kind α) : (k.map fun a => a) = k := by
  cases k <;> simp [Kind.map, Step.map_id]

theorem Test.sizeOf_lt_of_mem {t : Test Node} {c : Node} (h : c ∈ t.children) :
    sizeOf c < sizeOf t := by
  cases t <;> simp only [Test.children, List.not_mem_nil] at h
  have := List.sizeOf_lt_of_mem h
  simp only [Test.call.sizeOf_spec]
  omega

theorem Step.sizeOf_lt_of_mem {s : Step Node} {c : Node} (h : c ∈ s.children) :
    sizeOf c < sizeOf s := by
  cases s
  simp only [Step.children, List.mem_append] at h
  simp only [Step.mk.sizeOf_spec]
  rcases h with h | h
  · have := Test.sizeOf_lt_of_mem h
    omega
  · have := List.sizeOf_lt_of_mem h
    omega

theorem Kind.sizeOf_lt_of_mem {k : Kind Node} {c : Node} (h : c ∈ k.children) :
    sizeOf c < sizeOf k := by
  cases k
  case stream steps =>
    simp only [Kind.children, List.mem_flatMap] at h
    obtain ⟨s, hs, hc⟩ := h
    have := Step.sizeOf_lt_of_mem hc
    have := List.sizeOf_lt_of_mem hs
    simp only [Kind.stream.sizeOf_spec]
    omega
  case methodDecl d =>
    cases d
    have := List.sizeOf_lt_of_mem (by simpa [Kind.children] using h)
    simp only [Kind.methodDecl.sizeOf_spec, Method.mk.sizeOf_spec]
    omega
  case script | sequence | call =>
    have := List.sizeOf_lt_of_mem (by simpa [Kind.children] using h)
    simp
    omega
  case methodCall t owner n args =>
    simp only [Kind.children, List.mem_cons] at h
    rcases h with rfl | h
    · simp
      omega
    · have := List.sizeOf_lt_of_mem h
      simp
      omega
  all_goals
    simp only [Kind.children, List.mem_cons, List.not_mem_nil, or_false] at h
    try rcases h with rfl | rfl | rfl
    try rcases h with rfl | rfl
    try subst h
    all_goals
      simp
      try omega

/-- What passes from the children of each node to the node holds of all trees. -/
@[elab_as_elim]
theorem Node.induct {P : Node → Prop}
    (h : ∀ span ty kind, (∀ c ∈ kind.children, P c) → P ⟨span, ty, kind⟩) (n : Node) : P n := by
  match n with
  | ⟨span, ty, kind⟩ =>
    refine h span ty kind fun c hc => ?_
    have := Kind.sizeOf_lt_of_mem hc
    exact Node.induct h c
termination_by sizeOf n
decreasing_by
  simp only [Node.mk.sizeOf_spec]
  omega

/-- The recursion of a node is made from its children and their recursions. -/
theorem Node.para_mk (alg : Span → Option Ty → Kind (Node × α) → α) (span : Span) (ty : Option Ty)
    (kind : Kind Node) :
    Node.para alg ⟨span, ty, kind⟩ = alg span ty (kind.map fun c => (c, c.para alg)) := by
  have first (n : Node) : (n.fold fun span ty kind =>
      ((⟨span, ty, kind.map (·.1)⟩ : Node), alg span ty kind)).1 = n := by
    induction n using Node.induct with
    | h span ty kind ih =>
      rw [Node.fold_mk]
      simp only [Kind.map_map]
      rw [Kind.map_congr (g := fun c => c) ih, Kind.map_id]
  unfold para
  rw [Node.fold_mk]
  exact congrArg (alg span ty) (Kind.map_congr fun c _ => Prod.ext (first c) rfl)

namespace Node

/-- All nodes of a tree, a node before its children. -/
def nodes (n : Node) : List Node :=
  n.para fun span ty kind => ⟨span, ty, kind.map (·.1)⟩ :: kind.children.flatMap (·.2)

/-- The nodes of a tree that are not inside a stream. -/
def visible (n : Node) : List Node :=
  n.para fun span ty kind =>
    ⟨span, ty, kind.map (·.1)⟩ ::
      match kind with
      | .stream _ => []
      | kind => kind.children.flatMap (·.2)

theorem nodes_mk (span : Span) (ty : Option Ty) (kind : Kind Node) :
    nodes ⟨span, ty, kind⟩ = ⟨span, ty, kind⟩ :: kind.children.flatMap nodes := by
  unfold nodes
  rw [para_mk, Kind.map_map, Kind.map_id, Kind.children_map, List.flatMap_map]

theorem forall_nodes_mk {P : Node → Prop} {span : Span} {ty : Option Ty} {kind : Kind Node} :
    (∀ n ∈ nodes ⟨span, ty, kind⟩, P n) ↔
      P ⟨span, ty, kind⟩ ∧ ∀ c ∈ kind.children, ∀ n ∈ c.nodes, P n := by
  rw [nodes_mk, List.forall_mem_cons, List.forall_mem_flatMap]

theorem mem_nodes_self (n : Node) : n ∈ n.nodes := by
  obtain ⟨span, ty, kind⟩ := n
  rw [nodes_mk]
  exact List.mem_cons_self ..

theorem mem_nodes_of_child {n c x : Node} (hc : c ∈ n.kind.children) (hx : x ∈ c.nodes) :
    x ∈ n.nodes := by
  obtain ⟨span, ty, kind⟩ := n
  rw [nodes_mk]
  exact List.mem_cons_of_mem _ (List.mem_flatMap.2 ⟨c, hc, hx⟩)

theorem visible_stream (span : Span) (ty : Option Ty) (steps : List (Step Node)) :
    visible ⟨span, ty, .stream steps⟩ = [⟨span, ty, .stream steps⟩] := by
  unfold visible
  rw [para_mk, Kind.map_map, Kind.map_id]
  rfl

theorem visible_mk {kind : Kind Node} (h : kind.label ≠ "Stream") (span : Span) (ty : Option Ty) :
    visible ⟨span, ty, kind⟩ = ⟨span, ty, kind⟩ :: kind.children.flatMap visible := by
  have unfolded : visible ⟨span, ty, kind⟩ = ⟨span, ty, kind⟩ ::
      (kind.map fun c => (c, visible c)).children.flatMap (·.2) := by
    unfold visible
    rw [para_mk, Kind.map_map, Kind.map_id]
    cases kind
    case stream => exact absurd rfl h
    all_goals rfl
  rw [unfolded, Kind.children_map, List.flatMap_map]

/-- A change of all nodes changes the children of a node first. -/
theorem transform_mk (f : Node → Node) (span : Span) (ty : Option Ty) (kind : Kind Node) :
    transform f ⟨span, ty, kind⟩ = f ⟨span, ty, kind.map (transform f)⟩ :=
  fold_mk _ span ty kind

/-- A change that leaves each node of a tree as it is leaves the tree as it is. -/
theorem transform_fixed {f : Node → Node} {n : Node} (h : ∀ m ∈ n.nodes, f m = m) :
    n.transform f = n := by
  induction n using Node.induct with
  | h span ty kind ih =>
    obtain ⟨own, below⟩ := forall_nodes_mk.1 h
    have children : kind.map (transform f) = kind :=
      (Kind.map_congr fun c hc => ih c hc (below c hc)).trans kind.map_id
    rw [transform_mk, children, own]

/-- The nodes that a change of all nodes is made at, in their order: each over its changed children. -/
def met (f : Node → Node) (n : Node) : List Node :=
  n.para fun span ty kind =>
    kind.children.flatMap (·.2) ++ [⟨span, ty, kind.map fun c => c.1.transform f⟩]

theorem met_mk (f : Node → Node) (span : Span) (ty : Option Ty) (kind : Kind Node) :
    met f ⟨span, ty, kind⟩ = kind.children.flatMap (met f) ++ [⟨span, ty, kind.map (transform f)⟩] := by
  unfold met
  rw [para_mk, Kind.map_map, Kind.children_map, List.flatMap_map]

theorem mem_met {f : Node → Node} {m : Node} (n : Node) :
    m ∈ n.met f ↔ ∃ c ∈ n.nodes, m = ⟨c.span, c.ty, c.kind.map (transform f)⟩ := by
  induction n using Node.induct with
  | h span ty kind ih =>
    rw [met_mk, nodes_mk, List.mem_append, List.mem_singleton, or_comm]
    simp only [List.mem_cons, exists_eq_or_imp]
    refine or_congr_right ?_
    simp only [List.mem_flatMap]
    constructor
    · rintro ⟨c, hc, hm⟩
      obtain ⟨d, hd, rfl⟩ := (ih c hc).1 hm
      exact ⟨d, ⟨c, hc, hd⟩, rfl⟩
    · rintro ⟨d, ⟨c, hc, hd⟩, rfl⟩
      exact ⟨c, hc, (ih c hc).2 ⟨d, hd, rfl⟩⟩

/-- A change that leaves each node as it is meets no others. -/
theorem mem_nodes_of_met {f : Node → Node} {n : Node} (h : ∀ m ∈ n.nodes, f m = m) :
    ∀ m ∈ n.met f, m ∈ n.nodes := by
  induction n using Node.induct with
  | h span ty kind ih =>
    obtain ⟨-, inside⟩ := forall_nodes_mk.1 h
    intro m hm
    rw [met_mk, List.mem_append, List.mem_singleton] at hm
    rw [nodes_mk, List.mem_cons]
    obtain hm | rfl := hm
    · obtain ⟨c, hc, hm⟩ := List.mem_flatMap.1 hm
      exact .inr (List.mem_flatMap.2 ⟨c, hc, ih c hc (inside c hc) m hm⟩)
    · refine .inl (congrArg (Node.mk span ty) ?_)
      exact (Kind.map_congr fun c hc => transform_fixed (inside c hc)).trans kind.map_id

/-- What holds of all nodes that a change makes of a node it meets, if it holds below the node, holds of
all nodes of a changed tree. -/
theorem nodes_transform {f : Node → Node} {P : Node → Prop} {n : Node}
    (made : ∀ span ty kind, ⟨span, ty, kind⟩ ∈ n.met f → (∀ c ∈ kind.children, ∀ m ∈ c.nodes, P m) →
      ∀ m ∈ (f ⟨span, ty, kind⟩).nodes, P m) : ∀ m ∈ (n.transform f).nodes, P m := by
  induction n using Node.induct with
  | h span ty kind ih =>
    rw [transform_mk]
    refine made span ty _ (by simp [met_mk]) fun c' hc' => ?_
    rw [Kind.children_map] at hc'
    obtain ⟨c, hc, rfl⟩ := List.mem_map.1 hc'
    refine ih c hc fun span' ty' kind' hmet => made span' ty' kind' ?_
    rw [met_mk]
    exact List.mem_append_left _ (List.mem_flatMap.2 ⟨c, hc, hmet⟩)

/-- A change that keeps what is below each node keeps what it makes of the nodes of a tree. -/
theorem transform_mem_nodes {f : Node → Node} {P : Node → Prop} {n root : Node}
    (kept : ∀ m x, P x → ∀ c ∈ m.kind.children, x ∈ c.nodes → x ∈ (f m).nodes) (hn : n ∈ root.nodes)
    (h : P (n.transform f)) : n.transform f ∈ (root.transform f).nodes := by
  induction root using Node.induct with
  | h span ty kind ih =>
    rw [nodes_mk, List.mem_cons] at hn
    obtain rfl | hn := hn
    · exact mem_nodes_self _
    · obtain ⟨c, hc, hn⟩ := List.mem_flatMap.1 hn
      rw [transform_mk]
      refine kept _ _ h (c.transform f) ?_ (ih c hc hn)
      rw [Kind.children_map]
      exact List.mem_map_of_mem hc

/-- What a change meets in a node it meets in each tree around it. -/
theorem met_infix {f : Node → Node} {n root : Node} (hn : n ∈ root.nodes) : n.met f <:+: root.met f := by
  induction root using Node.induct with
  | h span ty kind ih =>
    rw [nodes_mk, List.mem_cons] at hn
    obtain rfl | hn := hn
    · exact List.infix_refl _
    · obtain ⟨c, hc, hn⟩ := List.mem_flatMap.1 hn
      rw [met_mk]
      have child : c.met f <:+: kind.children.flatMap (met f) := by
        obtain ⟨before, behind, split⟩ := List.append_of_mem hc
        exact ⟨before.flatMap (met f), behind.flatMap (met f), by simp [split]⟩
      exact ((ih c hc hn).trans child).trans (List.prefix_append ..).isInfix

/-- Where no stream is visible all nodes are. -/
theorem visible_eq_nodes {n : Node} : (∀ m ∈ n.visible, m.label ≠ "Stream") → n.visible = n.nodes := by
  induction n using Node.induct with
  | h span ty kind ih =>
    intro h
    by_cases hk : kind.label = "Stream"
    · cases kind
      case stream steps =>
        rw [visible_stream] at h
        exact absurd rfl (h _ (List.mem_singleton.2 rfl))
      all_goals simp [Kind.label] at hk
    · rw [visible_mk hk] at h ⊢
      rw [nodes_mk]
      have children : kind.children.map visible = kind.children.map nodes := by
        refine List.map_congr_left fun c hc => ih c hc fun m hm => ?_
        exact h m (List.mem_cons_of_mem _ (List.mem_flatMap.2 ⟨c, hc, hm⟩))
      rw [List.flatMap_def, List.flatMap_def, children]

end Node

end NavScript
