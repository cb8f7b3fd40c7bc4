import NavScript.Proofs.Filling

/-!
# Runs over the children of a node

For a monad whose runs lead from state to state, `Runs` says which values and states a run may end
in, and how runs of composed actions are made. An action on the elements of a list, or on the
children of a node, runs once for each of them, from the first to the last (`RunsAll`). The node
keeps its shape: it is the list of children with what came of each, put back (`runs_kindMapM`).
-/

namespace NavScript

/-- The runs of a monad with states: `rel x s a s'` for a run of `x` from `s` that ends in the value
`a` and the state `s'`. -/
structure Runs (m : Type → Type) [Monad m] (σ : Type) where
  rel : {α : Type} → m α → σ → α → σ → Prop
  pure_iff : ∀ {α : Type} {a b : α} {s s' : σ}, rel (pure a) s b s' ↔ b = a ∧ s' = s
  bind_iff : ∀ {α β : Type} {x : m α} {f : α → m β} {b : β} {s s' : σ},
    rel (x >>= f) s b s' ↔ ∃ a mid, rel x s a mid ∧ rel (f a) mid b s'

namespace Runs

variable {m : Type → Type} [Monad m] {σ : Type} {α β γ : Type}

/-- The runs of a state that is always there. -/
def state (σ : Type) : Runs (StateM σ) σ where
  rel x s a s' := x.run s = (a, s')
  pure_iff := by
    intro α a b s s'
    show (a, s) = (b, s') ↔ _
    rw [Prod.mk.injEq]
    exact ⟨fun h => ⟨h.1.symm, h.2.symm⟩, fun h => ⟨h.1.symm, h.2.symm⟩⟩
  bind_iff := by
    intro α β x f b s s'
    show (f (x.run s).1).run (x.run s).2 = _ ↔ _
    constructor
    · intro h
      exact ⟨_, _, rfl, h⟩
    · rintro ⟨a, mid, hx, h⟩
      rw [hx]
      exact h

variable (R : Runs m σ)

theorem map_iff [LawfulMonad m] {x : m α} {f : α → β} {b : β} {s s' : σ} :
    R.rel (f <$> x) s b s' ↔ ∃ a, R.rel x s a s' ∧ b = f a := by
  rw [map_eq_pure_bind, R.bind_iff]
  simp only [R.pure_iff]
  constructor
  · rintro ⟨a, mid, hx, rfl, rfl⟩
    exact ⟨a, hx, rfl⟩
  · rintro ⟨a, hx, rfl⟩
    exact ⟨a, s', hx, rfl, rfl⟩

/-- The runs of an action on the first members of pairs, each ending in the second member. -/
def RunsAll (f : α → m β) : σ → List (α × β) → σ → Prop
  | s, [], s' => s' = s
  | s, (a, b) :: rest, s' => ∃ mid, R.rel (f a) s b mid ∧ RunsAll f mid rest s'

section

variable {R} {s s' : σ}

/-- What each of the runs keeps is kept by all of them, and what each gives is there for each pair. -/
theorem RunsAll.keeping (good : σ → Prop) (P : α → β → Prop) {f : α → m β} {zs : List (α × β)}
    (step : ∀ z ∈ zs, ∀ {t t' : σ}, good t → R.rel (f z.1) t z.2 t' → good t' ∧ P z.1 z.2)
    (start : good s) (h : R.RunsAll f s zs s') : good s' ∧ ∀ z ∈ zs, P z.1 z.2 := by
  induction zs generalizing s with
  | nil =>
    have last : s' = s := h
    exact ⟨last ▸ start, by simp⟩
  | cons z rest ih =>
    obtain ⟨mid, here, others⟩ := h
    obtain ⟨later, first⟩ := step z (List.mem_cons_self ..) start here
    obtain ⟨last, behind⟩ := ih (fun w hw => step w (List.mem_cons_of_mem _ hw)) later others
    exact ⟨last, List.forall_mem_cons.2 ⟨first, behind⟩⟩

theorem RunsAll.each {f : α → m β} {zs : List (α × β)} (h : R.RunsAll f s zs s') :
    ∀ z ∈ zs, ∃ before after, R.rel (f z.1) before z.2 after :=
  (RunsAll.keeping (fun _ => True) (fun a b => ∃ before after, R.rel (f a) before b after)
    (fun _ _ _ _ _ run => ⟨trivial, _, _, run⟩) trivial h).2

theorem RunsAll.unchanged {f : α → m α} {zs : List (α × α)}
    (step : ∀ c ∈ zs, ∀ {mid : σ}, R.rel (f c.1) s c.2 mid → c.2 = c.1 ∧ mid = s)
    (h : R.RunsAll f s zs s') : (∀ c ∈ zs, c.2 = c.1) ∧ s' = s := by
  refine (RunsAll.keeping (· = s) (fun a b => b = a) (fun z hz t t' start run => ?_) rfl h).symm
  rw [start] at run
  exact (step z hz run).symm

end

variable [LawfulMonad m] {f : α → m β} {s s' : σ}

theorem runs_mapM : ∀ {as : List α} {bs : List β} {s s' : σ},
    R.rel (as.mapM f) s bs s' ↔
      ∃ zs, zs.map Prod.fst = as ∧ zs.map Prod.snd = bs ∧ R.RunsAll f s zs s'
  | [], bs, s, s' => by
    rw [List.mapM_nil, R.pure_iff]
    constructor
    · rintro ⟨rfl, rfl⟩
      exact ⟨[], rfl, rfl, rfl⟩
    · rintro ⟨zs, hzs, rfl, h⟩
      rw [List.map_eq_nil_iff] at hzs
      subst hzs
      exact ⟨rfl, h⟩
  | a :: as, bs, s, s' => by
    rw [List.mapM_cons]
    simp only [R.bind_iff, R.pure_iff, @runs_mapM as]
    constructor
    · rintro ⟨b, mid, hb, _, _, ⟨zs, rfl, rfl, h⟩, rfl, rfl⟩
      exact ⟨(a, b) :: zs, rfl, rfl, mid, hb, h⟩
    · rintro ⟨zs, hzs, rfl, h⟩
      obtain ⟨⟨_, b⟩, zs, rfl, rfl, rfl⟩ := List.map_eq_cons_iff.1 hzs
      obtain ⟨mid, hb, h⟩ := h
      exact ⟨b, mid, hb, zs.map Prod.snd, s', ⟨zs, rfl, rfl, h⟩, rfl, rfl⟩

theorem runs_testMapM {t : Test α} {t' : Test β} (h : R.rel (t.mapM f) s t' s') :
    ∃ z : Test (α × β), z.map Prod.fst = t ∧ z.map Prod.snd = t' ∧
      R.RunsAll f s z.children s' := by
  cases t
  case call n args =>
    simp only [Test.mapM, R.bind_iff, R.pure_iff, runs_mapM] at h
    obtain ⟨_, _, ⟨zs, rfl, rfl, hzs⟩, rfl, rfl⟩ := h
    exact ⟨.call n zs, rfl, rfl, hzs⟩
  case name n =>
    obtain ⟨rfl, rfl⟩ := R.pure_iff.1 h
    exact ⟨.name n, rfl, rfl, rfl⟩
  case wildcard =>
    obtain ⟨rfl, rfl⟩ := R.pure_iff.1 h
    exact ⟨.wildcard, rfl, rfl, rfl⟩
  case self =>
    obtain ⟨rfl, rfl⟩ := R.pure_iff.1 h
    exact ⟨.self, rfl, rfl, rfl⟩
  case reduction r =>
    obtain ⟨rfl, rfl⟩ := R.pure_iff.1 h
    exact ⟨.reduction r, rfl, rfl, rfl⟩

/-- An action on the children of a node: one shape holds what they were and what came of them. -/
theorem runs_kindMapM {k : Kind α} {k' : Kind β} (h : R.rel (k.mapM f) s k' s') :
    ∃ z : Kind (α × β), z.map Prod.fst = k ∧ z.map Prod.snd = k' ∧
      R.RunsAll f s z.children s' := by
  have made : R.rel (some <$> k.mapM f) s (some k') s' := R.map_iff.2 ⟨k', h, rfl⟩
  rw [← k.fill_mapM] at made
  obtain ⟨bs, hbs, filled⟩ := R.map_iff.1 made
  obtain ⟨zs, old, rfl, runs⟩ := R.runs_mapM.1 hbs
  obtain ⟨z, rfl, hz, hz'⟩ := Kind.exists_pairs old filled.symm
  exact ⟨z, hz, hz', runs⟩

/-- The children of a node run as a list does. -/
theorem runs_children {k : Kind α} {k' : Kind β} (h : R.rel (k.mapM f) s k' s') :
    R.rel (k.children.mapM f) s k'.children s' ∧ k'.label = k.label := by
  obtain ⟨z, rfl, rfl, hz⟩ := R.runs_kindMapM h
  simp only [Kind.children_map, Kind.label_map, and_true]
  exact R.runs_mapM.2 ⟨z.children, rfl, rfl, hz⟩

theorem runs_testChildren {t : Test α} {t' : Test β} (h : R.rel (t.mapM f) s t' s') :
    R.rel (t.children.mapM f) s t'.children s' := by
  obtain ⟨z, rfl, rfl, hz⟩ := R.runs_testMapM h
  simp only [Test.children_map]
  exact R.runs_mapM.2 ⟨z.children, rfl, rfl, hz⟩

/-- A step that changes each child in the same way in all states runs on the children one after the
other. -/
theorem state_kindMapM {f : α → StateM σ β} {g : α → β} {next : σ → α → σ} {k : Kind α}
    (step : ∀ c ∈ k.children, ∀ s, (f c).run s = (g c, next s c)) (s : σ) :
    (k.mapM f).run s = (k.map g, k.children.foldl next s) := by
  rcases run : (k.mapM f).run s with ⟨k', s'⟩
  obtain ⟨z, rfl, rfl, runs⟩ :=
    (Runs.state σ).runs_kindMapM (show (Runs.state σ).rel (k.mapM f) s k' s' from run)
  have all : ∀ {zs : List (α × β)} {s s' : σ}, (∀ c ∈ zs, c ∈ z.children) →
      (Runs.state σ).RunsAll f s zs s' →
        (∀ c ∈ zs, c.2 = g c.1) ∧ s' = (zs.map Prod.fst).foldl next s := by
    intro zs
    induction zs with
    | nil =>
      rintro s s' - rfl
      exact ⟨fun _ h => absurd h List.not_mem_nil, rfl⟩
    | cons c zs ih =>
      rintro s s' hmem ⟨mid, hc, hrest⟩
      have hchild : c.1 ∈ (z.map Prod.fst).children := by
        rw [Kind.children_map]
        exact List.mem_map_of_mem (hmem c (List.mem_cons_self ..))
      have hc : (g c.1, next s c.1) = (c.2, mid) := (step c.1 hchild s).symm.trans hc
      obtain ⟨changed, rfl⟩ := Prod.mk.inj hc
      obtain ⟨rest, rfl⟩ := ih (fun d hd => hmem d (List.mem_cons_of_mem _ hd)) hrest
      exact ⟨List.forall_mem_cons.2 ⟨changed.symm, rest⟩, rfl⟩
  obtain ⟨changed, rfl⟩ := all (fun _ hc => hc) runs
  rw [Kind.map_map, Kind.map_congr changed, Kind.children_map]

end Runs

/-- A step that changes each node in the same way in all states runs on the nodes that the change meets. -/
theorem Node.transformM_met {σ : Type} {f : Node → StateM σ Node} {g : Node → Node} {next : σ → Node → σ}
    (step : ∀ n s, (f n).run s = (g n, next s n)) (n : Node) :
    ∀ s, (n.transformM f).run s = (n.transform g, (n.met g).foldl next s) := by
  induction n using Node.induct with
  | h span ty kind ih =>
    intro s
    have below := Runs.state_kindMapM (f := Node.transformM f) ih s
    rw [← List.foldl_flatMap] at below
    rw [Node.transformM_eq, Node.transform_mk, Node.met_mk, List.foldl_append]
    show (f ⟨span, ty, ((kind.mapM (Node.transformM f)).run s).1⟩).run
      ((kind.mapM (Node.transformM f)).run s).2 = _
    rw [below]
    exact step _ _

end NavScript
