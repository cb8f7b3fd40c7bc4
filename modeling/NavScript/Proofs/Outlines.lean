import NavScript.Proofs.Traverse

/-!
# Children out and in

A node is its outline and its children. Other children can be put into it exactly if there are as many
as it has places (`exists_withChildren_iff`). A change of the children visits them from the first to the
last and leaves the rest of the node as it is (`children_replaced`).
-/

namespace NavScript

/-- A node without its children. -/
structure Outline where
  span : Span
  ty : Option Ty
  kind : Kind Unit

namespace Node

def outline (n : Node) : Outline := ⟨n.span, n.ty, n.kind.outline⟩

theorem withChildren_eq_ok {n n' : Node} {new : List Node} :
    n.withChildren new = .ok n' ↔ n'.children = new ∧ n'.outline = n.outline := by
  obtain ⟨span', ty', kind'⟩ := n'
  have filled : n.withChildren new = .ok ⟨span', ty', kind'⟩ ↔
      n.kind.fill new = some kind' ∧ span' = n.span ∧ ty' = n.ty := by
    unfold withChildren
    split
    · rename_i kind hkind
      simp only [hkind, Except.ok.injEq, Node.mk.injEq, Option.some.injEq]
      exact ⟨fun ⟨hs, ht, hk⟩ => ⟨hk, hs.symm, ht.symm⟩, fun ⟨hk, hs, ht⟩ => ⟨hs.symm, ht.symm, hk⟩⟩
    · rename_i hkind
      simp [hkind]
  simp only [filled, Kind.fill_eq_some, children, outline, Outline.mk.injEq]
  exact ⟨fun ⟨⟨hc, hk⟩, hs, ht⟩ => ⟨hc, hs, ht, hk⟩, fun ⟨hc, hs, ht, hk⟩ => ⟨⟨hc, hk⟩, hs, ht⟩⟩

/-- A node is its outline and its children. -/
theorem eq_of_outline {n n' : Node} (outlined : n'.outline = n.outline) (h : n'.children = n.children) :
    n' = n := by
  have own : n.withChildren n.children = .ok n := withChildren_eq_ok.2 ⟨rfl, rfl⟩
  have other : n.withChildren n.children = .ok n' := withChildren_eq_ok.2 ⟨h, outlined⟩
  rw [own] at other
  exact (Except.ok.inj other).symm

theorem exists_withChildren_iff {n : Node} {new : List Node} :
    (∃ n', n.withChildren new = .ok n') ↔ new.length = n.children.length := by
  constructor
  · rintro ⟨n', h⟩
    obtain ⟨rfl, outlined⟩ := withChildren_eq_ok.1 h
    exact Kind.length_of_outline (congrArg Outline.kind outlined)
  · intro h
    obtain ⟨kind, hkind⟩ := Kind.exists_fill h
    exact ⟨{ n with kind }, by simp [withChildren, hkind]⟩

theorem withChildren_refused {n : Node} {new : List Node}
    (h : new.length ≠ n.children.length) :
    n.withChildren new = .error (.childCount n.label n.children.length new.length) := by
  unfold withChildren
  split
  · rename_i kind hkind
    exact absurd (Kind.exists_fill_iff.1 ⟨kind, hkind⟩) h
  · rfl

/-- An action on the children in their place is the action on the list of them, and what comes of it
put in their place. -/
theorem withChildren_mapM {m : Type → Type} [Monad m] [LawfulMonad m] (n : Node)
    (f : Node → m Node) : n.withChildren <$> n.children.mapM f = .ok <$> n.mapChildren f := by
  let put (kind : Option (Kind Node)) : Except Fault Node :=
    kind.elim (.error .scopeUnderflow) fun kind => .ok { n with kind }
  have filled (new : List Node) (h : new.length = n.children.length) :
      n.withChildren new = put (n.kind.fill new) := by
    obtain ⟨kind, hkind⟩ := Kind.exists_fill h
    simp [withChildren, put, hkind]
  calc n.withChildren <$> n.children.mapM f
      = put <$> n.kind.fill <$> n.children.mapM f := by
        simp only [map_eq_pure_bind, bind_assoc, pure_bind]
        exact bind_mapM_congr fun new h => by rw [filled new h]
    _ = put <$> some <$> n.kind.mapM f := by rw [children, Kind.fill_mapM]
    _ = .ok <$> n.mapChildren f := by simp [mapChildren, put]

/-- An action that notes each node it is run on notes the children, each once and in their order. -/
theorem mapChildren_visits (n : Node) (f : Node → Node) (seen : List Node) :
    (n.mapChildren (m := StateM (List Node)) fun c => do
      modify (· ++ [c])
      pure (f c)).run seen = ({ n with kind := n.kind.map f }, seen ++ n.children) := by
  have visited : (n.kind.mapM (m := StateM (List Node)) fun c => do
      modify (· ++ [c])
      pure (f c)).run seen = (n.kind.map f, n.kind.children.foldl (fun s c => s ++ [c]) seen) :=
    Runs.state_kindMapM (fun _ _ _ => rfl) seen
  rw [List.foldl_append_eq_append, ← List.flatMap_def, List.flatMap_singleton'] at visited
  exact congrArg (fun r => (({ n with kind := r.1 } : Node), r.2)) visited

/-- Children are put in as they are listed, and nothing else of a node changes. To change them in their
places is to list them, change the list from the first to the last, and put the results in. -/
theorem children_replaced (n : Node) :
    (∀ new n', n.withChildren new = .ok n' ↔ n'.children = new ∧ n'.outline = n.outline) ∧
    (∀ new, (∃ n', n.withChildren new = .ok n') ↔ new.length = n.children.length) ∧
    (∀ new, new.length ≠ n.children.length →
      n.withChildren new = .error (.childCount n.label n.children.length new.length)) ∧
    n.withChildren n.children = .ok n ∧
    (∀ {m : Type → Type} [Monad m] [LawfulMonad m] (f : Node → m Node),
      n.withChildren <$> n.children.mapM f = Except.ok <$> n.mapChildren f) ∧
    ∀ (f : Node → Node) (seen : List Node), ∃ n', n.withChildren (n.children.map f) = .ok n' ∧
      (n.mapChildren (m := StateM (List Node)) fun c => do
        modify (· ++ [c])
        pure (f c)).run seen = (n', seen ++ n.children) := by
  refine ⟨fun _ _ => withChildren_eq_ok, fun _ => exists_withChildren_iff,
    fun _ => withChildren_refused, withChildren_eq_ok.2 ⟨rfl, rfl⟩, n.withChildren_mapM,
    fun f seen => ⟨_, withChildren_eq_ok.2 ⟨?_, ?_⟩, n.mapChildren_visits f seen⟩⟩
  · exact Kind.children_map f n.kind
  · simp only [outline, Kind.outline, Kind.map_map]

/-- Two steps, one of them a call with an argument. -/
def calledStream : Node :=
  .ofKind (.stream [
    { axis := .child, test := .call "f" [.ofKind (.name "x")], predicates := [.ofKind .this] },
    { axis := .child, test := .name "y", predicates := [.ofKind .stacked] }])

/-- Notes the label of a node and puts a name in its place. -/
def noted (n : Node) : StateM (List String) Node := do
  modify (· ++ [n.label])
  pure (.ofKind (.name n.label))

/-- The arguments of a step come before its conditions, and both before the next step. -/
theorem children_replaced_stream :
    [calledStream].length ≠ calledStream.children.length ∧
      calledStream.withChildren [calledStream] = .error (.childCount "Stream" 3 1) ∧
      LawfulMonad (StateM (List String)) ∧
      calledStream.withChildren <$> calledStream.children.mapM noted =
        Except.ok <$> calledStream.mapChildren noted ∧
      ((calledStream.mapChildren noted).run []).2 = ["Name", "This", "Stacked"] := by
  obtain ⟨-, -, refused, -, mapped, -⟩ := children_replaced calledStream
  exact ⟨by decide, refused [calledStream] (by decide), inferInstance, mapped noted, rfl⟩

end Node

end NavScript
