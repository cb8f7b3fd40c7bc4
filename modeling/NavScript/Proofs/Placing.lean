import NavScript.Proofs.Guards
import NavScript.Proofs.Outlines

/-!
# The place of the receiver

The outlines of the nodes of a tree, each node before its children, determine the tree
(`Node.preorder_inj`). In this order a node is put in the place of the first stacked value: its
outlines stand where the stacked value stood, and all others are kept (`placeStacked_places`). Where
no value is stacked, or nothing is left to place, the tree stays as it is.
-/

namespace NavScript

def Outline.isStacked (s : Outline) : Bool :=
  match s.kind with
  | .stacked => true
  | _ => false

theorem Outline.isStacked_other {kind : Kind Node} {span : Span} {ty : Option Ty}
    (h : kind.label ≠ "Stacked") : isStacked ⟨span, ty, kind.outline⟩ = false := by
  cases kind
  case stacked => exact absurd rfl h
  all_goals rfl

namespace Node

theorem isStacked_outline (n : Node) : n.outline.isStacked = n.isStacked := by
  obtain ⟨span, ty, kind⟩ := n
  cases kind <;> rfl

/-- The outlines of the nodes of a tree, a node before its children. -/
def preorder (n : Node) : List Outline := n.nodes.map outline

theorem preorder_mk (span : Span) (ty : Option Ty) (kind : Kind Node) :
    preorder ⟨span, ty, kind⟩ = ⟨span, ty, kind.outline⟩ :: kind.children.flatMap preorder := by
  simp only [preorder, nodes_mk, List.map_cons, List.map_flatMap]
  rfl

/-- Trees one behind the other are told apart by their outlines, if there are as many of them. -/
theorem forest_split : ∀ {cs cs' : List Node} {rest rest' : List Outline},
    (∀ c ∈ cs, ∀ {c' : Node} {rest rest' : List Outline}, c.preorder ++ rest = c'.preorder ++ rest' →
      c = c' ∧ rest = rest') → cs.length = cs'.length →
    cs.flatMap preorder ++ rest = cs'.flatMap preorder ++ rest' → cs = cs' ∧ rest = rest'
  | [], [], _, _, _, _, h => ⟨rfl, h⟩
  | c :: cs, c' :: cs', rest, rest', tell, hlen, h => by
    simp only [List.flatMap_cons, List.append_assoc] at h
    obtain ⟨rfl, behind⟩ := tell c (List.mem_cons_self ..) h
    obtain ⟨rfl, rfl⟩ := forest_split (fun d hd => tell d (List.mem_cons_of_mem _ hd))
      (Nat.succ.inj hlen) behind
    exact ⟨rfl, rfl⟩

/-- Where the outlines of a tree are read, the tree is known and where its outlines end. -/
theorem preorder_split (n : Node) : ∀ {n' : Node} {rest rest' : List Outline},
    n.preorder ++ rest = n'.preorder ++ rest' → n = n' ∧ rest = rest' := by
  induction n using Node.induct with
  | h span ty kind ih =>
    intro n' rest rest' h
    obtain ⟨span', ty', kind'⟩ := n'
    simp only [preorder_mk, List.cons_append, List.cons.injEq] at h
    obtain ⟨own, below⟩ := h
    obtain ⟨children, rfl⟩ := forest_split ih
      (Kind.length_of_outline (congrArg Outline.kind own)) below
    exact ⟨eq_of_outline own children, rfl⟩

theorem preorder_inj {n n' : Node} (h : n.preorder = n'.preorder) : n = n' := by
  have split : n.preorder ++ [] = n'.preorder ++ [] := by rw [h]
  exact (preorder_split n split).1

end Node

namespace Lower

/-- What placing a node makes of the outlines of a tree, and what is left to place. -/
inductive Places (value : Node) (outlines : List Outline) : List Outline → Option Node → Prop
  | nowhere (unstacked : ∀ s ∈ outlines, s.isStacked = false) :
    Places value outlines outlines (some value)
  | first {before behind : List Outline} {s : Outline} (split : outlines = before ++ s :: behind)
    (unstacked : ∀ x ∈ before, x.isStacked = false) (stacked : s.isStacked = true) :
    Places value outlines (before ++ value.preorder ++ behind) none

theorem Places.left {value v : Node} {outlines outlines' : List Outline}
    (h : Places value outlines outlines' (some v)) :
    v = value ∧ outlines' = outlines ∧ ∀ s ∈ outlines, s.isStacked = false := by
  cases h with
  | nowhere unstacked => exact ⟨rfl, rfl, unstacked⟩

theorem Places.append {value : Node} {outlines outlines' : List Outline}
    (h : Places value outlines outlines' none) (rest : List Outline) :
    Places value (outlines ++ rest) (outlines' ++ rest) none := by
  cases h with
  | @first before behind s split unstacked stacked =>
    rw [List.append_assoc _ behind rest]
    exact .first (by simp [split]) unstacked stacked

theorem Places.behind {value : Node} {front outlines outlines' : List Outline} {left : Option Node}
    (hfront : ∀ s ∈ front, s.isStacked = false) (h : Places value outlines outlines' left) :
    Places value (front ++ outlines) (front ++ outlines') left := by
  cases h with
  | nowhere unstacked =>
    refine .nowhere fun s hs => ?_
    exact (List.mem_append.1 hs).elim (hfront s) (unstacked s)
  | @first before behind s split unstacked stacked =>
    simp only [← List.append_assoc]
    refine .first (by simp [split]) (fun x hx => ?_) stacked
    exact (List.mem_append.1 hx).elim (hfront x) (unstacked x)

theorem runsAll_places {value : Node} : ∀ {zs : List (Node × Node)} {left : Option Node},
    (∀ c ∈ zs, ∀ {left : Option Node}, placing.rel (placeStacked c.1) (some value) c.2 left →
      Places value c.1.preorder c.2.preorder left) →
    placing.RunsAll placeStacked (some value) zs left →
    Places value (zs.flatMap (·.1.preorder)) (zs.flatMap (·.2.preorder)) left
  | [], left, _, h => by
    have placed : left = some value := h
    subst placed
    exact .nowhere (List.forall_mem_nil _)
  | c :: zs, left, step, ⟨mid, hc, hrest⟩ => by
    have first := step c (List.mem_cons_self ..) hc
    simp only [List.flatMap_cons]
    cases mid with
    | some v =>
      obtain ⟨rfl, same, unstacked⟩ := first.left
      rw [same]
      exact (runsAll_places (fun d hd => step d (List.mem_cons_of_mem _ hd)) hrest).behind unstacked
    | none =>
      -- the other children are visited with nothing left to place
      obtain ⟨others, rfl⟩ := Runs.RunsAll.unchanged (fun d _ => placeStacked_none d.1) hrest
      have rest : zs.flatMap (·.2.preorder) = zs.flatMap (·.1.preorder) :=
        List.flatMap_congr fun d hd => congrArg Node.preorder (others d hd)
      rw [rest]
      exact first.append _

/-- A node is placed at the first stacked value in pre-order, or nowhere. -/
theorem placeStacked_places (value n : Node) : ∀ {n' : Node} {left : Option Node},
    placing.rel (placeStacked n) (some value) n' left →
      Places value n.preorder n'.preorder left := by
  induction n using Node.induct with
  | h span ty kind ih =>
    intro n' left h
    by_cases hkind : kind.label = "Stacked"
    · cases kind
      case stacked =>
        have placed : (value, (none : Option Node)) = (n', left) :=
          (placeStacked_stacked span ty value).symm.trans h
        cases placed
        have alone : value.preorder = [] ++ value.preorder ++ [] := by simp
        rw [alone]
        exact .first (Node.preorder_mk ..) (List.forall_mem_nil _) rfl
      all_goals simp [Kind.label] at hkind
    · obtain ⟨kind', hmade, rfl⟩ := placing_other hkind h
      obtain ⟨z, rfl, rfl, hz⟩ := Runs.runs_kindMapM _ hmade
      have below : Places value ((z.map Prod.fst).children.flatMap Node.preorder)
          ((z.map Prod.snd).children.flatMap Node.preorder) left := by
        simp only [Kind.children_map, List.flatMap_map]
        refine runsAll_places (fun c hc => ih c.1 ?_) hz
        rw [Kind.children_map]
        exact List.mem_map_of_mem hc
      have own : (z.map Prod.snd).outline = (z.map Prod.fst).outline := by
        simp only [Kind.outline, Kind.map_map]
      rw [Node.preorder_mk, Node.preorder_mk, own]
      -- the node itself comes before its children, and it is not stacked
      exact below.behind (List.forall_mem_singleton.2 (Outline.isStacked_other hkind))

/-- Placing puts a node in the place of the first stacked value in pre-order and changes nothing else; a
stacked value in that node stays. Without a stacked value the tree stays and the node is left. -/
theorem first_stacked_replaced (n value : Node) :
    ((∀ m ∈ n.nodes, m.isStacked = false) →
      (placeStacked n).run (some value) = (n, some value)) ∧
    ((∃ m ∈ n.nodes, m.isStacked = true) → ∃ before s behind,
      n.preorder = before ++ s :: behind ∧ (∀ x ∈ before, x.isStacked = false) ∧
      s.isStacked = true ∧ ∀ n' left, (placeStacked n).run (some value) = (n', left) ↔
        n'.preorder = before ++ value.preorder ++ behind ∧ left = none) ∧
    (placeStacked n).run none = (n, none) := by
  rcases run : (placeStacked n).run (some value) with ⟨placed, rest⟩
  have places := placeStacked_places value n run
  generalize made : placed.preorder = outlines at places
  refine ⟨fun unstacked => ?_, fun ⟨m, hm, stacked⟩ => ?_, ?_⟩
  · cases places with
    | nowhere => rw [Node.preorder_inj made]
    | @first before behind s split _ stacked =>
      have hs : s ∈ n.preorder := split ▸ List.mem_append_right before (List.mem_cons_self ..)
      obtain ⟨m, hm, rfl⟩ := List.mem_map.1 hs
      rw [Node.isStacked_outline, unstacked m hm] at stacked
      cases stacked
  · cases places with
    | nowhere unstacked =>
      have clear := unstacked m.outline (List.mem_map_of_mem hm)
      rw [Node.isStacked_outline, stacked] at clear
      cases clear
    | @first before behind s split unstacked stacked =>
      refine ⟨before, s, behind, split, unstacked, stacked, fun n' left => ?_⟩
      rw [Prod.mk.injEq]
      constructor
      · rintro ⟨rfl, rfl⟩
        exact ⟨made, rfl⟩
      · rintro ⟨same, rfl⟩
        exact ⟨Node.preorder_inj (made.trans same.symm), rfl⟩
  · rcases run : (placeStacked n).run none with ⟨n', left⟩
    obtain ⟨rfl, rfl⟩ := placeStacked_none n run
    rfl

/-- A call on the stacked value whose argument is the stacked value too. -/
def stackedCall : Node :=
  .ofKind (.methodCall (.stackedOf .string) .string "concat" [.stackedOf .string])

/-- A value that reads the stack itself. -/
def unboxedStacked : Node := .convertTo .unbox (.stackedOf (.prim .int)) (.prim .int)

/-- The receiver of a call is replaced, its argument is not, and neither is what the value reads. -/
theorem first_stacked_replaced_call :
    (∃ m ∈ stackedCall.nodes, m.isStacked = true) ∧
      (placeStacked stackedCall).run (some unboxedStacked) =
        (.ofKind (.methodCall unboxedStacked .string "concat" [.stackedOf .string]), none) ∧
      (∀ m ∈ Node.nodes (.thisOf .string), m.isStacked = false) ∧
      (placeStacked (.thisOf .string)).run (some unboxedStacked) =
        (.thisOf .string, some unboxedStacked) := by
  have reads : ∃ m ∈ stackedCall.nodes, m.isStacked = true := by
    rw [show stackedCall.nodes = [stackedCall, .stackedOf .string, .stackedOf .string] from rfl]
    exact ⟨.stackedOf .string, by simp, rfl⟩
  have clear : ∀ m ∈ Node.nodes (.thisOf .string), m.isStacked = false := by
    rw [show Node.nodes (.thisOf .string) = [.thisOf .string] from rfl, List.forall_mem_singleton]
    rfl
  refine ⟨reads, ?_, clear, (first_stacked_replaced _ _).1 clear⟩
  obtain ⟨before, s, behind, split, unstacked, stacked, placed⟩ :=
    (first_stacked_replaced stackedCall unboxedStacked).2.1 reads
  refine (placed _ _).2 ⟨?_, rfl⟩
  have listed : stackedCall.preorder =
      [stackedCall.outline, (Node.stackedOf .string).outline, (Node.stackedOf .string).outline] := rfl
  rw [listed] at split
  -- the call itself is not stacked, so the split is at its receiver
  rcases before with _ | ⟨call, _ | ⟨receiver, before⟩⟩
  · obtain ⟨rfl, -⟩ := List.cons.inj split
    cases stacked
  · obtain ⟨rfl, others⟩ := List.cons.inj split
    obtain ⟨-, rfl⟩ := List.cons.inj others
    rfl
  · obtain ⟨-, others⟩ := List.cons.inj split
    obtain ⟨rfl, -⟩ := List.cons.inj others
    cases unstacked (Node.stackedOf .string).outline (by simp)

end Lower

end NavScript
