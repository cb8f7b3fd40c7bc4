import Mathlib.Algebra.Order.Group.Multiset
import Mathlib.Tactic.Abel
import NavScript.Proofs.Lowered
import NavScript.Proofs.Passes

/-!
# What lowering carries along

Lowering puts nodes around the links that have nothing of their own to give, except for the names that
they bind. So what is gathered from a lowered navigation is, up to its order, what is gathered from its
links, and the names that were drawn for the elements (`scalar_carries`).
-/

namespace NavScript

variable {α : Type}

/-- Of the nodes that lowering makes, those that bind a name give what there is to it, and the others
nothing. What streams and bare names and calls give is left open: lowering makes none. -/
structure Carried (own : Node → List α) (bind : String → List α) : Prop where
  /-- A node gives the same over other children. -/
  sameOver : ∀ (span : Span) (ty : Option Ty) (z : Kind (Node × Node)),
    own ⟨span, ty, z.map Prod.snd⟩ = own ⟨span, ty, z.map Prod.fst⟩
  /-- Its region and its type make no difference. -/
  moved : ∀ (span span' : Span) (ty ty' : Option Ty) (kind : Kind Node),
    own ⟨span, ty, kind⟩ = own ⟨span', ty', kind⟩
  idle : ∀ n : Node, n.label ∉ ["Stream", "Pipe", "Let", "LocalDecl", "Name", "Call"] → own n = []
  pipe : ∀ span ty op source x body, own ⟨span, ty, .pipe op source x body⟩ = bind x
  letIn : ∀ span ty x value body, own ⟨span, ty, .letIn x value body⟩ = bind x

/-- A node has the same of its own wherever it stands and over any children, and nothing unless it is
of one of the kinds that are left open above, or binds a name. -/
structure Outlined (own : Node → List α) : Prop where
  alike : ∀ {β : Type} (z : Kind β) (f g : β → Node) (span span' : Span) (ty ty' : Option Ty),
    own ⟨span, ty, z.map f⟩ = own ⟨span', ty', z.map g⟩
  idle : ∀ n : Node, n.label ∉ ["Stream", "Pipe", "Let", "LocalDecl", "Name", "Call"] → own n = []

namespace Outlined

variable {own : Node → List α} (outlined : Outlined own)
include outlined

theorem moved (span span' : Span) (ty ty' : Option Ty) (kind : Kind Node) :
    own ⟨span, ty, kind⟩ = own ⟨span', ty', kind⟩ := by
  have same := outlined.alike kind (fun c => c) (fun c => c) span span' ty ty'
  rwa [Kind.map_id] at same

theorem ownOver_eq (f : Node → Node) : ownOver own f = own := by
  funext n
  obtain ⟨span, ty, kind⟩ := n
  have same := outlined.alike kind f (fun c => c) span span ty ty
  rw [Kind.map_id] at same
  exact same

theorem silent : Silent own where
  made n h := by
    refine outlined.idle n fun other => ?_
    simp only [List.mem_cons, List.not_mem_nil, or_false] at h other
    rcases h with h | h | h | h <;> simp [h] at other
  typed span ty op lhs rhs := outlined.idle _ (by simp [Node.label, Kind.label])
  operator n h := outlined.idle n (by simp [h])

theorem carried {bind : String → List α}
    (pipe : ∀ span ty op source x body, own ⟨span, ty, .pipe op source x body⟩ = bind x)
    (letIn : ∀ span ty x value body, own ⟨span, ty, .letIn x value body⟩ = bind x) :
    Carried own bind where
  sameOver span ty z := outlined.alike z Prod.snd Prod.fst span span ty ty
  moved := outlined.moved
  idle := outlined.idle
  pipe := pipe
  letIn := letIn

/-- The passes behind the navigation keep what is read off the nodes. -/
theorem gather_passes (cx : Context) (n : Node) :
    Node.gather own ((settle cx n).transform (returned cx.classes)) = n.gather own := by
  refine outlined.silent.gather_passes cx (fun span ty d => ?_) outlined.ownOver_eq n
  rw [outlined.idle _ (by simp [Node.label, Kind.label]),
    outlined.idle _ (by simp [Node.label, Kind.label])]

end Outlined

section

variable {own : Node → List α} {bind : String → List α} (carried : Carried own bind)
include carried

namespace Carried

theorem gather_moved (span span' : Span) (ty ty' : Option Ty) (kind : Kind Node) :
    Node.gather own ⟨span, ty, kind⟩ = Node.gather own ⟨span', ty', kind⟩ := by
  by_cases h : kind.label = "Stream"
  · cases kind
    case stream steps => rw [gather_stream, gather_stream, carried.moved]
    all_goals simp [Kind.label] at h
  · rw [gather_mk h, gather_mk h, carried.moved]

theorem gather_withSpan (n : Node) (span : Span) :
    (n.withSpan span).gather own = n.gather own := by
  cases n
  exact carried.gather_moved ..

theorem gather_withTy (n : Node) (ty : Ty) : (n.withTy ty).gather own = n.gather own := by
  cases n
  exact carried.gather_moved ..

theorem gather_idle {kind : Kind Node}
    (h : kind.label ∉ ["Stream", "Pipe", "Let", "LocalDecl", "Name", "Call"])
    (span : Span) (ty : Option Ty) :
    Node.gather own ⟨span, ty, kind⟩ = kind.children.flatMap (Node.gather own) := by
  have other : kind.label ≠ "Stream" := by
    intro heq
    simp [heq] at h
  rw [gather_mk other, carried.idle ⟨span, ty, kind⟩ h, List.nil_append]

theorem gather_leaf {kind : Kind Node}
    (h : kind.label ∉ ["Stream", "Pipe", "Let", "LocalDecl", "Name", "Call"])
    (leaf : kind.children = []) (span : Span) (ty : Option Ty) :
    Node.gather own ⟨span, ty, kind⟩ = [] := by
  rw [carried.gather_idle h, leaf, List.flatMap_nil]

/-- Of a node with one child it is what the child has. -/
theorem gather_unary {kind : Kind Node} {e : Node}
    (h : kind.label ∉ ["Stream", "Pipe", "Let", "LocalDecl", "Name", "Call"])
    (child : kind.children = [e]) (span : Span) (ty : Option Ty) :
    Node.gather own ⟨span, ty, kind⟩ = e.gather own := by
  rw [carried.gather_idle h, child, List.flatMap_singleton]

theorem gather_convertTo (c : Conversion) (e : Node) (ty : Ty) :
    (Node.convertTo c e ty).gather own = e.gather own :=
  carried.gather_unary (by simp [Kind.label]) rfl ..

theorem gather_sequence (span : Span) (ty : Option Ty) (items : List Node) :
    Node.gather own ⟨span, ty, .sequence items⟩ = items.flatMap (Node.gather own) :=
  carried.gather_idle (by simp [Kind.label]) ..

theorem gather_conditional (span : Span) (ty : Option Ty) (c t e : Node) :
    Node.gather own ⟨span, ty, .conditional c t e⟩ = c.gather own ++ (t.gather own ++ e.gather own) := by
  rw [carried.gather_idle (by simp [Kind.label])]
  simp [Kind.children]

theorem gather_methodCall (span : Span) (ty : Option Ty) (target : Node) (owner : Ty) (name : String)
    (args : List Node) : Node.gather own ⟨span, ty, .methodCall target owner name args⟩ =
      target.gather own ++ args.flatMap (Node.gather own) :=
  carried.gather_idle (by simp [Kind.label]) ..

theorem gather_pipe (span : Span) (ty : Option Ty) (op : StageKind) (source : Node) (x : String)
    (body : Node) : Node.gather own ⟨span, ty, .pipe op source x body⟩ =
      bind x ++ (source.gather own ++ body.gather own) := by
  rw [gather_mk (by simp [Kind.label]), carried.pipe]
  simp [Kind.children]

theorem gather_letIn (span : Span) (ty : Option Ty) (x : String) (value body : Node) :
    Node.gather own ⟨span, ty, .letIn x value body⟩ =
      bind x ++ (value.gather own ++ body.gather own) := by
  rw [gather_mk (by simp [Kind.label]), carried.letIn]
  simp [Kind.children]

theorem gather_stackedOf (ty : Ty) : (Node.stackedOf ty).gather own = [] :=
  carried.gather_leaf (by simp [Kind.label]) rfl ..

theorem gather_localOf (x : String) (ty : Ty) : (Node.localOf x ty).gather own = [] :=
  carried.gather_leaf (by simp [Kind.label]) rfl ..

theorem gather_nullOf (ty : Ty) : (Node.nullOf ty).gather own = [] :=
  carried.gather_leaf (by simp [Kind.label]) rfl ..

theorem gather_ofLiteral (lit : Literal) : (Node.ofLiteral lit).gather own = [] :=
  carried.gather_leaf (by simp [Kind.label]) rfl ..

theorem gather_ofStackOp (op : StackOp) : (Node.ofStackOp op).gather own = [] :=
  carried.gather_leaf (by simp [Kind.label]) rfl ..

theorem gather_this {n : Node} (h : n.isThis = true) : n.gather own = [] := by
  obtain ⟨span, ty, kind⟩ := n
  cases kind
  case this => exact carried.gather_leaf (by simp [Kind.label]) rfl ..
  all_goals cases h

end Carried

end

namespace Lower

section

variable {own : Node → List α} {bind : String → List α} (carried : Carried own bind)
include carried

/-- The unplaced state is the node, or nothing once it is placed. -/
theorem placeStacked_carries (n : Node) : ∀ {s s' : Option Node} {n' : Node},
    (∀ v ∈ s, v.gather own = []) → (Runs.state (Option Node)).rel (placeStacked n) s n' s' →
      n'.gather own = n.gather own ∧ ∀ v ∈ s', v.gather own = [] := by
  induction n using Node.induct with
  | h span ty kind ih =>
    intro s s' n' hs h
    by_cases hstacked : kind.label = "Stacked" ∧ s.isSome
    · obtain ⟨hlabel, hsome⟩ := hstacked
      obtain ⟨value, rfl⟩ := Option.isSome_iff_exists.1 hsome
      cases kind
      case stacked =>
        have h : (value, (none : Option Node)) = (n', s') :=
          (placeStacked_stacked span ty value).symm.trans h
        cases h
        refine ⟨?_, fun _ h => absurd h (Option.not_mem_none _)⟩
        rw [hs n' rfl, carried.gather_leaf (by simp [Kind.label]) rfl]
      all_goals simp [Kind.label] at hlabel
    · have hother : kind.label ≠ "Stacked" ∨ s = none := by
        cases s <;> simp_all
      have h : (Runs.state (Option Node)).rel
          (do return ⟨span, ty, ← kind.mapM placeStacked⟩) s n' s' :=
        (placeStacked_other hother).symm.trans h
      simp only [Runs.bind_iff, Runs.pure_iff] at h
      obtain ⟨kind', _, hkind, rfl, rfl⟩ := h
      obtain ⟨z, rfl, rfl, hz⟩ := Runs.runs_kindMapM _ hkind
      have all : ∀ {zs : List (Node × Node)} {s s' : Option Node}, (∀ c ∈ zs, c ∈ z.children) →
          (∀ v ∈ s, v.gather own = []) →
          (Runs.state (Option Node)).RunsAll placeStacked s zs s' →
          (∀ c ∈ zs, c.2.gather own = c.1.gather own) ∧ ∀ v ∈ s', v.gather own = [] := by
        intro zs
        induction zs with
        | nil =>
          rintro s s' - hs rfl
          exact ⟨fun _ h => absurd h List.not_mem_nil, hs⟩
        | cons c zs ihz =>
          rintro s s' hmem hs ⟨mid, hc, hrest⟩
          have hchild : c.1 ∈ (z.map Prod.fst).children := by
            rw [Kind.children_map]
            exact List.mem_map_of_mem (hmem c (List.mem_cons_self ..))
          obtain ⟨hc, hmid⟩ := ih c.1 hchild hs hc
          obtain ⟨hrest, hs'⟩ := ihz (fun d hd => hmem d (List.mem_cons_of_mem _ hd)) hmid hrest
          exact ⟨List.forall_mem_cons.2 ⟨hc, hrest⟩, hs'⟩
      obtain ⟨hchildren, hs'⟩ := all (fun _ hc => hc) hs hz
      refine ⟨?_, hs'⟩
      by_cases hk : z.label = "Stream"
      · cases z
        case stream steps =>
          rw [Kind.map, Kind.map, gather_stream, gather_stream]
          exact carried.sameOver span ty (.stream steps)
        all_goals simp [Kind.label] at hk
      · rw [gather_mk (by rw [Kind.label_map]; exact hk),
          gather_mk (by rw [Kind.label_map]; exact hk), carried.sameOver, Kind.children_map,
          Kind.children_map, List.flatMap_map, List.flatMap_map, List.flatMap_def, List.flatMap_def,
          List.map_congr_left hchildren]

theorem readThis_carries (chain : List Node) :
    (readThis chain).flatMap (Node.gather own) = chain.flatMap (Node.gather own) := by
  unfold readThis
  split
  · rename_i head next rest
    split
    · rename_i hthis
      have hhead := carried.gather_this hthis
      have start : ∀ v ∈ some head, v.gather own = [] := by
        rintro v ⟨⟩
        exact hhead
      have placed : ((placeStacked next).run (some head)).1.gather own = next.gather own :=
        (placeStacked_carries carried next start rfl).1
      simp only [List.flatMap_cons, hhead, placed, List.nil_append]
    · rfl
  · rfl

theorem boxedAs_carries (ty : Ty) (n : Node) : (boxedAs ty n).gather own = n.gather own := by
  unfold boxedAs
  split
  · exact carried.gather_convertTo ..
  · rfl

theorem guarded_carries (span : Span) (ty stackedTy : Ty) (subject body : Node) :
    (guarded span ty subject stackedTy body).gather own = subject.gather own ++ body.gather own := by
  have test : Node.gather own { ty := some .boolean, kind := .isNull (.stackedOf stackedTy) } = [] :=
    (carried.gather_unary (by simp [Kind.label]) rfl ..).trans (carried.gather_stackedOf _)
  unfold guarded
  simp only [carried.gather_sequence, carried.gather_conditional, carried.gather_ofStackOp,
    carried.gather_nullOf, test, List.flatMap_cons, List.flatMap_nil, List.nil_append, List.append_nil]

theorem guardLink_carries {b : Bool} {subject body made : Node}
    (h : guardLink b subject body = .ok made) :
    made.gather own = subject.gather own ++ body.gather own := by
  obtain ⟨subjectTy, bodyTy, -, -, rfl⟩ := guardLink_ok.1 h
  have boxed := boxedAs_carries carried bodyTy body
  unfold handed
  split
  · split
    · simp only [guarded_carries carried, carried.gather_convertTo, carried.gather_sequence,
        carried.gather_stackedOf, boxed, List.flatMap_cons, List.flatMap_nil, List.nil_append,
        List.append_nil]
    · simp only [carried.gather_sequence, List.flatMap_cons, List.flatMap_nil, List.append_nil]
  · rw [guarded_carries carried, boxed]

theorem guardLinks_carries {b : Bool} : ∀ {chain : List Node} {made : Node},
    guardLinks b chain = .ok made → made.gather own = chain.flatMap (Node.gather own)
  | [], _, h => absurd h guardLinks_nil
  | [n], _, h => by
    cases h
    simp
  | subject :: next :: rest, _, h => by
    obtain ⟨body, hbody, h⟩ := guardLinks_cons.1 h
    rw [guardLink_carries carried h, guardLinks_carries hbody]
    rfl

theorem close_carries {b : Bool} {chain : List Node} {made : Node}
    (h : close b chain = .ok made) : made.gather own = chain.flatMap (Node.gather own) := by
  rw [guardLinks_carries carried h, readThis_carries carried]

theorem keepIf_carries (param : String) (cond : Node) (ty : Ty) :
    (keepIf param cond ty).gather own = bind param ++ cond.gather own := by
  unfold keepIf
  simp only [carried.gather_letIn, carried.gather_stackedOf, carried.gather_conditional,
    carried.gather_nullOf, List.nil_append]
  split <;> simp only [carried.gather_convertTo, carried.gather_localOf, List.append_nil]

theorem nullSafe_carries (param : String) (cond : Node) (elem : Ty) :
    (nullSafe param cond elem).gather own = cond.gather own := by
  have test : Node.gather own { ty := some .boolean, kind := .isNull (.localOf param elem) } = [] :=
    (carried.gather_unary (by simp [Kind.label]) rfl ..).trans (carried.gather_localOf ..)
  unfold nullSafe
  split
  · rfl
  · simp only [carried.gather_conditional, test, carried.gather_ofLiteral, List.nil_append]

theorem stackedSequence_carries (multi elem : Ty) : (stackedSequence multi elem).gather own = [] :=
  (carried.gather_unary (by simp [Kind.label]) rfl ..).trans (carried.gather_stackedOf _)

theorem collectInto_carries (source : Source) (r : Reduction) :
    (collectInto source r).gather own = source.node.gather own :=
  carried.gather_unary (by simp [Kind.label]) rfl ..

theorem stage_carries {b : Bool} {source source' : Source} {run : List Node} {flatten : Bool}
    {n m : Nat} (h : Makes (stage b source run flatten) n source' m) :
    m = n + 1 ∧ source'.node.gather own =
      bind (freshName "e" n) ++ (source.node.gather own ++ run.flatMap (Node.gather own)) := by
  obtain ⟨body, bodyTy, hbody, -, rfl, made⟩ := makes_stage.1 h
  have hbody := guardLinks_carries carried hbody
  simp only [List.flatMap_cons, carried.gather_localOf, List.nil_append] at hbody
  refine ⟨rfl, ?_⟩
  split at made
  · obtain ⟨inner, -, rfl⟩ := made
    have sequence : Node.gather own { ty := some (streamOf inner), kind := .toSequence body } =
        body.gather own := carried.gather_unary (by simp [Kind.label]) rfl ..
    simp only [pipeOf, carried.gather_pipe, sequence, hbody]
  · simp only [made, pipeOf, carried.gather_pipe, hbody]

end

/-- The names that are drawn for elements while the counter moves. -/
def elements (bind : String → List α) (n m : Nat) : List α :=
  (List.range' n (m - n)).flatMap fun k => bind (freshName "e" k)

section

variable {bind : String → List α}

theorem elements_self (n : Nat) : elements bind n n = [] := by
  unfold elements
  rw [Nat.sub_self]
  rfl

theorem elements_succ (n : Nat) : elements bind n (n + 1) = bind (freshName "e" n) := by
  unfold elements
  rw [Nat.add_sub_cancel_left]
  exact List.append_nil _

theorem elements_append {n mid m : Nat} (h : n ≤ mid) (h' : mid ≤ m) :
    elements bind n mid ++ elements bind mid m = elements bind n m := by
  have last : mid = n + 1 * (mid - n) := by omega
  have length : mid - n + (m - mid) = m - n := by omega
  unfold elements
  rw [← List.flatMap_append]
  congr 1
  rw [← length, ← List.range'_append, ← last]

end

/-- What there is in a link, with the name of its candidate. -/
def linkOwn (own : Node → List α) (bind : String → List α) : Link → List α
  | .step expr _ => expr.gather own
  | .predicate param cond _ => bind param ++ cond.gather own
  | .reduce _ _ => []

section

variable {own : Node → List α} {bind : String → List α} (carried : Carried own bind)
include carried

theorem stage_elements {b : Bool} {source source' : Source} {run : List Node} {flatten : Bool}
    {n m : Nat} (h : Makes (stage b source run flatten) n source' m) :
    (source'.node.gather own).Perm
      (source.node.gather own ++ run.flatMap (Node.gather own) ++ elements bind n m) := by
  obtain ⟨rfl, made⟩ := stage_carries carried h
  rw [made, elements_succ]
  exact List.perm_append_comm

theorem flush_elements {b : Bool} {source source' : Source} {run : List Node} {n m : Nat}
    (h : Makes (flush b source run) n source' m) :
    (source'.node.gather own).Perm
      (source.node.gather own ++ run.flatMap (Node.gather own) ++ elements bind n m) := by
  rcases makes_flush.1 h with ⟨rfl, rfl, rfl⟩ | ⟨-, h⟩
  · rw [elements_self, List.flatMap_nil, List.append_nil, List.append_nil]
  · exact stage_elements carried h

mutual

/-- The lowering of a chain and links has what is in both, and the names of the elements. -/
theorem scalar_carries {b : Bool} : ∀ (links : List Link) {chain : List Node} {n m : Nat}
    {made : Node}, Makes (scalar b chain links) n made m →
      (made.gather own).Perm (chain.flatMap (Node.gather own) ++
        links.flatMap (linkOwn own bind) ++ elements bind n m)
  | [], _, _, _, _, h => by
    obtain ⟨hclose, rfl⟩ := makes_scalar_nil.1 h
    rw [close_carries carried hclose, elements_self]
    simp
  | .step expr ty :: rest, chain, n, m, _, h => by
    rw [makes_scalar_step] at h
    split at h
    · obtain ⟨elem, tail, -, htail, hclose⟩ := h
      have ih := stream_carries rest htail
      rw [stackedSequence_carries carried] at ih
      rw [close_carries carried hclose]
      simp only [List.flatMap_append, List.flatMap_cons, List.flatMap_nil, List.append_nil, linkOwn,
        List.append_assoc] at ih ⊢
      exact List.Perm.append_left _ (List.Perm.append_left _ ih)
    · have ih := scalar_carries rest h
      simpa only [List.flatMap_append, List.flatMap_cons, List.flatMap_nil, List.append_nil, linkOwn,
        List.append_assoc] using ih
  | .predicate param cond ty :: rest, _, _, _, _, h => by
    have ih := scalar_carries rest (makes_scalar_predicate.1 h)
    simpa only [List.flatMap_append, List.flatMap_cons, List.flatMap_nil, List.append_nil, linkOwn,
      keepIf_carries carried, List.append_assoc] using ih
  | .reduce r ty :: rest, chain, n, m, _, h => by
    obtain ⟨_, _, tail, -, -, htail, hclose⟩ := makes_scalar_reduce.1 h
    have ih := scalar_carries rest htail
    rw [close_carries carried hclose]
    simp only [List.flatMap_append, List.flatMap_cons, List.flatMap_nil, List.append_nil, linkOwn,
      collectInto_carries carried, stackedSequence_carries carried, List.nil_append,
      List.append_assoc] at ih ⊢
    exact List.Perm.append_left _ ih

theorem stream_carries {b : Bool} : ∀ (links : List Link) {source : Source} {run : List Node}
    {n m : Nat} {made : Node}, Makes (stream b source run links) n made m →
      (made.gather own).Perm (source.node.gather own ++ run.flatMap (Node.gather own) ++
        links.flatMap (linkOwn own bind) ++ elements bind n m)
  | [], _, _, _, _, _, h => by
    obtain ⟨last, hlast, rfl⟩ := makes_stream_nil.1 h
    simpa using flush_elements carried hlast
  | .step expr ty :: rest, _, _, _, _, _, h => by
    rw [makes_stream_step] at h
    split at h
    · obtain ⟨next, mid, hstage, h⟩ := h
      have ih := stream_carries rest h
      have staged := stage_elements carried hstage
      rw [← elements_append (stage_le hstage) (stream_le rest h)]
      simp only [← Multiset.coe_eq_coe, ← Multiset.coe_add, List.flatMap_append, List.flatMap_cons,
        List.flatMap_nil, List.append_nil, linkOwn] at ih staged ⊢
      rw [ih, staged]
      abel
    · have ih := stream_carries rest h
      simpa only [List.flatMap_append, List.flatMap_cons, List.flatMap_nil, List.append_nil, linkOwn,
        List.append_assoc] using ih
  | .predicate param cond ty :: rest, _, _, _, _, _, h => by
    obtain ⟨next, _, hflush, h⟩ := makes_stream_predicate.1 h
    have ih := stream_carries rest h
    have flushed := flush_elements carried hflush
    rw [← elements_append (flush_le hflush) (stream_le rest h)]
    simp only [← Multiset.coe_eq_coe, ← Multiset.coe_add, List.flatMap_cons, List.flatMap_nil, pipeOf,
      carried.gather_pipe, nullSafe_carries carried, linkOwn] at ih flushed ⊢
    rw [ih, flushed]
    abel
  | .reduce r ty :: rest, _, _, _, _, _, h => by
    obtain ⟨next, _, hflush, h⟩ := makes_stream_reduce.1 h
    have ih := scalar_carries rest h
    have flushed := flush_elements carried hflush
    rw [← elements_append (flush_le hflush) (scalar_le rest h)]
    simp only [← Multiset.coe_eq_coe, ← Multiset.coe_add, List.flatMap_cons, List.flatMap_nil,
      collectInto_carries carried, linkOwn] at ih flushed ⊢
    rw [ih, flushed]
    abel

end

end

end Lower

end NavScript
