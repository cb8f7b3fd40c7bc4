import NavScript.Proofs.ScopeChain
import NavScript.Proofs.Unguarded
import NavScript.Proofs.VoidVisits

/-!
# `this` in resolved trees

What a scope answers and what is left of a bare name have no guard, so in a resolved script `this` is
guarded by the lowering of streams alone. If no stream that is visited stays on it twice (`Lingers`), it is
guarded nowhere (`part_unguarded`).
-/

namespace NavScript

/-- No sequence is written in the tree, and so no guard. -/
def Node.SequenceFree (n : Node) : Prop := ∀ m ∈ n.nodes, m.label ≠ "Sequence"

section

variable {n : Node}

theorem Node.IsLeaf.unguarded (h : n.IsLeaf) : n.Unguarded := by
  obtain ⟨span, ty, kind⟩ := n
  obtain ⟨-, none⟩ := h
  refine unguarded_mk.2 ⟨?_, ?_⟩
  · cases kind
    case sequence =>
      cases none
      rfl
    all_goals rfl
  · rw [show kind.children = [] from none]
    exact fun _ hc => absurd hc List.not_mem_nil

theorem Node.SequenceFree.unguarded (free : n.SequenceFree) : n.Unguarded :=
  fun m hm => guardsThis_of_other (free m hm)

theorem Node.FrontEnd.sequenceFree (front : n.FrontEnd) : n.SequenceFree := by
  intro m hm label
  have listed := front.kinds m hm
  simp [label] at listed

theorem Request.methodCall_clear {r : Request} (receiver : r.receiver.Unguarded)
    (args : ∀ a ∈ r.args, a.Unguarded) (owner : Ty) (name : String) (ty : Ty) :
    (r.methodCall owner name ty).Clear :=
  clear_of_children (by simp [Kind.label]) (List.forall_mem_cons.2 ⟨receiver, args⟩)

theorem Answer.unguarded {r : Request} (h : Answer r n) (leaf : r.receiver.IsLeaf)
    (args : ∀ a ∈ r.args, a.Unguarded) : n.Unguarded := by
  cases h with
  | receiver => exact Node.IsLeaf.unguarded (n := r.receiver.withTy r.receiverTy) leaf
  | property => exact (clear_single (by simp [Kind.label]) rfl leaf.unguarded).unguarded
  | method => exact (Request.methodCall_clear leaf.unguarded args _ _ _).unguarded

theorem Answer.isThis {r : Request} (h : Answer r n) (other : r.receiver.isThis = false) :
    n.isThis = false := by
  cases h with
  | receiver => exact other
  | property | method => rfl

/-- An answer behind the head is a link without a guard over `this`. -/
theorem Answer.guardless {step : Step Node} {t : Ty} {classes : ClassTable}
    (h : Answer ⟨step, .stackedOf t, t, classes⟩ n) (args : ∀ a ∈ step.test.children, a.Unguarded)
    (ty : Ty) : (Link.step n ty).Guardless :=
  ⟨⟨h.unguarded ⟨rfl, rfl⟩ args, h.isThis rfl⟩, h.first, h.inPlace⟩

theorem ScopeAnswer.unguarded {classes : ClassTable} {step : Step Node} {scope : Scope}
    (h : ScopeAnswer classes step scope n)
    (subject : ∀ ty m, scope = .bound ty (.subject m) → m.IsLeaf)
    (args : ∀ a ∈ step.test.children, a.Unguarded) : n.Unguarded := by
  have leaf (ty : Ty) (kind : Kind Node) (h : kind.glues = true ∧ kind.children = []) :
      Node.Unguarded ⟨step.span, some ty, kind⟩ := Node.IsLeaf.unguarded h
  cases h with
  | imported | declared => exact leaf _ _ ⟨rfl, rfl⟩
  | @own ty _ _ _ _ =>
    have this : ((Node.thisOf ty).withSpan step.span).Unguarded := leaf _ _ ⟨rfl, rfl⟩
    exact (Request.methodCall_clear (r := ⟨step, _, ty, classes⟩) this args _ _ _).unguarded
  | member answer | stacked answer => exact answer.unguarded ⟨rfl, rfl⟩ args
  | subject answer => exact answer.unguarded (subject _ _ rfl) args

/-- Over leaves, what the scopes answer has the guards of the arguments. -/
theorem Scopes.resolve_unguarded {cx : Lookup} (hp : cx.navigators.Provided) {scopes : Scopes}
    (leaves : scopes.Over Node.IsLeaf) {step : Step Node} (args : ∀ a ∈ step.test.children, a.Unguarded)
    {place : Place} (h : scopes.resolve cx step place = some n) : n.Unguarded := by
  obtain ⟨scope, hs, answered⟩ := Scopes.resolve_answer hp h
  exact answered.unguarded (leaves.subject scope hs) args

end

namespace Resolve

/-- What is visited below a visit, itself included. -/
inductive Below (cx : Context) : Visit → Visit → Prop
  | refl (v : Visit) : Below cx v v
  | part {v w x : Visit} (mem : w ∈ parts cx v) (below : Below cx w x) : Below cx v x

/-- Nothing else is visited below a visit without parts. -/
theorem Below.alone {cx : Context} {v w : Visit} (below : Below cx v w) (none : parts cx v = []) : w = v := by
  cases below with
  | refl => rfl
  | part mem =>
    rw [none] at mem
    cases mem

/-- The visit is of a stream that is lowered from links that stay on `this` twice. -/
def Lingers (cx : Context) (v : Visit) : Prop :=
  ∃ steps links n st', v.node.kind = .stream steps ∧
    Navigates cx v.node.span (steps.map (·.map (pending cx))) v.state links n st' ∧ StaysTwice links

section

variable {cx : Context} {st st' : ResolveState} {n : Node}

/-- If no part of a stream ends in such a node, no argument of its steps is one, and no condition among its
links. -/
theorem stream_parts_none {q : Node → Prop} {span : Span} {ty : Option Ty} {steps : List (Step Node)}
    {hops : List Hop} {mid : ResolveState} {list : List Link} (leaves : st.scopes.Over Node.IsLeaf)
    (hopsRun : Yields ((steps.map (·.map (pending cx))).mapM hop) st hops mid)
    (linksRun : Yields (links cx.lookup {} hops) mid (some list) st')
    (none : ¬ ∃ w ∈ parts cx ⟨st, span, ty, .stream steps⟩, EndsIn cx q w) :
    (∀ h ∈ hops, ∀ a ∈ h.step.test.children, ¬ q a) ∧ ∀ x m t, .predicate x m t ∈ list → ¬ q m := by
  obtain ⟨same, all, -⟩ := argumentVisits_ran hopsRun
  obtain ⟨-, resolved⟩ := hops_run hopsRun
  simp only [parts, show ((steps.map (·.map (pending cx))).mapM hop).run st = _ from hopsRun, hopsRun.after,
    ← all, List.mem_append, or_and_right, exists_or, not_or] at none
  obtain ⟨arguments, conditions⟩ := none
  have args : ∀ pair ∈ (argumentVisits cx st steps).zip hops, ∀ a ∈ pair.2.step.test.children, ¬ q a := by
    intro pair hpair a ha made
    obtain ⟨w, hw, ends⟩ := (argumentVisits_end hopsRun pair hpair).1 ⟨a, ha, made⟩
    exact arguments ⟨w, List.mem_flatMap.2 ⟨pair, hpair, hw⟩, ends⟩
  refine ⟨fun h hmem => ?_, fun x m t hmem made => ?_⟩
  · rw [← same] at hmem
    obtain ⟨pair, hpair, rfl⟩ := List.mem_map.1 hmem
    exact args pair hpair
  · have grown := (hops_lead hopsRun).scopes.over leaves
    rw [← same] at linksRun resolved
    -- of the links only the conditions count, since no argument of a step is such a node
    have ends := links_end (q := q) (Q := fun l => ∃ x m t, l = .predicate x m t ∧ q m) ?_ ?_ resolved grown
      (argumentVisits_end hopsRun) linksRun
    · obtain ⟨w, hw, ends⟩ := ends.1 ⟨_, hmem, x, m, t, rfl, made⟩
      rcases List.mem_append.1 hw with hw | hw
      · exact arguments ⟨w, linkArguments_subset hw, ends⟩
      · exact conditions ⟨w, same ▸ hw, ends⟩
    · intro x m t
      refine ⟨?_, fun made => ⟨x, m, t, rfl, made⟩⟩
      rintro ⟨_, _, _, heq, made⟩
      cases heq
      exact made
    · intro pair hpair view scopes link _ hlink
      refine iff_of_false ?_ ?_
      · rintro ⟨x, m, t, rfl, -⟩
        rcases linkOf_some hlink with ⟨r, hr⟩ | ⟨_, _, -, -, heq⟩
        · cases (reductionLink?_reduce hr).choose_spec
        · cases heq
      · rintro ⟨-, a, ha, made⟩
        exact args pair hpair a ha made

variable (hp : cx.navigators.Provided)
include hp

theorem bare_unguarded {span : Span} {ty : Option Ty} {kind : Kind Node} {test : Test Node}
    (leaves : st.scopes.Over Node.IsLeaf) (args : ∀ a ∈ test.children, a.Unguarded)
    (unanswered : Node.Unguarded ⟨span, ty, kind⟩)
    (h : Yields (bare cx.lookup ⟨span, ty, kind⟩ test) st n st') : n.Unguarded := by
  obtain ⟨-, ⟨-, rfl⟩ | ⟨found, answer, rfl⟩⟩ := yields_bare h
  · exact unanswered
  · exact (Scopes.resolve_unguarded hp leaves args answer).withSpan _

/-- What a stream is lowered to guards no `this` if its parts guard none and it does not linger. -/
theorem stream_unguarded {span : Span} {ty : Option Ty} {steps : List (Step Node)}
    (free : Node.SequenceFree ⟨span, ty, .stream steps⟩) (leaves : st.scopes.Over Node.IsLeaf)
    (once : ¬ Lingers cx ⟨st, span, ty, .stream steps⟩)
    (h : Yields (tree cx ⟨span, ty, .stream steps⟩) st n st')
    (below : ¬ ∃ w ∈ parts cx ⟨st, span, ty, .stream steps⟩, EndsIn cx (¬ ·.Unguarded) w) :
    n.Unguarded := by
  rw [tree_mk] at h
  obtain ⟨nonempty, hops, mid, found, last, hh, hl, h⟩ := yields_stream.1 h
  rcases h with ⟨-, -, rfl⟩ | ⟨list, made, next, rfl, hmade, -, rfl⟩
  · rw [pending_written]
    exact free.unguarded
  · obtain ⟨-, hps⟩ := hops_run hh
    have grown := (hops_lead hh).scopes.over leaves
    have leading := Hops.conditions hps
    obtain ⟨hop, hhop, head, t, rest, rfl, answer, typed, -, origins⟩ :=
      leading_links hp nonempty hh leading grown hl
    obtain ⟨args, conditions⟩ := stream_parts_none leaves hh hl below
    have args : ∀ h ∈ hops, ∀ a ∈ h.step.test.children, a.Unguarded := fun h hmem a ha =>
      not_not.1 (args h hmem a ha)
    have links : ∀ link ∈ rest, link.Guardless := by
      intro link hlink
      cases origins link hlink with
      | step mem answer => exact answer.guardless (args _ mem) _
      | condition => exact not_not.1 (conditions _ _ _ (List.mem_cons_of_mem _ hlink))
      | reduction => trivial
    have twice : ¬ StaysTwice (.step head t :: rest) := fun stays =>
      once ⟨steps, _, _, _, rfl, .lowered hh hl hmade, stays⟩
    have head := Scopes.resolve_unguarded hp grown (args hop hhop) answer
    exact (lowered_unguarded typed head links twice hmade).withSpan span

/-- What a visit makes guards no `this` if its parts guard none and it is of no stream that lingers. -/
theorem visit_unguarded {v : Visit} (free : v.node.SequenceFree) (leaves : v.state.scopes.Over Node.IsLeaf)
    (once : ¬ Lingers cx v) (h : Yields (tree cx v.node) v.state n st')
    (below : ¬ ∃ w ∈ parts cx v, EndsIn cx (¬ ·.Unguarded) w) : n.Unguarded := by
  by_cases other : v.node.label ∉ ["Stream", "Name", "Call"]
  · obtain ⟨label, made⟩ := children_end (q := (¬ ·.Unguarded)) h other
    have own : n.label ≠ "Sequence" := label ▸ free _ (Node.mem_nodes_self _)
    obtain ⟨span, ty, kind⟩ := n
    rw [unguarded_of_other own]
    intro c hc
    by_contra guarded
    exact below (made.1 ⟨c, hc, guarded⟩)
  obtain ⟨st, span, ty, kind⟩ := v
  cases nodeRun h with
  | stream => exact stream_unguarded hp free leaves once h below
  | @name x n run =>
    have unanswered : Node.Unguarded ⟨span, ty, .name x⟩ := unguarded_leaf (by simp [Kind.label]) rfl
    exact bare_unguarded hp leaves (fun _ ha => absurd ha List.not_mem_nil) unanswered run
  | @call x args args' mid n hargs run =>
    have later := (Leading.mapM (fun c _ => tree_leads c) hargs).scopes.over leaves
    have given : ∀ a ∈ (Test.call x args').children, a.Unguarded := by
      intro a ha
      by_contra guarded
      exact below ((visits_end hargs).1 ⟨a, ha, guarded⟩)
    have unanswered : Node.Unguarded ⟨span, ty, .call x args'⟩ :=
      (unguarded_of_other (by simp [Kind.label])).2 given
    exact bare_unguarded hp later given unanswered run
  | methodDecl | localDecl | script => exact absurd (by simp [Node.label, Kind.label]) other
  | children listed =>
    simp only [List.mem_cons, List.not_mem_nil, or_false, not_or] at listed
    exact absurd (by simp [Node.label, listed]) other

omit hp in
/-- The parts of a visit are visited with scopes over leaves, if the visit is. -/
theorem parts_leaves {v : Visit} (leaves : v.state.scopes.Over Node.IsLeaf)
    (h : Yields (tree cx v.node) v.state n st') :
    ∀ w ∈ parts cx v, w.node ∈ v.node.kind.children ∧ w.state.scopes.Over Node.IsLeaf := by
  have keeps (c : Node) : Keeping (fun st => st.scopes.Over Node.IsLeaf) (tree cx c) ∧
      ∀ t, Keeping (fun st => st.scopes.Over Node.IsLeaf) (predicate t (pending cx c)) :=
    ⟨fun _ _ _ run start => (tree_leads c run).scopes.over start,
      fun _ _ _ _ run start => (Leading.predicate (tree_leads c) run).scopes.over start⟩
  have candidate (t : Ty) (st : ResolveState) (start : st.scopes.Over Node.IsLeaf) :
      (candidateState t st).scopes.Over Node.IsLeaf := by
    refine Scopes.Over.cons start fun ty origin heq => ?_
    cases heq
    exact ⟨_, rfl, rfl, rfl⟩
  exact parts_good (fun c _ => keeps c) leaves (fun d _ => Scopes.Over.cons leaves (by nofun)) candidate h

omit hp in
theorem Visited.leaves {root root' : Node} {last : ResolveState} {v : Visit} (h : Visited cx root v)
    (run : Yields (tree cx root) { scopes := initialScopes cx.env root } root' last) :
    v.state.scopes.Over Node.IsLeaf := by
  induction h with
  | root => exact initialScopes_leaves cx.env root
  | part above mem ih =>
    obtain ⟨⟨n, st, made⟩, -⟩ := above.run run
    exact (parts_leaves ih made _ mem).2

/-- What is made of a part of a script guards no `this` if no sequence is written in it and no stream that is
visited below lingers. -/
theorem part_unguarded {v : Visit} (free : v.node.SequenceFree)
    (leaves : v.state.scopes.Over Node.IsLeaf) (once : ∀ w, Below cx v w → ¬ Lingers cx w)
    (h : Yields (tree cx v.node) v.state n st') : n.Unguarded := by
  -- by induction on the tree that is visited
  generalize hm : v.node = m
  induction m using Node.induct generalizing v n st' with
  | h span ty kind ih =>
    refine visit_unguarded hp free leaves (once v (.refl v)) h ?_
    rintro ⟨w, hw, n', last, made, guarded⟩
    obtain ⟨child, below⟩ := parts_leaves leaves h w hw
    have inside : w.node.SequenceFree := fun m hm => free m (Node.mem_nodes_of_child child hm)
    rw [hm] at child
    exact guarded (ih w.node child inside below (fun x hx => once x (.part hw hx)) made rfl)

end

end Resolve

end NavScript
