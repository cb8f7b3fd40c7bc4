import NavScript.Proofs.Carried
import NavScript.Proofs.Growth
import NavScript.Proofs.Navigators

/-!
# What resolved trees have

A resolution lets its trees have what it tells on its way: what is in the arguments and conditions of
steps, the names of candidates and elements, and the streams that it gives up. `Ledger` names these
sources, and from them `tree_tells` is about whole trees.
-/

namespace NavScript

open Lower Resolve

variable {α : Type} {own : Node → List α} {bind : String → List α} {left : List Span → List α}
  {tells : ResolveState → ResolveState → List α → Prop}

/-- From one state to another it is told what nodes have. -/
structure Ledger (own : Node → List α) (bind : String → List α) (left : List Span → List α)
    (tells : ResolveState → ResolveState → List α → Prop) : Prop extends Carried own bind where
  /-- Bare names and calls have nothing of their own. -/
  bare : ∀ n : Node, n.label ∈ ["Name", "Call"] → own n = []
  /-- A stream is known by the regions of its steps. -/
  stream : ∀ span ty steps, own ⟨span, ty, .stream steps⟩ = left (steps.map (·.span))
  nothing : ∀ {st st'}, ResolveState.Leads st st' → tells st st' []
  append : ∀ {a b c l l'}, tells a b l → tells b c l' → tells a c (l ++ l')
  mono : ∀ {st st' l l'}, tells st st' l → l'.Subperm l → tells st st' l'
  /-- The open scopes do not matter. -/
  scopes : ∀ {st st' l} (s s' : Scopes), tells st st' l →
    tells { st with scopes := s } { st' with scopes := s' } l
  missed : ∀ (st : ResolveState) {step inView span spans}, span ∈ spans →
    tells st { st with diagnostics := st.diagnostics ++ [.unresolvedStep step inView span] }
      (left spans)
  candidate : ∀ st t, tells st (candidateState t st) (bind (freshName "p" st.nextFresh))
  elements : ∀ (st : ResolveState) {m}, st.nextFresh ≤ m →
    tells st { st with nextFresh := m } (elements bind st.nextFresh m)

/-- The values that scopes stand for have nothing. -/
def Scopes.Plain (own : Node → List α) (scopes : Scopes) : Prop :=
  ∀ ty n, Scope.bound ty (.subject n) ∈ scopes → n.gather own = []

theorem Scopes.Plain.grows {a b : Scopes} (h : a.Plain own) (hg : Grows a b) : b.Plain own :=
  fun ty n hmem => h ty n ((hg.mem_bound ..).1 hmem)

theorem Scopes.Plain.push {scopes : Scopes} (h : scopes.Plain own) {scope : Scope}
    (hs : ∀ ty n, scope = .bound ty (.subject n) → n.gather own = []) :
    Plain own (scope :: scopes) := by
  intro ty n hmem
  rcases List.mem_cons.1 hmem with heq | hmem
  · exact hs ty n heq.symm
  · exact h ty n hmem

/-- What the arguments of a step have. -/
def Step.given (own : Node → List α) (step : Step Node) : List α :=
  step.test.children.flatMap (Node.gather own)

section

variable (carried : Carried own bind)
include carried

theorem Answer.given {r : Request} {n : Node} (h : Answer r n) (hr : r.receiver.gather own = []) :
    (n.gather own).Subperm (r.step.given own) := by
  cases h with
  | receiver =>
    rw [carried.gather_withTy, hr]
    exact List.nil_subperm
  | property =>
    rw [Request.propertyRead, carried.gather_unary (by simp [Kind.label]) rfl, hr]
    exact List.nil_subperm
  | method =>
    rw [Request.methodCall, carried.gather_methodCall, hr]
    exact .refl _

/-- The answer to a step has what is in its arguments. -/
theorem resolve_given {cx : Lookup} (hp : cx.navigators.Provided) {scopes : Scopes}
    (hplain : scopes.Plain own) {step : Step Node} {place : Place} {n : Node}
    (h : scopes.resolve cx step place = some n) : (n.gather own).Subperm (step.given own) := by
  obtain ⟨scope, hmem, h⟩ := Scopes.resolve_answer hp h
  cases h with
  | imported =>
    rw [carried.gather_leaf (by simp [Kind.label]) rfl]
    exact List.nil_subperm
  | declared =>
    rw [carried.gather_withSpan, carried.gather_localOf]
    exact List.nil_subperm
  | own =>
    rw [Request.methodCall, carried.gather_methodCall, carried.gather_withSpan,
      carried.gather_this rfl]
    exact .refl _
  | member answer => exact answer.given carried (carried.gather_this rfl)
  | stacked answer => exact answer.given carried (carried.gather_stackedOf _)
  | subject answer => exact answer.given carried (hplain _ _ hmem)

theorem viewed_given {cx : Lookup} (hp : cx.navigators.Provided) {scopes : Scopes}
    (hplain : scopes.Plain own) {view : View} {step : Step Node} {n : Node}
    (h : viewed cx view step scopes = some n) : (n.gather own).Subperm (step.given own) := by
  unfold viewed at h
  split at h
  · exact resolve_given carried hp hplain h
  · exact resolve_given carried hp (hplain.push fun _ _ heq => by cases heq) h

end

theorem reductionLink?_own {view : View} {r : Reduction} {link : Link}
    (h : reductionLink? view r = some link) : linkOwn own bind link = [] := by
  unfold reductionLink? at h
  split at h
  · cases h
  · split at h
    · cases h
      rfl
    · obtain ⟨elem, -, rfl⟩ := Option.map_eq_some_iff.1 h
      rfl

namespace Resolve

/-- What the tree has is told while the action runs. -/
def Telling (own : Node → List α) (tells : ResolveState → ResolveState → List α → Prop)
    (x : Resolve Node) : Prop :=
  ∀ ⦃st n st'⦄, st.scopes.Plain own → Yields x st n st' → tells st st' (n.gather own)

section

variable {cx : Context} (ledger : Ledger own bind left tells)
include ledger

theorem mapM_tells : ∀ {ns ns' : List Node} {st st' : ResolveState},
    (∀ n ∈ ns, Telling own tells (tree cx n)) → st.scopes.Plain own →
      Yields (ns.mapM (tree cx)) st ns' st' → tells st st' (ns'.flatMap (Node.gather own))
  | [], _, st, _, _, _, h => by
    obtain ⟨rfl, rfl⟩ := yields_mapM_nil.1 h
    exact ledger.nothing (.refl _)
  | n :: ns, _, _, _, hns, hplain, h => by
    obtain ⟨n', mid, ns', hn, hrest, rfl⟩ := yields_mapM_cons.1 h
    have first := hns n (List.mem_cons_self ..) hplain hn
    have hmid := hplain.grows (tree_leads _ hn).scopes
    have others := mapM_tells (fun m hm => hns m (List.mem_cons_of_mem _ hm)) hmid hrest
    exact ledger.append first others

theorem gather_bare {kind : Kind Node} (h : kind.label ∈ ["Name", "Call"]) (span : Span)
    (ty : Option Ty) : Node.gather own ⟨span, ty, kind⟩ = kind.children.flatMap (Node.gather own) := by
  have other : kind.label ≠ "Stream" := by
    intro heq
    simp [heq] at h
  rw [gather_mk other, ledger.bare ⟨span, ty, kind⟩ h, List.nil_append]

theorem bare_given (hp : cx.navigators.Provided) {node n : Node} {test : Test Node}
    {st st' : ResolveState} (hplain : st.scopes.Plain own)
    (hnode : node.gather own = test.children.flatMap (Node.gather own))
    (h : Yields (bare cx.lookup node test) st n st') :
    st' = st ∧ (n.gather own).Subperm (test.children.flatMap (Node.gather own)) := by
  obtain ⟨rfl, ⟨-, rfl⟩ | ⟨found, hr, rfl⟩⟩ := yields_bare h
  · exact ⟨rfl, hnode ▸ .refl _⟩
  · rw [ledger.gather_withSpan]
    exact ⟨rfl, resolve_given ledger.toCarried hp hplain hr⟩

/-- The arguments of all steps are told first; the steps keep their conditions. -/
theorem hops_tell {steps : List (Step Node)} {hops : List Hop} {st st' : ResolveState}
    (parts : ∀ c ∈ (Kind.stream steps).children, Telling own tells (tree cx c))
    (hplain : st.scopes.Plain own)
    (h : Yields ((steps.map (·.map (pending cx))).mapM hop) st hops st') :
    tells st st' (hops.flatMap (·.step.given own)) ∧ st'.scopes.Plain own ∧
      ∀ h ∈ hops, ∀ p ∈ h.predicates, ∃ c, p = pending cx c ∧ Telling own tells (tree cx c) := by
  have told := mapM_tells ledger (fun c hc => parts c (mem_children_of_argument hc)) hplain
    (hops_arguments h)
  rw [List.flatMap_assoc] at told
  refine ⟨told, hplain.grows (hops_lead h).scopes, fun made hmade p hp => ?_⟩
  obtain ⟨c, hc, heq⟩ := hops_pending h made hmade p hp
  exact ⟨c, heq, parts c hc⟩

theorem predicates_tell {candidate : Ty} : ∀ {ps : List Pending} {links : List Link}
    {st st' : ResolveState}, (∀ p ∈ ps, ∃ c, p = pending cx c ∧ Telling own tells (tree cx c)) →
      st.scopes.Plain own → Yields (ps.mapM (predicate candidate)) st links st' →
        tells st st' (links.flatMap (linkOwn own bind)) ∧ st'.scopes.Plain own
  | [], _, _, _, _, hplain, h => by
    obtain ⟨rfl, rfl⟩ := yields_mapM_nil.1 h
    exact ⟨ledger.nothing (.refl _), hplain⟩
  | p :: ps, _, st, _, hps, hplain, h => by
    obtain ⟨link, mid, links, hpred, hrest, rfl⟩ := yields_mapM_cons.1 h
    obtain ⟨c, rfl, hc⟩ := hps p (List.mem_cons_self ..)
    have hmid := hplain.grows (Leading.predicate (tree_leads c) hpred).scopes
    obtain ⟨cond, inner, top, rest, hcond, -, rfl, rfl⟩ := yields_predicate.1 hpred
    have hcandidate : (candidateState candidate st).scopes.Plain own := by
      refine hplain.push fun ty n heq => ?_
      cases heq
      exact ledger.gather_localOf ..
    obtain ⟨others, hlast⟩ :=
      predicates_tell (fun q hq => hps q (List.mem_cons_of_mem _ hq)) hmid hrest
    have first := ledger.append (ledger.candidate st candidate) (hc hcandidate hcond)
    exact ⟨ledger.append (ledger.scopes st.scopes rest first) others, hlast⟩

/-- Links that are found have what is in arguments, and what is told of the conditions. A stream that
misses a step is told. -/
theorem links_tell (hp : cx.navigators.Provided) : ∀ {hops : List Hop} {view : View}
    {found : Option (List Link)} {st st' : ResolveState},
    (∀ h ∈ hops, ∀ p ∈ h.predicates, ∃ c, p = pending cx c ∧ Telling own tells (tree cx c)) →
      st.scopes.Plain own → Yields (links cx.lookup view hops) st found st' →
        (found = none → ∀ spans, (∀ h ∈ hops, h.step.span ∈ spans) → tells st st' (left spans)) ∧
        ∀ list, found = some list → ∃ conditions, tells st st' conditions ∧
          (list.flatMap (linkOwn own bind)).Subperm
            (hops.flatMap (·.step.given own) ++ conditions)
  | [], _, _, _, _, _, _, h => by
    obtain ⟨rfl, rfl⟩ := yields_links_nil.1 h
    refine ⟨fun heq => (Option.some_ne_none _ heq).elim, fun list heq => ?_⟩
    cases heq
    exact ⟨[], ledger.nothing (.refl _), List.nil_subperm⟩
  | hop :: rest, view, _, st, _, hhops, hplain, h => by
    rcases yields_links_cons.1 h with ⟨-, rfl, rfl⟩ | ⟨link, cs, mid, others, hl, hc, ho, rfl⟩
    · exact ⟨fun _ spans all => ledger.missed st (all hop (List.mem_cons_self ..)),
        fun list heq => (Option.some_ne_none list heq.symm).elim⟩
    · obtain ⟨hconditions, hmid⟩ :=
        predicates_tell ledger (hhops hop (List.mem_cons_self ..)) hplain hc
      obtain ⟨missed, found⟩ :=
        links_tell hp (fun h hh => hhops h (List.mem_cons_of_mem _ hh)) hmid ho
      refine ⟨fun heq spans all => ?_, fun list heq => ?_⟩
      · have later := missed (Option.map_eq_none_iff.1 heq) spans fun h hh =>
          all h (List.mem_cons_of_mem _ hh)
        exact ledger.mono (ledger.append hconditions later) (List.sublist_append_right ..).subperm
      · obtain ⟨list, rfl, rfl⟩ := Option.map_eq_some_iff.1 heq
        obtain ⟨conditions, told, sub⟩ := found list rfl
        have hlink : (linkOwn own bind link).Subperm (hop.step.given own) := by
          generalize hsome : some link = found at hl
          cases hl with
          | reduction =>
            rw [reductionLink?_own hsome.symm]
            exact List.nil_subperm
          | missing => cases hsome
          | step _ answer =>
            cases hsome
            exact viewed_given ledger.toCarried hp hplain answer
        refine ⟨cs.flatMap (linkOwn own bind) ++ conditions, ledger.append hconditions told, ?_⟩
        -- the conditions of the first step stand before the arguments of the others
        have swapped : (hop.step.given own ++ (cs.flatMap (linkOwn own bind) ++
            (rest.flatMap (·.step.given own) ++ conditions))).Perm
            (hop.step.given own ++ rest.flatMap (·.step.given own) ++
              (cs.flatMap (linkOwn own bind) ++ conditions)) := by
          rw [List.append_assoc]
          refine List.Perm.append_left _ ?_
          rw [← List.append_assoc, ← List.append_assoc]
          exact List.Perm.append_right _ List.perm_append_comm
        simp only [List.flatMap_cons, List.cons_append, List.flatMap_append]
        exact (hlink.append ((List.Subperm.refl _).append sub)).trans swapped.subperm

theorem stream_tells (hp : cx.navigators.Provided) {span : Span} {ty : Option Ty}
    {steps : List (Step Node)} {n : Node} {st st' : ResolveState}
    (parts : ∀ c ∈ (Kind.stream steps).children, Telling own tells (tree cx c))
    (hplain : st.scopes.Plain own)
    (h : Yields (stream cx span ty (steps.map (·.map (pending cx)))) st n st') :
    tells st st' (n.gather own) := by
  obtain ⟨-, hops, mid, found, last, hh, hl, h⟩ := yields_stream.1 h
  obtain ⟨hargs, hmid, hps⟩ := hops_tell ledger parts hplain hh
  obtain ⟨missed, linked⟩ := links_tell ledger hp hps hmid hl
  rcases h with ⟨rfl, rfl, rfl⟩ | ⟨list, made, next, rfl, hmade, rfl, rfl⟩
  · rw [gather_stream, ledger.stream]
    have spans : ((steps.map (·.map (pending cx))).map (·.map (·.written))).map (·.span) =
        hops.map (·.step.span) := by
      rw [hops_spans hh, List.map_map]
      rfl
    have told := missed rfl (hops.map (·.step.span)) fun h hh => List.mem_map_of_mem hh
    rw [spans]
    exact ledger.mono (ledger.append hargs told) (List.sublist_append_right ..).subperm
  · obtain ⟨conditions, told, sub⟩ := linked list rfl
    have lowered := ledger.elements last (scalar_le list hmade)
    have made := scalar_carries ledger.toCarried list hmade
    rw [List.flatMap_nil, List.nil_append] at made
    rw [ledger.gather_withSpan]
    exact ledger.mono (ledger.append (ledger.append hargs told) lowered)
      (made.subperm.trans (sub.append (.refl _)))

omit ledger in
theorem initialScopes_plain (carried : Carried own bind) (env : Environment) (root : Node) :
    (initialScopes env root).Plain own := by
  intro ty n hmem
  simp only [initialScopes, List.cons_append, List.mem_cons, List.mem_append, Option.mem_toList,
    Option.map_eq_some_iff, List.not_mem_nil, or_false, reduceCtorEq, Scope.bound.injEq,
    Origin.subject.injEq, and_false, exists_false, false_or] at hmem
  rw [hmem.2]
  exact carried.gather_this rfl

/-- What a resolved tree has is told while the resolution runs, where the tree itself has nothing. -/
theorem tree_tells (hp : cx.navigators.Provided) (n : Node)
    (quiet : ∀ c ∈ n.nodes, c.label ∈ ["Pipe", "Let", "LocalDecl"] → own c = []) :
    Telling own tells (tree cx n) := by
  induction n using Node.induct with
  | h span ty kind ih =>
    have children : ∀ c ∈ kind.children, Telling own tells (tree cx c) := fun c hc =>
      ih c hc fun d hd => quiet d (Node.mem_nodes_of_child hc hd)
    intro st n st' hplain h
    cases nodeRun h with
    | @stream steps n run =>
      exact stream_tells ledger hp children hplain run
    | name run =>
      obtain ⟨rfl, sub⟩ := bare_given ledger hp hplain (gather_bare ledger (by simp [Kind.label]) ..) run
      exact ledger.mono (ledger.nothing (.refl _)) sub
    | call hargs run =>
      have hmid := hplain.grows (Leading.mapM (fun c _ => tree_leads c) hargs).scopes
      obtain ⟨rfl, sub⟩ := bare_given ledger hp hmid (gather_bare ledger (by simp [Kind.label]) ..) run
      exact ledger.mono (mapM_tells ledger children hplain hargs) sub
    | methodDecl run =>
      obtain ⟨mid, top, rest, hrun, -, rfl⟩ := yields_inScope.1 run
      rw [ledger.gather_idle (by simp [Kind.label])]
      have body := mapM_tells ledger children (hplain.push fun _ _ heq => by cases heq) hrun
      have told := ledger.scopes st.scopes rest body
      exact told
    | @localDecl x written value value' mid run last =>
      have none : own ⟨span, written <|> value'.ty, .localDecl x written value'⟩ = [] := by
        have same := ledger.sameOver span (written <|> value'.ty) (.localDecl x written (value, value'))
        refine same.trans ((ledger.moved ..).trans (quiet _ (Node.mem_nodes_self _) ?_))
        exact List.mem_cons_of_mem _ (List.mem_cons_of_mem _ (List.mem_cons_self ..))
      rw [gather_mk (by simp [Kind.label]), none, List.nil_append, last]
      have value : tells st mid ([value'].flatMap (Node.gather own)) := by
        rw [List.flatMap_singleton]
        exact children value (List.mem_singleton.2 rfl) hplain run
      unfold declared
      split
      · exact ledger.scopes st.scopes _ value
      · exact value
    | script run =>
      rw [ledger.gather_idle (by simp [Kind.label])]
      exact mapM_tells ledger children hplain run
    | @children kind kind' other run =>
      obtain ⟨z, rfl, rfl, -⟩ := runs.runs_kindMapM run
      obtain ⟨run, label⟩ := runs.runs_children run
      rw [Kind.label_map, Kind.label_map] at label
      have hk : z.label ≠ "Stream" := by
        rw [Kind.label_map] at other
        intro heq
        simp [heq] at other
      have none : own ⟨span, ty, z.map Prod.snd⟩ = [] := by
        rw [ledger.sameOver]
        by_cases binds : z.label ∈ ["Pipe", "Let", "LocalDecl"]
        · refine quiet _ (Node.mem_nodes_self _) ?_
          unfold Node.label
          rw [Kind.label_map]
          exact binds
        · refine ledger.idle _ fun listed => ?_
          unfold Node.label at listed
          rw [Kind.label_map] at listed
          rw [Kind.label_map] at other
          simp only [List.mem_cons, List.not_mem_nil, or_false, not_or] at other binds listed
          simp [other, binds] at listed
      rw [gather_mk (by rw [Kind.label_map]; exact hk), none, List.nil_append]
      exact mapM_tells ledger children hplain run

end

end Resolve

end NavScript
