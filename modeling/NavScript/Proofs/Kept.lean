import NavScript.Proofs.Arguments
import NavScript.Proofs.Visits

/-!
# What is carried on

Of the parts of a visit all go on into what it makes, except for the arguments of a call that is read as a
property (`carried`). A visit is kept if this is so all the way up to the script, and then what it makes is
in the resolved script, unless a step is reported (`Kept.ran`). Where methods alone are filed under calls
all visits are kept (`Visited.kept`), and where no step is reported each node of the tree is visited once
(`parts_nodes`).
-/

namespace NavScript

namespace Resolve

/-- What the scopes answer to a bare name or call, once its arguments are resolved. -/
def bareAnswer? (cx : Context) (v : Visit) : Option Node :=
  match v.node.kind with
  | .name x =>
    v.state.scopes.resolve cx.lookup { span := v.node.span, axis := .child, test := .name x } .head
  | .call x args =>
    match (args.mapM (tree cx)).run v.state with
    | (.ok args, st) =>
      st.scopes.resolve cx.lookup { span := v.node.span, axis := .child, test := .call x args } .head
    | (.error _, _) => none
  | _ => none

/-- Whether a link leaves out the arguments of its step. -/
def readsOnly : Link → Bool
  | .step expr _ => expr.isRead
  | _ => false

/-- The visits of the arguments of steps, step by step. -/
def argumentVisits (cx : Context) (st : ResolveState) : List (Step Node) → List (List Visit)
  | [] => []
  | s :: rest =>
    visits cx st s.test.children ::
      argumentVisits cx (after (s.test.children.mapM (tree cx)) st) rest

/-- The visits of arguments that links have: of all steps, or of those up to a step without a link and
behind it, except for steps that are read as a property. -/
def linkArguments (cx : Lookup) (view : View) (st : ResolveState) : List (List Visit × Hop) → List Visit
  | [] => []
  | (args, h) :: rest =>
    let hops := rest.map Prod.snd
    match ((link? cx view h.step).run st).1 with
    | .ok (some link) =>
      (if readsOnly link then [] else args) ++
        linkArguments cx (nextView view link h hops)
          (after (h.predicates.mapM (predicate (candidateTy view link h hops))) st) rest
    | _ => args ++ rest.flatMap Prod.fst

/-- The parts of a visit that its resolution carries on: all but the arguments of a call that is read
as a property. -/
def carried (cx : Context) (v : Visit) : List Visit :=
  match v.node.kind with
  | .stream steps =>
    let hopping := (steps.map (·.map (pending cx))).mapM hop
    match (hopping.run v.state).1 with
    | .ok hops =>
      linkArguments cx.lookup {} (after hopping v.state) ((argumentVisits cx v.state steps).zip hops) ++
        linkVisits cx.lookup {} (after hopping v.state) hops
    | .error _ => []
  | .call _ args => if (bareAnswer? cx v).any Node.isRead then [] else visits cx v.state args
  | _ => parts cx v

theorem carried_of_other {cx : Context} {st : ResolveState} {span : Span} {ty : Option Ty}
    {kind : Kind Node} (h : kind.label ∉ ["Stream", "Call"]) :
    carried cx ⟨st, span, ty, kind⟩ = parts cx ⟨st, span, ty, kind⟩ := by
  cases kind
  case stream | call => exact absurd (by simp [Kind.label]) h
  all_goals rfl

/-- The visit makes the node, and what it reports stays. -/
def Ran (cx : Context) (v : Visit) (n : Node) (st' : ResolveState) : Prop :=
  ∃ last, Yields (tree cx v.node) v.state n last ∧ last.diagnostics ⊆ st'.diagnostics

theorem Ran.later {cx : Context} {v : Visit} {n : Node} {st st' : ResolveState} (h : Ran cx v n st)
    (le : st.diagnostics ⊆ st'.diagnostics) : Ran cx v n st' := by
  obtain ⟨last, run, sub⟩ := h
  exact ⟨last, run, List.Subset.trans sub le⟩

theorem Ran.leads {cx : Context} {v : Visit} {n : Node} {st st' : ResolveState} (h : Ran cx v n st)
    (leads : ResolveState.Leads st st') : Ran cx v n st' := by
  obtain ⟨new, heq, -⟩ := leads.diagnostics
  exact h.later (by rw [heq]; exact List.subset_append_left ..)

variable {cx : Context}

theorem visits_ran {ns ns' : List Node} {st st' : ResolveState}
    (h : Yields (ns.mapM (tree cx)) st ns' st') :
    ∀ w ∈ visits cx st ns, ∃ m ∈ ns', Ran cx w m st' := by
  induction ns generalizing ns' st with
  | nil => exact fun w hw => absurd hw List.not_mem_nil
  | cons n rest ih =>
    obtain ⟨n', mid, rest', hn, hrest, rfl⟩ := yields_mapM_cons.1 h
    intro w hw
    rw [visits, hn.after] at hw
    rcases List.mem_cons.1 hw with rfl | hw
    · have first : Ran cx ⟨st, n⟩ n' mid := ⟨mid, hn, List.Subset.refl _⟩
      exact ⟨n', List.mem_cons_self .., first.leads (Leading.mapM (fun c _ => tree_leads c) hrest)⟩
    · obtain ⟨m, hm, ran⟩ := ih hrest w hw
      exact ⟨m, List.mem_cons_of_mem _ hm, ran⟩

theorem visits_append {ns ms ns' : List Node} {st mid : ResolveState}
    (h : Yields (ns.mapM (tree cx)) st ns' mid) :
    visits cx st (ns ++ ms) = visits cx st ns ++ visits cx mid ms := by
  induction ns generalizing ns' st with
  | nil =>
    obtain ⟨-, rfl⟩ := yields_mapM_nil.1 h
    rfl
  | cons n rest ih =>
    obtain ⟨n', next, rest', hn, hrest, -⟩ := yields_mapM_cons.1 h
    rw [List.cons_append, visits, visits, hn.after, ih hrest, List.cons_append]

theorem conditionVisits_ran {candidate : Ty} {ps : List Pending} {links : List Link}
    {st st' : ResolveState} (hps : ∀ p ∈ ps, p.resolve = tree cx p.written)
    (h : Yields (ps.mapM (predicate candidate)) st links st') :
    ∀ w ∈ conditionVisits candidate st ps,
      ∃ m, Ran cx w m st' ∧ ∃ x, .predicate x m candidate ∈ links := by
  induction ps generalizing links st with
  | nil => exact fun w hw => absurd hw List.not_mem_nil
  | cons p rest ih =>
    obtain ⟨link, mid, links, hp, hrest, rfl⟩ := yields_mapM_cons.1 h
    have leading : ∀ q ∈ rest, Leading (predicate candidate q) := by
      intro q hq
      refine Leading.predicate ?_
      rw [hps q (List.mem_cons_of_mem _ hq)]
      exact tree_leads _
    intro w hw
    rw [conditionVisits, hp.after] at hw
    rcases List.mem_cons.1 hw with rfl | hw
    · obtain ⟨cond, inner, top, rest, hrun, -, rfl, rfl⟩ := yields_predicate.1 hp
      rw [hps p (List.mem_cons_self ..)] at hrun
      have first : Ran cx ⟨candidateState candidate st, p.written⟩ cond { inner with scopes := rest } :=
        ⟨inner, hrun, List.Subset.refl _⟩
      exact ⟨cond, first.leads (Leading.mapM leading hrest), _, List.mem_cons_self ..⟩
    · obtain ⟨m, ran, x, hx⟩ := ih (fun q hq => hps q (List.mem_cons_of_mem _ hq)) hrest w hw
      exact ⟨m, ran, x, List.mem_cons_of_mem _ hx⟩

/-- The hops have conditions that are pending trees. -/
def Hops (cx : Context) (hops : List Hop) : Prop :=
  ∀ h ∈ hops, ∀ p ∈ h.predicates, p.resolve = tree cx p.written

theorem Hops.conditions {hops : List Hop} (h : Hops cx hops) :
    ∀ hop ∈ hops, ∀ p ∈ hop.predicates, Leading p.resolve := by
  intro hop hh p hp
  rw [h hop hh p hp]
  exact tree_leads _

theorem Hops.leading {hops : List Hop} (h : Hops cx hops) {view : View} :
    Leading (links cx.lookup view hops) := .links h.conditions

theorem linkVisits_ran {hops : List Hop} {view : View} {found : Option (List Link)}
    {st st' : ResolveState} (hhops : Hops cx hops)
    (h : Yields (links cx.lookup view hops) st found st') :
    ∀ w ∈ linkVisits cx.lookup view st hops, ∃ m, Ran cx w m st' ∧
      ∀ list, found = some list → ∃ x ty, .predicate x m ty ∈ list := by
  induction hops generalizing view found st with
  | nil => exact fun w hw => absurd hw List.not_mem_nil
  | cons hop rest ih =>
    have others : Hops cx rest := fun h hh => hhops h (List.mem_cons_of_mem _ hh)
    intro w hw
    rw [linkVisits] at hw
    rcases yields_links_cons.1 h with ⟨hl, -, -⟩ | ⟨link, cs, mid, found, hl, hc, ho, rfl⟩
    · rw [link?_run hl] at hw
      exact absurd hw List.not_mem_nil
    · simp only [link?_run hl, hc.after] at hw
      rcases List.mem_append.1 hw with hw | hw
      · obtain ⟨m, ran, x, hx⟩ :=
          conditionVisits_ran (hhops hop (List.mem_cons_self ..)) hc w hw
        refine ⟨m, ran.leads (others.leading ho), fun list heq => ?_⟩
        obtain ⟨list, rfl, rfl⟩ := Option.map_eq_some_iff.1 heq
        exact ⟨x, _, List.mem_append_left _ (List.mem_cons_of_mem _ hx)⟩
      · obtain ⟨m, ran, linked⟩ := ih others ho w hw
        refine ⟨m, ran, fun list heq => ?_⟩
        obtain ⟨list, rfl, rfl⟩ := Option.map_eq_some_iff.1 heq
        obtain ⟨x, ty, hx⟩ := linked list rfl
        exact ⟨x, ty, List.mem_append_right _ hx⟩

/-- A stream without all its links is reported. -/
theorem links_missed {hops : List Hop} {view : View} {st st' : ResolveState}
    (h : Yields (links cx.lookup view hops) st none st') : ∃ d ∈ st'.diagnostics, d.IsStep := by
  induction hops generalizing view st with
  | nil =>
    obtain ⟨heq, -⟩ := yields_links_nil.1 h
    cases heq
  | cons hop rest ih =>
    rcases yields_links_cons.1 h with ⟨-, -, rfl⟩ | ⟨link, cs, mid, found, -, -, ho, heq⟩
    · exact ⟨_, List.mem_append_right _ (List.mem_singleton.2 rfl), _, _, _, rfl⟩
    · rw [Option.map_eq_none_iff.1 heq.symm] at ho
      exact ih ho

/-- The arguments of each step are in its hop. -/
theorem argumentVisits_ran {steps : List (Step Node)} {hops : List Hop} {st st' : ResolveState}
    (h : Yields ((steps.map (·.map (pending cx))).mapM hop) st hops st') :
    ((argumentVisits cx st steps).zip hops).map Prod.snd = hops ∧
      ((argumentVisits cx st steps).zip hops).flatMap Prod.fst =
        visits cx st (steps.flatMap (·.test.children)) ∧
      ∀ pair ∈ (argumentVisits cx st steps).zip hops, ∀ w ∈ pair.1,
        ∃ m ∈ pair.2.step.test.children, Ran cx w m st' := by
  induction steps generalizing hops st with
  | nil =>
    obtain ⟨rfl, rfl⟩ := yields_mapM_nil.1 h
    exact ⟨rfl, rfl, fun pair hp => absurd hp List.not_mem_nil⟩
  | cons s rest ih =>
    obtain ⟨test, mid, hops, -, hargs, hrest, rfl⟩ := yields_hops_cons h
    obtain ⟨same, all, ran⟩ := ih hrest
    rw [argumentVisits, hargs.after, List.zip_cons_cons]
    refine ⟨by rw [List.map_cons, same], ?_, fun pair hp w hw => ?_⟩
    · rw [List.flatMap_cons, all, List.flatMap_cons, visits_append hargs]
    · rcases List.mem_cons.1 hp with rfl | hp
      · obtain ⟨m, hm, ran⟩ := visits_ran hargs w hw
        exact ⟨m, hm, ran.leads (hops_lead hrest)⟩
      · exact ran pair hp w hw

/-- Of all nodes but streams and bare calls each part is made into a child. -/
theorem children_ran {v : Visit} {n : Node} {st' : ResolveState}
    (h : Yields (tree cx v.node) v.state n st') (other : v.node.label ∉ ["Stream", "Name", "Call"]) :
    n.label ≠ "Stream" ∧ ∀ w ∈ parts cx v, ∃ m ∈ n.kind.children, Ran cx w m st' := by
  obtain ⟨st, span, ty, kind⟩ := v
  cases nodeRun h with
  | stream | name | call => exact absurd (by simp [Node.label, Kind.label]) other
  | methodDecl run =>
    obtain ⟨mid, top, rest, hrun, -, rfl⟩ := yields_inScope.1 run
    refine ⟨by simp [Node.label, Kind.label], fun w hw => ?_⟩
    obtain ⟨m, hm, ran⟩ := visits_ran hrun w hw
    exact ⟨m, hm, ran.later (List.Subset.refl _)⟩
  | @localDecl x written value value' mid run last =>
    refine ⟨by simp [Node.label, Kind.label], fun w hw => ?_⟩
    rw [List.mem_singleton.1 hw, last]
    have ran : Ran cx ⟨st, value⟩ value' mid := ⟨mid, run, List.Subset.refl _⟩
    refine ⟨value', List.mem_singleton.2 rfl, ran.later ?_⟩
    unfold declared
    split <;> exact List.Subset.refl _
  | script run =>
    refine ⟨by simp [Node.label, Kind.label], fun w hw => ?_⟩
    rw [parts_of_children (by simp [Kind.label])] at hw
    exact visits_ran run w hw
  | children listed run =>
    obtain ⟨run, same⟩ := runs.runs_children run
    simp only [List.mem_cons, List.not_mem_nil, or_false, not_or] at listed
    refine ⟨?_, fun w hw => ?_⟩
    · unfold Node.label
      rw [same]
      exact listed.1
    · rw [parts_of_children (by simp [listed])] at hw
      exact visits_ran run w hw

/-- Each part of a visit that makes a tree makes one. -/
theorem parts_ran {v : Visit} {n : Node} {st' : ResolveState}
    (h : Yields (tree cx v.node) v.state n st') : ∀ w ∈ parts cx v, ∃ m, Ran cx w m st' := by
  obtain ⟨st, span, ty, kind⟩ := v
  cases nodeRun h with
  | @stream steps n run =>
    obtain ⟨-, hops, mid, found, last, hh, hl, h⟩ := yields_stream.1 run
    obtain ⟨⟨ns, hns⟩, hps⟩ := hops_run hh
    have same : last.diagnostics ⊆ st'.diagnostics := by
      rcases h with ⟨-, rfl, -⟩ | ⟨_, _, _, -, -, rfl, -⟩ <;> exact List.Subset.refl _
    intro w hw
    simp only [parts, show ((steps.map (·.map (pending cx))).mapM hop).run st = _ from hh, hh.after] at hw
    rcases List.mem_append.1 hw with hw | hw
    · obtain ⟨m, -, ran⟩ := visits_ran hns w hw
      exact ⟨m, (ran.leads (Hops.leading hps hl)).later same⟩
    · obtain ⟨m, ran, -⟩ := linkVisits_ran hps hl w hw
      exact ⟨m, ran.later same⟩
  | name => exact fun w hw => absurd hw List.not_mem_nil
  | call hargs run =>
    intro w hw
    obtain ⟨m, -, ran⟩ := visits_ran hargs w hw
    exact ⟨m, ran.leads (Leading.bare run)⟩
  | methodDecl | localDecl | script =>
    intro w hw
    obtain ⟨m, -, ran⟩ := (children_ran h (by simp [Node.label, Kind.label])).2 w hw
    exact ⟨m, ran⟩
  | children listed =>
    simp only [List.mem_cons, List.not_mem_nil, or_false, not_or] at listed
    intro w hw
    obtain ⟨m, -, ran⟩ := (children_ran h (by simp [Node.label, listed])).2 w hw
    exact ⟨m, ran⟩

/-- Whatever is visited makes a tree if the whole does, and what it reports stays. -/
theorem Visited.ran {root root' : Node} {st' : ResolveState} {v : Visit} (h : Visited cx root v)
    (hroot : Yields (tree cx root) { scopes := initialScopes cx.env root } root' st') :
    ∃ n, Ran cx v n st' := by
  induction h with
  | root => exact ⟨root', st', hroot, List.Subset.refl _⟩
  | part _ mem ih =>
    obtain ⟨n, last, run, sub⟩ := ih
    obtain ⟨m, ran⟩ := parts_ran run _ mem
    exact ⟨m, ran.later sub⟩

/-! ## What is carried -/

theorem bareAnswer?_call {st mid : ResolveState} {span : Span} {ty : Option Ty} {x : String}
    {args args' : List Node} (h : Yields (args.mapM (tree cx)) st args' mid) :
    bareAnswer? cx ⟨st, span, ty, .call x args⟩ =
      mid.scopes.resolve cx.lookup { span, axis := .child, test := .call x args' } .head := by
  simp only [bareAnswer?, show (args.mapM (tree cx)).run st = _ from h]

/-- A link over arguments is what scopes answer to the step. -/
theorem link_answer {view : View} {step : Step Node} {scopes : Scopes} {link : Link}
    (h : LinkOf cx.lookup view step scopes (some link)) : step.test.children = [] ∨
      ∃ expr ty chain place, link = .step expr ty ∧
        Scopes.resolve cx.lookup chain step place = some expr := by
  generalize hsome : some link = l at h
  cases h with
  | reduction test =>
    rw [test]
    exact .inl rfl
  | missing => cases hsome
  | step _ answer =>
    cases hsome
    unfold viewed at answer
    split at answer
    · exact .inr ⟨_, _, _, _, rfl, answer⟩
    · exact .inr ⟨_, _, _, _, rfl, answer⟩

section

variable {α : Type} {own : Node → List α} {bind : String → List α} (carries : Carried own bind)
  (slots : cx.navigators.CallSlots fun r n => r.Called n ∨ n.isRead = true)
include carries slots

/-- A link that is no read has what is in the arguments of its step. -/
theorem link_given {view : View} {step : Step Node} {scopes : Scopes} {link : Link}
    (h : LinkOf cx.lookup view step scopes (some link)) (other : readsOnly link = false) :
    step.given own ⊆ Lower.linkOwn own bind link := by
  rcases link_answer h with none | ⟨expr, ty, chain, place, rfl, answer⟩
  · unfold Step.given
    rw [none]
    exact List.nil_subset _
  · exact given_of_answer carries slots answer other

/-- The arguments that links have are in one of them. -/
theorem linkArguments_hold {pairs : List (List Visit × Hop)} {view : View}
    {found : Option (List Link)} {st st' : ResolveState} {made : Visit → Node → Prop}
    (args : ∀ pair ∈ pairs, ∀ w ∈ pair.1, ∃ m ∈ pair.2.step.test.children, made w m)
    (h : Yields (links cx.lookup view (pairs.map Prod.snd)) st found st') :
    ∀ w ∈ linkArguments cx.lookup view st pairs, ∃ m, made w m ∧
      ∀ list, found = some list → ∃ link ∈ list, m.gather own ⊆ Lower.linkOwn own bind link := by
  induction pairs generalizing view found st with
  | nil => exact fun w hw => absurd hw List.not_mem_nil
  | cons pair rest ih =>
    obtain ⟨visits, hop⟩ := pair
    have first := args _ (List.mem_cons_self ..)
    have others := fun pair hp => args pair (List.mem_cons_of_mem _ hp)
    intro w hw
    rw [linkArguments] at hw
    rcases yields_links_cons.1 h with ⟨hl, rfl, -⟩ | ⟨link, cs, mid, found, hl, hc, ho, rfl⟩
    · rw [link?_run hl] at hw
      have : ∃ pair ∈ (visits, hop) :: rest, w ∈ pair.1 := by
        rcases List.mem_append.1 hw with hw | hw
        · exact ⟨_, List.mem_cons_self .., hw⟩
        · obtain ⟨pair, hp, hw⟩ := List.mem_flatMap.1 hw
          exact ⟨pair, List.mem_cons_of_mem _ hp, hw⟩
      obtain ⟨pair, hp, hw⟩ := this
      obtain ⟨m, -, hm⟩ := args pair hp w hw
      exact ⟨m, hm, fun list heq => absurd heq (Option.some_ne_none list).symm⟩
    · simp only [link?_run hl, hc.after] at hw
      rcases List.mem_append.1 hw with hw | hw
      · cases reads : readsOnly link
        · rw [reads] at hw
          obtain ⟨m, hm, made⟩ := first w hw
          refine ⟨m, made, fun list heq => ?_⟩
          obtain ⟨list, rfl, rfl⟩ := Option.map_eq_some_iff.1 heq
          refine ⟨link, List.mem_append_left _ (List.mem_cons_self ..), ?_⟩
          have given : m.gather own ⊆ hop.step.given own := fun a ha => List.mem_flatMap.2 ⟨m, hm, ha⟩
          exact List.Subset.trans given (link_given carries slots hl reads)
        · rw [reads] at hw
          exact absurd hw List.not_mem_nil
      · obtain ⟨m, hm, linked⟩ := ih others ho w hw
        refine ⟨m, hm, fun list heq => ?_⟩
        obtain ⟨list, rfl, rfl⟩ := Option.map_eq_some_iff.1 heq
        obtain ⟨l, hl, sub⟩ := linked list rfl
        exact ⟨l, List.mem_append_right _ hl, sub⟩

/-- Whatever is carried is in what the visit makes, unless a step is reported. -/
theorem carried_ran {v : Visit} {n : Node} {st' : ResolveState}
    (h : Yields (tree cx v.node) v.state n st') : ∀ w ∈ carried cx v, ∃ m, Ran cx w m st' ∧
      (m.gather own ⊆ n.gather own ∨ ∃ d ∈ st'.diagnostics, d.IsStep) := by
  obtain ⟨st, span, ty, kind⟩ := v
  have child (other : kind.label ∉ ["Stream", "Name", "Call"]) :
      ∀ w ∈ carried cx ⟨st, span, ty, kind⟩, ∃ m, Ran cx w m st' ∧
        (m.gather own ⊆ n.gather own ∨ ∃ d ∈ st'.diagnostics, d.IsStep) := by
    obtain ⟨label, made⟩ := children_ran h other
    rw [carried_of_other fun listed => other (by simp_all)]
    intro w hw
    obtain ⟨m, hm, ran⟩ := made w hw
    refine ⟨m, ran, .inl fun a ha => ?_⟩
    obtain ⟨span, ty, kind⟩ := n
    rw [gather_mk label]
    exact List.mem_append_right _ (List.mem_flatMap.2 ⟨m, hm, ha⟩)
  cases nodeRun h with
  | @stream steps n run =>
    obtain ⟨-, hops, mid, found, last, hh, hl, h⟩ := yields_stream.1 run
    obtain ⟨-, hps⟩ := hops_run hh
    obtain ⟨same, -, args⟩ := argumentVisits_ran hh
    -- what is in a link is in the tree, or there is no tree
    have linked {m : Node} (hm : ∀ list, found = some list → ∃ link ∈ list,
        m.gather own ⊆ Lower.linkOwn own bind link) :
        m.gather own ⊆ n.gather own ∨ ∃ d ∈ st'.diagnostics, d.IsStep := by
      rcases h with ⟨rfl, rfl, -⟩ | ⟨list, made, next, rfl, hmade, -, rfl⟩
      · exact .inr (links_missed hl)
      · obtain ⟨link, hlink, sub⟩ := hm list rfl
        have whole := Lower.scalar_carries carries list hmade
        refine .inl fun a ha => ?_
        rw [carries.gather_withSpan, whole.mem_iff]
        exact List.mem_append_left _ (List.mem_append_right _ (List.mem_flatMap.2 ⟨link, hlink, sub ha⟩))
    have stays : last.diagnostics ⊆ st'.diagnostics := by
      rcases h with ⟨-, rfl, -⟩ | ⟨_, _, _, -, -, rfl, -⟩ <;> exact List.Subset.refl _
    have lasting := fun w m (ran : Ran cx w m mid) => (ran.leads (Hops.leading hps hl)).later stays
    intro w hw
    simp only [carried, show ((steps.map (·.map (pending cx))).mapM hop).run st = _ from hh, hh.after] at hw
    rcases List.mem_append.1 hw with hw | hw
    · obtain ⟨m, ran, hm⟩ := linkArguments_hold carries slots args (by rw [same]; exact hl) w hw
      exact ⟨m, lasting w m ran, linked hm⟩
    · obtain ⟨m, ran, hm⟩ := linkVisits_ran hps hl w hw
      refine ⟨m, ran.later stays, linked fun list heq => ?_⟩
      obtain ⟨x, ty, hx⟩ := hm list heq
      exact ⟨_, hx, List.subset_append_right ..⟩
  | name => exact fun w hw => absurd hw List.not_mem_nil
  | @call x args args' mid n hargs run =>
    have answer : bareAnswer? cx ⟨st, span, ty, .call x args⟩ =
        mid.scopes.resolve cx.lookup { span, axis := .child, test := .call x args' } .head :=
      bareAnswer?_call hargs
    obtain ⟨rfl, hn⟩ := yields_bare run
    have kept (other : ∀ found, bareAnswer? cx ⟨st, span, ty, .call x args⟩ = some found →
        found.isRead = false) : args'.flatMap (Node.gather own) ⊆ n.gather own := by
      rcases hn with ⟨-, rfl⟩ | ⟨found, hr, rfl⟩
      · rw [gather_mk (by simp [Kind.label])]
        exact List.subset_append_right ..
      · rw [carries.gather_withSpan]
        exact given_of_answer carries slots hr (other found (answer.trans hr))
    intro w hw
    simp only [carried] at hw
    split at hw
    · exact absurd hw List.not_mem_nil
    · rename_i read
      obtain ⟨m, hm, ran⟩ := visits_ran hargs w hw
      refine ⟨m, ran, .inl fun a ha => kept (fun found heq => ?_) (List.mem_flatMap.2 ⟨m, hm, ha⟩)⟩
      simpa [heq] using read
  | methodDecl | localDecl | script => exact child (by simp [Kind.label])
  | children listed =>
    simp only [List.mem_cons, List.not_mem_nil, or_false, not_or] at listed
    exact child (by simp [listed])

end

theorem linkArguments_subset {pairs : List (List Visit × Hop)} {view : View} {st : ResolveState} :
    linkArguments cx.lookup view st pairs ⊆ pairs.flatMap Prod.fst := by
  induction pairs generalizing view st with
  | nil => exact List.Subset.refl _
  | cons pair rest ih =>
    obtain ⟨args, hop⟩ := pair
    rw [linkArguments]
    split
    · refine List.append_subset.2 ⟨?_, List.Subset.trans ih (List.subset_append_right ..)⟩
      split
      · exact List.nil_subset _
      · exact List.subset_append_left ..
    · exact List.Subset.refl _

/-- Where methods alone are filed under calls, the links have all arguments. -/
theorem linkArguments_all (slots : cx.navigators.CallSlots Request.Called)
    {pairs : List (List Visit × Hop)} {view : View} {found : Option (List Link)} {st st' : ResolveState}
    (args : ∀ pair ∈ pairs, pair.2.step.test.children = [] → pair.1 = [])
    (h : Yields (links cx.lookup view (pairs.map Prod.snd)) st found st') :
    linkArguments cx.lookup view st pairs = pairs.flatMap Prod.fst := by
  induction pairs generalizing view found st with
  | nil => rfl
  | cons pair rest ih =>
    obtain ⟨visits, hop⟩ := pair
    rw [linkArguments]
    rcases yields_links_cons.1 h with ⟨hl, -, -⟩ | ⟨link, cs, mid, found, hl, hc, ho, -⟩
    · rw [link?_run hl]
      rfl
    · have first : (if readsOnly link then [] else visits) = visits := by
        split
        · rename_i reads
          refine (args _ (List.mem_cons_self ..) ?_).symm
          rcases link_answer hl with none | ⟨expr, ty, chain, place, rfl, answer⟩
          · exact none
          · exact children_of_read slots answer reads
        · rfl
      simp only [link?_run hl, hc.after, first]
      rw [ih (fun pair hp => args pair (List.mem_cons_of_mem _ hp)) ho, List.flatMap_cons]

/-- No more than the parts is carried, and where methods alone are filed under calls these all are. -/
theorem carried_parts {v : Visit} {n : Node} {st' : ResolveState}
    (h : Yields (tree cx v.node) v.state n st') : carried cx v ⊆ parts cx v ∧
      (cx.navigators.CallSlots Request.Called → carried cx v = parts cx v) := by
  obtain ⟨st, span, ty, kind⟩ := v
  by_cases other : kind.label ∉ ["Stream", "Call"]
  · rw [carried_of_other other]
    exact ⟨List.Subset.refl _, fun _ => rfl⟩
  cases nodeRun h with
  | @stream steps n run =>
    obtain ⟨-, hops, mid, found, last, hh, hl, -⟩ := yields_stream.1 run
    obtain ⟨same, all, args⟩ := argumentVisits_ran hh
    simp only [carried, parts, show ((steps.map (·.map (pending cx))).mapM hop).run st = _ from hh,
      hh.after]
    rw [← all]
    refine ⟨List.append_subset.2 ⟨List.Subset.trans linkArguments_subset
      (List.subset_append_left ..), List.subset_append_right ..⟩, fun slots => ?_⟩
    rw [linkArguments_all slots (fun pair hp none => ?_) (by rw [same]; exact hl)]
    refine List.eq_nil_iff_forall_not_mem.2 fun w hw => ?_
    obtain ⟨m, hm, -⟩ := args pair hp w hw
    rw [none] at hm
    exact absurd hm List.not_mem_nil
  | @call x args args' mid n hargs run =>
    have answer : bareAnswer? cx ⟨st, span, ty, .call x args⟩ =
        mid.scopes.resolve cx.lookup { span, axis := .child, test := .call x args' } .head :=
      bareAnswer?_call hargs
    simp only [carried]
    split
    · rename_i read
      refine ⟨List.nil_subset _, fun slots => (List.eq_nil_iff_forall_not_mem.2 fun w hw => ?_).symm⟩
      cases heq : bareAnswer? cx ⟨st, span, ty, .call x args⟩ with
      | none =>
        rw [heq] at read
        cases read
      | some found =>
        rw [heq] at read
        have none : args' = [] := children_of_read slots (answer.symm.trans heq) read
        obtain ⟨m, hm, -⟩ := visits_ran hargs w hw
        rw [none] at hm
        exact absurd hm List.not_mem_nil
    · exact ⟨List.Subset.refl _, fun _ => rfl⟩
  | name | methodDecl | localDecl | script => exact absurd (by simp [Kind.label]) other
  | children listed =>
    simp only [List.mem_cons, List.not_mem_nil, or_false, not_or] at listed
    exact absurd (by simp [listed]) other

/-- A visit whose resolution is carried on up to the script. -/
inductive Kept (cx : Context) (root : Node) : Visit → Prop
  | root : Kept cx root ⟨{ scopes := initialScopes cx.env root }, root⟩
  | part {v w : Visit} (above : Kept cx root v) (mem : w ∈ carried cx v) : Kept cx root w

section

variable {root root' : Node} {last : ResolveState}
  (run : Yields (tree cx root) { scopes := initialScopes cx.env root } root' last)
include run

theorem Kept.visited {v : Visit} (h : Kept cx root v) : Visited cx root v := by
  induction h with
  | root => exact .root
  | part _ mem ih =>
    obtain ⟨n, _, hn, -⟩ := ih.ran run
    exact ih.part ((carried_parts hn).1 mem)

/-- Where methods alone are filed under calls, all that is visited is kept. -/
theorem Visited.kept (slots : cx.navigators.CallSlots Request.Called) {v : Visit}
    (h : Visited cx root v) : Kept cx root v := by
  induction h with
  | root => exact .root
  | part above mem ih =>
    obtain ⟨n, _, hn, -⟩ := above.ran run
    exact ih.part ((carried_parts hn).2 slots ▸ mem)

/-- What a kept visit makes is in the resolved script, unless a step is reported. -/
theorem Kept.ran {α : Type} {own : Node → List α} {bind : String → List α} (carries : Carried own bind)
    (slots : cx.navigators.CallSlots fun r n => r.Called n ∨ n.isRead = true) {v : Visit}
    (h : Kept cx root v) : ∃ n, Ran cx v n last ∧
      (n.gather own ⊆ root'.gather own ∨ ∃ d ∈ last.diagnostics, d.IsStep) := by
  induction h with
  | root => exact ⟨root', ⟨last, run, List.Subset.refl _⟩, .inl (List.Subset.refl _)⟩
  | part _ mem ih =>
    obtain ⟨n, ⟨mid, hn, stays⟩, up⟩ := ih
    obtain ⟨m, ran, held⟩ := carried_ran carries slots hn _ mem
    refine ⟨m, ran.later stays, ?_⟩
    rcases held with held | ⟨d, hd, step⟩
    · exact up.imp_left (List.Subset.trans held)
    · exact .inr ⟨d, stays hd, step⟩

end

/-! ## Nodes that are visited -/

theorem visits_nodes (st : ResolveState) (ns : List Node) : (visits cx st ns).map (·.node) = ns := by
  induction ns generalizing st with
  | nil => rfl
  | cons n rest ih => rw [visits, List.map_cons, ih]

theorem conditionVisits_nodes (candidate : Ty) (st : ResolveState) (ps : List Pending) :
    (conditionVisits candidate st ps).map (·.node) = ps.map (·.written) := by
  induction ps generalizing st with
  | nil => rfl
  | cons p rest ih => rw [conditionVisits, List.map_cons, ih, List.map_cons]

/-- With all links found all conditions are visited. -/
theorem linkVisits_nodes {hops : List Hop} {view : View} {list : List Link} {st st' : ResolveState}
    (h : Yields (links cx.lookup view hops) st (some list) st') :
    (linkVisits cx.lookup view st hops).map (·.node) =
      hops.flatMap fun h => h.predicates.map (·.written) := by
  induction hops generalizing view list st with
  | nil => rfl
  | cons hop rest ih =>
    rw [linkVisits]
    obtain ⟨link, cs, mid, others, hl, hc, ho, -⟩ := yields_links_some h
    simp only [link?_run hl, hc.after, List.map_append, conditionVisits_nodes, ih ho, List.flatMap_cons]

theorem steps_children_perm {α : Type} (steps : List (Step α)) :
    (steps.flatMap (·.test.children) ++ steps.flatMap (·.predicates)).Perm
      (steps.flatMap (·.children)) := by
  induction steps with
  | nil => exact .refl _
  | cons s rest ih =>
    simp only [List.flatMap_cons, Step.children, List.append_assoc]
    refine List.Perm.append_left _ (List.Perm.trans ?_ (List.Perm.append_left _ ih))
    rw [← List.append_assoc, ← List.append_assoc]
    exact List.perm_append_comm.append_right _

/-- Each child is visited once, unless a step is reported. -/
theorem parts_nodes {v : Visit} {n : Node} {st' : ResolveState}
    (h : Yields (tree cx v.node) v.state n st') (silent : ∀ d ∈ st'.diagnostics, ¬ d.IsStep) :
    ((parts cx v).map (·.node)).Perm v.node.kind.children := by
  obtain ⟨st, span, ty, kind⟩ := v
  by_cases other : kind.label ∉ ["Stream", "MethodDecl"]
  · rw [parts_of_children other, visits_nodes]
  cases kind
  case stream steps =>
    cases nodeRun h with
    | stream run =>
      obtain ⟨-, hops, mid, found, last, hh, hl, h⟩ := yields_stream.1 run
      rcases h with ⟨rfl, rfl, -⟩ | ⟨list, made, next, rfl, -, -, -⟩
      · obtain ⟨d, hd, step⟩ := links_missed hl
        exact absurd step (silent d hd)
      · have predicates : hops.flatMap (fun h => h.predicates.map (·.written)) =
            steps.flatMap (·.predicates) := by
          have same := congrArg (List.flatMap (List.map Pending.written)) (hops_predicates hh)
          simp only [List.flatMap_map, Step.map, List.map_map] at same
          refine same.trans (List.flatMap_congr fun s _ => ?_)
          show (s.predicates.map (pending cx)).map (·.written) = s.predicates
          rw [List.map_map]
          exact List.map_id _
        simp only [parts, show ((steps.map (·.map (pending cx))).mapM hop).run st = _ from hh,
          List.map_append, visits_nodes, hh.after, linkVisits_nodes hl, predicates]
        exact steps_children_perm steps
    | children listed => exact absurd (by simp [Kind.label]) listed
  case methodDecl d =>
    simp only [parts, visits_nodes]
    exact .refl _
  all_goals exact absurd (by simp [Kind.label]) other

end Resolve

end NavScript
