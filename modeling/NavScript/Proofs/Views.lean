import NavScript.Proofs.Growth
import NavScript.Proofs.Navigators
import NavScript.Proofs.Sights

/-!
# What the forward phase finds

The links that are found for steps go on from each other (`links_fit`): a step behind the head is
answered by the scope over the stack only, and what is in view is the view of the pass. Each link
comes from a step or a condition of a step (`LinkOrigin`).
-/

namespace NavScript

/-- No scope is over the stack, and all subjects are as given. -/
def Scopes.Over (P : Node → Prop) (scopes : Scopes) : Prop :=
  ∀ scope ∈ scopes, ∀ ty origin, scope = .bound ty origin → ∃ n, origin = .subject n ∧ P n

theorem Scopes.Over.tail {P : Node → Prop} {scope : Scope} {rest : Scopes}
    (h : Over P (scope :: rest)) : Over P rest :=
  fun scope hs => h scope (List.mem_cons_of_mem _ hs)

theorem Scopes.Over.cons {P : Node → Prop} {scope : Scope} {rest : Scopes} (h : Over P rest)
    (hs : ∀ ty origin, scope = .bound ty origin → ∃ n, origin = .subject n ∧ P n) :
    Over P (scope :: rest) := by
  intro s hmem
  rcases List.mem_cons.1 hmem with rfl | hmem
  · exact hs
  · exact h s hmem

/-- Scopes that gain locals stay over the same subjects. -/
theorem Scopes.Grows.over {P : Node → Prop} {a b : Scopes} (h : Grows a b) (ha : Over P a) :
    Over P b := by
  induction a generalizing b with
  | nil =>
    have : b = [] := h
    rw [this]
    exact ha
  | cons scope rest ih =>
    cases scope with
    | method locals =>
      obtain ⟨more, rfl⟩ := h
      exact ha.tail.cons nofun
    | imports names | typeDecl ty methods | bound ty origin =>
      obtain ⟨rest', rfl, h⟩ := h
      exact (ih h ha.tail).cons (ha _ (List.mem_cons_self ..))

namespace Resolve

variable {cx : Lookup} {s : Sight} {st st' : ResolveState} {goes : Ty → Node → Ty → Prop}

/-- Behind the head only the scope over the stack answers, and not for primitives. -/
theorem movable_of_viewed {view : View} {step : Step Node} {scopes : Scopes} {expr : Node} {t ty : Ty}
    (hp : cx.navigators.Provided) (unstacked : scopes.Over fun _ => True)
    (hview : view.ty = some t) (answer : viewed cx view step scopes = some expr)
    (typed : expr.ty = some ty) :
    Movable cx.classes t expr ty ∧ Answer ⟨step, .stackedOf t, t, cx.classes⟩ expr := by
  have found : Scope.resolveFrom cx t (.stackedOf t) step = some expr := by
    unfold viewed at answer
    rw [hview] at answer
    obtain ⟨scope, hmem, h⟩ := List.exists_of_findSome?_eq_some answer
    rcases List.mem_cons.1 hmem with rfl | hmem
    · exact h
    · cases scope with
      | imports | method | typeDecl => cases h
      | bound other origin =>
        obtain ⟨n, rfl, -⟩ := unstacked _ hmem other origin rfl
        cases h
  have answered := Scope.resolveFrom_answer hp found
  exact ⟨⟨Scope.resolveFrom_reference hp found, typed, step, answered⟩, answered⟩

/-- Steps behind the head go as given, also when the scopes have more locals. -/
def Going (goes : Ty → Node → Ty → Prop) (cx : Lookup) (scopes : Scopes) : Prop :=
  ∀ {later : Scopes} {view : View} {step : Step Node} {expr : Node} {t ty : Ty},
    scopes.Grows later → view.ty = some t → viewed cx view step later = some expr →
      expr.ty = some ty → goes t expr ty

theorem Going.later {goes : Ty → Node → Ty → Prop} {a b : Scopes} (h : Going goes cx a)
    (grown : a.Grows b) : Going goes cx b :=
  fun grown' => h (grown.trans grown')

/-- Over subjects only, each step moves from what is in view. -/
theorem going_movable (hp : cx.navigators.Provided) {scopes : Scopes}
    (unstacked : scopes.Over fun _ => True) : Going (Movable cx.classes) cx scopes :=
  fun grown hview answer typed => (movable_of_viewed hp (grown.over unstacked) hview answer typed).1

/-- A run of the action from a good state ends in one. -/
def Keeping {α : Type} (good : ResolveState → Prop) (x : Resolve α) : Prop :=
  ∀ ⦃st a st'⦄, Yields x st a st' → good st → good st'

/-- Conditions keep what is kept where steps gain locals only. -/
theorem Leading.keeping {α : Type} {x : Resolve α} (h : Leading x) (scopes : Scopes) :
    Keeping (fun st => scopes.Grows st.scopes) x :=
  fun _ _ _ run grown => grown.trans (h run).scopes

theorem Keeping.mapM {α β : Type} {good : ResolveState → Prop} {f : α → Resolve β} {as : List α}
    (keeps : ∀ a ∈ as, Keeping good (f a)) : Keeping good (as.mapM f) :=
  fun _ _ _ h start => (yields_mapM_keeping good (fun _ _ => True)
    (fun a ha _ _ _ start run => ⟨keeps a ha run start, trivial⟩) start h).1

/-- Steps keep what their conditions keep and what the report of a step keeps. -/
theorem Keeping.links {good : ResolveState → Prop} :
    ∀ {hops : List Hop} {view : View},
      (∀ h ∈ hops, ∀ st inView, good st → good { st with
        diagnostics := st.diagnostics ++ [.unresolvedStep h.step.text inView h.step.span] }) →
      (∀ h ∈ hops, ∀ p ∈ h.predicates, ∀ candidate, Keeping good (predicate candidate p)) →
        Keeping good (links cx view hops)
  | [], view, _, _, st, found, st', h, start => by
    obtain ⟨-, rfl⟩ := yields_links_nil.1 h
    exact start
  | hop :: rest, view, reports, keeps, st, found, st', h, start => by
    rcases yields_links_cons.1 h with ⟨-, -, rfl⟩ | ⟨link, cs, mid, others, -, hc, ho, -⟩
    · exact reports hop (List.mem_cons_self ..) st _ start
    · have conditions := Keeping.mapM (fun p hp => keeps hop (List.mem_cons_self ..) p hp _) hc start
      exact Keeping.links (fun h hh => reports h (List.mem_cons_of_mem _ hh))
        (fun h hh => keeps h (List.mem_cons_of_mem _ hh)) ho conditions

/-- A stream for which links are found becomes their lowering. -/
inductive Navigates (cx : Context) (span : Span) (steps : List (Step Pending)) (st : ResolveState) :
    List Link → Node → ResolveState → Prop
  | lowered {hops : List Hop} {mid last : ResolveState} {found : List Link} {made : Node} {next : Nat}
    (hopsRun : Yields (steps.mapM hop) st hops mid)
    (linksRun : Yields (links cx.lookup {} hops) mid (some found) last)
    (makes : Lower.Makes (Lower.scalar cx.config.boxPrimitiveGuards [] found) last.nextFresh made next) :
    Navigates cx span steps st found (made.withSpan span) { last with nextFresh := next }

/-- No link is found for one of the steps of a stream. -/
def Misses (cx : Context) (steps : List (Step Pending)) (st st' : ResolveState) : Prop :=
  ∃ hops mid, Yields (steps.mapM hop) st hops mid ∧ Yields (links cx.lookup {} hops) mid none st'

section

variable {cx : Context} {span : Span} {steps : List (Step Pending)} {found : List Link} {n : Node}
  {last : ResolveState}

/-- A stream has at most one list of links. -/
theorem Navigates.unique {others : List Link} {n' : Node} (h : Navigates cx span steps st found n st')
    (h' : Navigates cx span steps st others n' last) : found = others := by
  obtain ⟨hopsRun, linksRun, -⟩ := h
  obtain ⟨hopsRun', linksRun', -⟩ := h'
  obtain ⟨rfl, rfl⟩ := hopsRun.unique hopsRun'
  exact Option.some.inj (linksRun'.unique linksRun).1

theorem Navigates.not_misses (h : Navigates cx span steps st found n st') :
    ¬ Misses cx steps st last := by
  rintro ⟨hops, mid, hopsRun', linksRun'⟩
  obtain ⟨hopsRun, linksRun, -⟩ := h
  obtain ⟨rfl, rfl⟩ := hopsRun.unique hopsRun'
  cases (linksRun'.unique linksRun).1

end

/-- Where a link comes from: a step, or a condition that is resolved in a good state. -/
inductive LinkOrigin (cx : Lookup) (good : ResolveState → Prop) (hops : List Hop) : Link → Prop
  | step {h : Hop} {t ty : Ty} {expr : Node} (mem : h ∈ hops)
    (answer : Answer ⟨h.step, .stackedOf t, t, cx.classes⟩ expr) :
    LinkOrigin cx good hops (.step expr ty)
  | condition {h : Hop} {p : Pending} {candidate : Ty} {st mid : ResolveState} {cond : Node}
    (mem : h ∈ hops) (pending : p ∈ h.predicates) (reached : good st)
    (run : Yields p.resolve (candidateState candidate st) cond mid) :
    LinkOrigin cx good hops (.predicate (Lower.freshName "p" st.nextFresh) cond candidate)
  | reduction (r : Reduction) (ty : Ty) : LinkOrigin cx good hops (.reduce r ty)

theorem LinkOrigin.among {good : ResolveState → Prop} {hops hops' : List Hop} {link : Link}
    (h : LinkOrigin cx good hops link) (sub : ∀ h ∈ hops, h ∈ hops') :
    LinkOrigin cx good hops' link := by
  cases h with
  | step mem answer => exact .step (sub _ mem) answer
  | condition mem pending reached run => exact .condition (sub _ mem) pending reached run
  | reduction r ty => exact .reduction r ty

theorem conditions_isEmpty {candidate : Ty} {ps : List Pending} {conditions : List Link}
    (h : Yields (ps.mapM (predicate candidate)) st conditions st') :
    conditions.isEmpty = ps.isEmpty := by
  cases ps with
  | nil =>
    obtain ⟨rfl, -⟩ := yields_mapM_nil.1 h
    rfl
  | cons p ps =>
    obtain ⟨_, _, _, -, -, rfl⟩ := yields_mapM_cons.1 h
    rfl

/-- Conditions leave the type in view. -/
theorem fit_conditions {candidate : Ty} {ps : List Pending} {conditions others : List Link}
    (h : Yields (ps.mapM (predicate candidate)) st conditions st') (hc : ps ≠ [] → candidate = s.ty)
    (hothers : ∀ s' : Sight, s'.ty = s.ty → s'.streaming = s.streaming →
      Fit goes s' others) : Fit goes s (conditions ++ others) := by
  induction ps generalizing s st conditions with
  | nil =>
    obtain ⟨rfl, -⟩ := yields_mapM_nil.1 h
    exact hothers s rfl rfl
  | cons p ps ih =>
    obtain ⟨link, mid, rest, hlink, hrest, rfl⟩ := yields_mapM_cons.1 h
    obtain ⟨cond, _, _, _, -, -, -, rfl⟩ := yields_predicate.1 hlink
    have hc := hc (List.cons_ne_nil _ _)
    subst hc
    refine ⟨.predicate _ cond, ih hrest (fun _ => (s.after_predicate_ty ..).symm) fun s' hty hs => ?_⟩
    exact hothers s' (hty.trans (s.after_predicate_ty ..)) (hs.trans (s.after_predicate_streaming ..))

theorem origin_conditions {good : ResolveState → Prop} {candidate : Ty} {h : Hop} {hops : List Hop}
    (hmem : h ∈ hops) {ps : List Pending} {conditions : List Link}
    (hps : ∀ p ∈ ps, p ∈ h.predicates) (keeps : ∀ p ∈ ps, Keeping good (predicate candidate p))
    (start : good st) (hrun : Yields (ps.mapM (predicate candidate)) st conditions st') :
    good st' ∧ ∀ link ∈ conditions, LinkOrigin cx good hops link := by
  induction ps generalizing st conditions with
  | nil =>
    obtain ⟨rfl, rfl⟩ := yields_mapM_nil.1 hrun
    exact ⟨start, fun _ hl => absurd hl List.not_mem_nil⟩
  | cons p ps ih =>
    obtain ⟨link, mid, rest, hlink, hrest, rfl⟩ := yields_mapM_cons.1 hrun
    have kept := keeps p (List.mem_cons_self ..) hlink start
    obtain ⟨last, others⟩ := ih (fun q hq => hps q (List.mem_cons_of_mem _ hq))
      (fun q hq => keeps q (List.mem_cons_of_mem _ hq)) kept hrest
    refine ⟨last, fun l hl => ?_⟩
    rcases List.mem_cons.1 hl with rfl | hl
    · obtain ⟨cond, _, _, _, hcond, -, -, rfl⟩ := yields_predicate.1 hlink
      exact .condition hmem (hps p (List.mem_cons_self ..)) start hcond
    · exact others l hl

theorem links_isEmpty {view : View} {hops : List Hop} {found : List Link}
    (h : Yields (links cx view hops) st (some found) st') : found.isEmpty = hops.isEmpty := by
  cases hops with
  | nil =>
    obtain ⟨hf, -⟩ := yields_links_nil.1 h
    cases hf
    rfl
  | cons hop rest =>
    obtain ⟨_, _, _, _, -, -, -, rfl⟩ := yields_links_some h
    rfl

/-- The view behind a step is what is seen there. -/
theorem viewAfter_step {view : View} {s : Sight} (hs : s.streaming = view.streaming) (expr : Node) :
    viewAfter view (.step expr s.ty) true =
      ⟨some (s.entered true).ty, (s.entered true).streaming⟩ := by
  unfold viewAfter Sight.entered
  simp only [Link.ty]
  cases s.ty.element? with
  | none => rw [← hs]
  | some elem => rfl

theorem links_behind {link : Link} {h : Hop} {rest : List Hop} {view : View}
    {mid : ResolveState} {conditions others : List Link}
    (conditionsRun : Yields (h.predicates.mapM (predicate (candidateTy view link h rest))) st
      conditions mid)
    (othersRun : Yields (links cx (nextView view link h rest) rest) mid (some others) st')
    (seen : (!rest.isEmpty || !h.predicates.isEmpty) = true →
      nextView view link h rest = ⟨some s.ty, s.streaming⟩)
    (ih : ∀ s' : Sight, nextView view link h rest = ⟨some s'.ty, s'.streaming⟩ →
      Fit goes s' others) : Fit goes s (conditions ++ others) := by
  cases hmore : !rest.isEmpty || !h.predicates.isEmpty with
  | true =>
    have seen := seen hmore
    refine fit_conditions conditionsRun (fun _ => ?_) fun s' hty hs => ih s' ?_
    · unfold candidateTy
      rw [seen]
      rfl
    · rw [seen, hty, hs]
  | false =>
    obtain ⟨hrest, hps⟩ := Bool.or_eq_false_iff.1 hmore
    have noConditions : conditions = [] := by
      rw [← List.isEmpty_iff, conditions_isEmpty conditionsRun]
      simpa using hps
    have noOthers : others = [] := by
      rw [← List.isEmpty_iff, links_isEmpty othersRun]
      simpa using hrest
    rw [noConditions, noOthers]
    exact trivial

theorem more_eq {h : Hop} {rest : List Hop} {view : View} {candidate : Ty} {mid : ResolveState}
    {conditions others : List Link}
    (conditionsRun : Yields (h.predicates.mapM (predicate candidate)) st conditions mid)
    (othersRun : Yields (links cx view rest) mid (some others) st') :
    (!(conditions ++ others).isEmpty) = (!rest.isEmpty || !h.predicates.isEmpty) := by
  have both : (conditions ++ others).isEmpty = (conditions.isEmpty && others.isEmpty) := by
    cases conditions <;> rfl
  rw [both, conditions_isEmpty conditionsRun, links_isEmpty othersRun]
  cases h.predicates.isEmpty <;> cases rest.isEmpty <;> rfl

/-- A link is that of a reduction, or a typed answer. -/
theorem linkOf_some {view : View} {step : Step Node} {scopes : Scopes} {link : Link}
    (h : LinkOf cx view step scopes (some link)) :
    (∃ r, reductionLink? view r = some link) ∨
      ∃ expr ty, viewed cx view step scopes = some expr ∧ expr.ty = some ty ∧
        link = .step expr ty := by
  generalize hl : some link = found at h
  cases h with
  | @reduction r test => exact .inl ⟨r, rfl⟩
  | missing => cases hl
  | step _ answer typed =>
    cases hl
    exact .inr ⟨_, _, answer, typed, rfl⟩

theorem reductionLink?_reduce {view : View} {r : Reduction} {link : Link}
    (h : reductionLink? view r = some link) : ∃ ty, link = .reduce r ty := by
  unfold reductionLink? at h
  split at h
  · cases h
  · split at h
    · cases h
      exact ⟨_, rfl⟩
    · obtain ⟨elem, -, rfl⟩ := Option.map_eq_some_iff.1 h
      exact ⟨_, rfl⟩

/-- A reduction collects the elements in view, or those of the value in view. -/
theorem reductionLink?_some {view : View} {r : Reduction} {link : Link} {t : Ty}
    (hview : view.ty = some t) (h : reductionLink? view r = some link) :
    ∃ elem, link = .reduce r (r.collectionTy elem) ∧
      if view.streaming then elem = t else t.element? = some elem := by
  unfold reductionLink? at h
  rw [hview] at h
  simp only at h
  split at h
  · rename_i streaming
    cases h
    exact ⟨t, rfl, by rw [if_pos streaming]⟩
  · rename_i streaming
    obtain ⟨elem, he, rfl⟩ := Option.map_eq_some_iff.1 h
    exact ⟨elem, rfl, by rw [if_neg streaming]; exact he⟩

/-- Links behind the head go on from what is in view. -/
theorem links_fit {hops : List Hop} {view : View} {found : List Link}
    (leading : ∀ h ∈ hops, ∀ p ∈ h.predicates, Leading p.resolve)
    (going : Going goes cx st.scopes) (hview : view = ⟨some s.ty, s.streaming⟩)
    (hrun : Yields (links cx view hops) st (some found) st') : Fit goes s found := by
  induction hops generalizing s st view found with
  | nil =>
    obtain ⟨hf, -⟩ := yields_links_nil.1 hrun
    cases hf
    exact trivial
  | cons h rest ih =>
    obtain ⟨link, conditions, mid, others, hlink, hc, ho, rfl⟩ := yields_links_some hrun
    have here := leading h (List.mem_cons_self ..)
    have grown := (Leading.mapM (fun p hp => Leading.predicate (here p hp)) hc).scopes
    have next : ∀ s' : Sight, nextView view link h rest = ⟨some s'.ty, s'.streaming⟩ →
        Fit goes s' others := fun s' hs' =>
      ih (fun h' hh => leading h' (List.mem_cons_of_mem _ hh)) (going.later grown) hs' ho
    have more := more_eq hc ho
    subst hview
    rcases linkOf_some hlink with ⟨r, hr⟩ | ⟨expr, ty, answer, typed, rfl⟩
    · obtain ⟨elem, rfl, helem⟩ := reductionLink?_some rfl hr
      exact ⟨.reduce r helem, links_behind hc ho (fun _ => rfl) next⟩
    · refine ⟨.step (going (.refl _) rfl answer typed), ?_⟩
      show Fit goes (s.after _ (!(conditions ++ others).isEmpty)) (conditions ++ others)
      rw [more]
      refine links_behind hc ho (fun hmore => ?_) next
      unfold nextView
      rw [hmore]
      unfold Sight.after Sight.stepped
      simp only [Bool.or_true]
      exact viewAfter_step (s := ⟨ty, s.streaming, _⟩) rfl expr

/-- Behind a link something is in view. -/
theorem nextView_viewed (view : View) (link : Link) (h : Hop) (rest : List Hop) :
    (nextView view link h rest).ty.isSome := by
  unfold nextView viewAfter
  split
  · rfl
  · split <;> rfl

/-- Where the links behind the head come from. -/
theorem links_origin (hp : cx.navigators.Provided) {good : ResolveState → Prop} {hops : List Hop}
    {view : View} {found : List Link} (leading : ∀ h ∈ hops, ∀ p ∈ h.predicates, Leading p.resolve)
    (keeps : ∀ h ∈ hops, ∀ p ∈ h.predicates, ∀ candidate, Keeping good (predicate candidate p))
    (start : good st) (unstacked : st.scopes.Over fun _ => True) (hview : view.ty.isSome)
    (hrun : Yields (links cx view hops) st (some found) st') :
    ∀ link ∈ found, LinkOrigin cx good hops link := by
  induction hops generalizing st view found with
  | nil =>
    obtain ⟨hf, -⟩ := yields_links_nil.1 hrun
    cases hf
    exact fun _ hl => absurd hl List.not_mem_nil
  | cons h rest ih =>
    obtain ⟨link, conditions, mid, others, hlink, hc, ho, rfl⟩ := yields_links_some hrun
    have here := leading h (List.mem_cons_self ..)
    have grown := (Leading.mapM (fun p hp => Leading.predicate (here p hp)) hc).scopes
    obtain ⟨kept, conditionsFrom⟩ := origin_conditions (List.mem_cons_self ..) (fun _ hp => hp)
      (fun p hp => keeps h (List.mem_cons_self ..) p hp _) start hc
    intro l hl
    rcases List.mem_cons.1 hl with rfl | hl
    · obtain ⟨t, ht⟩ := Option.isSome_iff_exists.1 hview
      rcases linkOf_some hlink with ⟨r, hr⟩ | ⟨expr, ty, answer, typed, rfl⟩
      · obtain ⟨elem, rfl, -⟩ := reductionLink?_some ht hr
        exact .reduction ..
      · exact .step (List.mem_cons_self ..) (movable_of_viewed hp unstacked ht answer typed).2
    · rcases List.mem_append.1 hl with hl | hl
      · exact conditionsFrom l hl
      · have later := ih (fun h' hh => leading h' (List.mem_cons_of_mem _ hh))
          (fun h' hh => keeps h' (List.mem_cons_of_mem _ hh)) kept (grown.over unstacked)
          (nextView_viewed ..) ho l hl
        exact later.among fun h' hh => List.mem_cons_of_mem _ hh

/-- A navigation starts with an answer of the open scopes, and the other links go on from it. -/
theorem links_head {h : Hop} {rest : List Hop} {found : List Link}
    (leading : ∀ h' ∈ h :: rest, ∀ p ∈ h'.predicates, Leading p.resolve)
    (going : Going goes cx st.scopes) (hrun : Yields (links cx {} (h :: rest)) st (some found) st') :
    ∃ expr ty others, found = .step expr ty :: others ∧
      st.scopes.resolve cx h.step .head = some expr ∧ expr.ty = some ty ∧
      Fit goes (.behind ty others) others := by
  obtain ⟨link, conditions, mid, others, hlink, hc, ho, rfl⟩ := yields_links_some hrun
  have here := leading h (List.mem_cons_self ..)
  have later : ∀ h' ∈ rest, ∀ p ∈ h'.predicates, Leading p.resolve :=
    fun h' hh => leading h' (List.mem_cons_of_mem _ hh)
  have grown := (Leading.mapM (fun p hp => Leading.predicate (here p hp)) hc).scopes
  rcases linkOf_some hlink with ⟨r, hr⟩ | ⟨expr, ty, answer, typed, rfl⟩
  · cases hr
  · refine ⟨expr, ty, conditions ++ others, rfl, answer, typed, ?_⟩
    unfold Sight.behind
    rw [more_eq hc ho]
    refine links_behind hc ho (fun hmore => ?_) fun s' hs' =>
      links_fit later (going.later grown) hs' ho
    unfold nextView
    rw [hmore]
    exact viewAfter_step (s := { ty }) rfl expr

/-- Where the links behind the head of a navigation come from. -/
theorem links_head_origin (hp : cx.navigators.Provided) {good : ResolveState → Prop} {h : Hop}
    {rest : List Hop} {head : Link} {others : List Link}
    (leading : ∀ h' ∈ h :: rest, ∀ p ∈ h'.predicates, Leading p.resolve)
    (keeps : ∀ h' ∈ h :: rest, ∀ p ∈ h'.predicates, ∀ candidate, Keeping good (predicate candidate p))
    (start : good st) (unstacked : st.scopes.Over fun _ => True)
    (hrun : Yields (links cx {} (h :: rest)) st (some (head :: others)) st') :
    ∀ link ∈ others, LinkOrigin cx good (h :: rest) link := by
  obtain ⟨link, conditions, mid, after, -, hc, ho, found⟩ := yields_links_some hrun
  cases found
  have here := leading h (List.mem_cons_self ..)
  have later : ∀ h' ∈ rest, ∀ p ∈ h'.predicates, Leading p.resolve :=
    fun h' hh => leading h' (List.mem_cons_of_mem _ hh)
  have grown := (Leading.mapM (fun p hp => Leading.predicate (here p hp)) hc).scopes
  obtain ⟨kept, conditionsFrom⟩ := origin_conditions (List.mem_cons_self ..) (fun _ hp => hp)
    (fun p hp => keeps h (List.mem_cons_self ..) p hp _) start hc
  intro l hl
  rcases List.mem_append.1 hl with hl | hl
  · exact conditionsFrom l hl
  · have behind := links_origin hp later (fun h' hh => keeps h' (List.mem_cons_of_mem _ hh)) kept
      (grown.over unstacked) (nextView_viewed ..) ho l hl
    exact behind.among fun h' hh => List.mem_cons_of_mem _ hh

/-- The links of a stream: an answer of the open scopes to one of its hops, and links that go on from it,
each of known origin. -/
theorem stream_links (hp : cx.navigators.Provided) {good : ResolveState → Prop}
    {steps : List (Step Pending)} (nonempty : steps ≠ []) {hops : List Hop} {mid : ResolveState}
    (hopsRun : Yields (steps.mapM hop) st hops mid)
    (leading : ∀ h ∈ hops, ∀ p ∈ h.predicates, Leading p.resolve)
    (keeps : ∀ h ∈ hops, ∀ p ∈ h.predicates, ∀ candidate, Keeping good (predicate candidate p))
    (start : good mid) (unstacked : mid.scopes.Over fun _ => True) {found : List Link}
    (linksRun : Yields (links cx {} hops) mid (some found) st') :
    ∃ h ∈ hops, ∃ expr ty others, found = .step expr ty :: others ∧
      mid.scopes.resolve cx h.step .head = some expr ∧ expr.ty = some ty ∧
      Fit (Movable cx.classes) (.behind ty others) others ∧
      ∀ link ∈ others, LinkOrigin cx good hops link := by
  cases hops with
  | nil => exact absurd (List.length_eq_zero_iff.1 (length_hops hopsRun).symm) nonempty
  | cons h rest =>
    obtain ⟨expr, ty, others, rfl, answer, typed, fit⟩ :=
      links_head leading (going_movable hp unstacked) linksRun
    exact ⟨h, List.mem_cons_self .., expr, ty, others, rfl, answer, typed, fit,
      links_head_origin hp leading keeps start unstacked linksRun⟩

/-- Over subjects only, conditions are resolved where the scopes have more locals. -/
theorem leading_links (hp : cx.navigators.Provided) {P : Node → Prop} {steps : List (Step Pending)}
    (nonempty : steps ≠ []) {hops : List Hop} {mid : ResolveState}
    (hopsRun : Yields (steps.mapM hop) st hops mid)
    (leading : ∀ h ∈ hops, ∀ p ∈ h.predicates, Leading p.resolve) (held : mid.scopes.Over P)
    {found : List Link} (linksRun : Yields (links cx {} hops) mid (some found) st') :
    ∃ h ∈ hops, ∃ expr ty others, found = .step expr ty :: others ∧
      mid.scopes.resolve cx h.step .head = some expr ∧ expr.ty = some ty ∧
      Fit (Movable cx.classes) (.behind ty others) others ∧
      ∀ link ∈ others, LinkOrigin cx (fun later => mid.scopes.Grows later.scopes) hops link := by
  have unstacked : mid.scopes.Over fun _ => True := fun scope hs t origin heq => by
    obtain ⟨m, rfl, -⟩ := held scope hs t origin heq
    exact ⟨m, rfl, trivial⟩
  have keeps : ∀ h ∈ hops, ∀ p ∈ h.predicates, ∀ candidate,
      Keeping (fun later => mid.scopes.Grows later.scopes) (predicate candidate p) :=
    fun h hmem p hp _ => (Leading.predicate (leading h hmem p hp)).keeping mid.scopes
  exact stream_links hp nonempty hopsRun leading keeps (.refl _) unstacked linksRun

end Resolve

end NavScript
