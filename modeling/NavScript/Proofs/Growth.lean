import NavScript.Proofs.Runs

/-!
# What a resolution does to the state

The scopes stay as they are, except that the innermost method may gain locals (`Scopes.Grows`).
Fresh names are drawn and never given back, and the only diagnostics are about steps. `Leads` says
so for two states, and `tree_leads` for each resolution of a tree that does not end in a fault.
-/

namespace NavScript

namespace Scopes

/-- The second scopes are the first, with more locals in the innermost method if there is one. -/
def Grows : Scopes → Scopes → Prop
  | [], after => after = []
  | .method locals :: rest, after => ∃ more, after = .method (more ++ locals) :: rest
  | scope :: rest, after => ∃ rest', after = scope :: rest' ∧ Grows rest rest'

theorem Grows.refl : ∀ scopes : Scopes, Grows scopes scopes
  | [] => rfl
  | .method _ :: _ => ⟨[], rfl⟩
  | .imports _ :: rest | .typeDecl _ _ :: rest | .bound _ _ :: rest => ⟨rest, rfl, refl rest⟩

theorem Grows.trans : ∀ {a b c : Scopes}, Grows a b → Grows b c → Grows a c
  | [], _, _, h, h' => by
    subst h
    exact h'
  | .method locals :: rest, _, _, ⟨more, hb⟩, h' => by
    subst hb
    obtain ⟨more', rfl⟩ := h'
    exact ⟨more' ++ more, by rw [List.append_assoc]⟩
  | .imports _ :: _, _, _, ⟨_, hb, h⟩, h' | .typeDecl _ _ :: _, _, _, ⟨_, hb, h⟩, h'
  | .bound _ _ :: _, _, _, ⟨_, hb, h⟩, h' => by
    subst hb
    obtain ⟨rest', rfl, h'⟩ := h'
    exact ⟨rest', rfl, h.trans h'⟩

/-- A scope that is no method is passed on the way to the innermost one. -/
theorem declare_other (name : String) (ty : Ty) {scope : Scope} (rest : Scopes)
    (other : ∀ locals, scope ≠ .method locals) :
    (declare? name ty (scope :: rest)).getD (scope :: rest) =
      scope :: (declare? name ty rest).getD rest := by
  rw [declare?]
  · cases declare? name ty rest <;> rfl
  · exact other

theorem Grows.declare (name : String) (ty : Ty) :
    ∀ scopes : Scopes, Grows scopes ((scopes.declare? name ty).getD scopes)
  | [] => rfl
  | .method _ :: _ => ⟨[(name, ty)], rfl⟩
  | .imports _ :: rest | .typeDecl _ _ :: rest | .bound _ _ :: rest => by
    rw [declare_other _ _ _ (by simp)]
    exact ⟨_, rfl, declare name ty rest⟩

/-- Scopes grow under one that is closed again, whichever it is. -/
theorem Grows.tail {scope : Scope} {rest after : Scopes} (h : Grows (scope :: rest) after) :
    ∃ top rest', after = top :: rest' ∧ Grows rest rest' := by
  cases scope
  case method =>
    obtain ⟨more, rfl⟩ := h
    exact ⟨_, rest, rfl, refl rest⟩
  all_goals
    obtain ⟨rest', rfl, h⟩ := h
    exact ⟨_, rest', rfl, h⟩

/-- Scopes that gain locals have the same bound scopes. -/
theorem Grows.mem_bound {a b : Scopes} (h : Grows a b) (ty : Ty) (origin : Origin) :
    .bound ty origin ∈ b ↔ .bound ty origin ∈ a := by
  induction a generalizing b with
  | nil =>
    have : b = [] := h
    rw [this]
  | cons scope rest ih =>
    cases scope with
    | method locals =>
      obtain ⟨more, rfl⟩ := h
      simp
    | imports names | typeDecl _ _ | bound _ _ =>
      obtain ⟨rest', rfl, h⟩ := h
      rw [List.mem_cons, List.mem_cons, ih h]

end Scopes

/-- The diagnostic is about a step that no scope answers. -/
def Diagnostic.IsStep (d : Diagnostic) : Prop :=
  ∃ step inView span, d = .unresolvedStep step inView span

namespace ResolveState

/-- What can come of a state while something is resolved. -/
structure Leads (st st' : ResolveState) : Prop where
  scopes : st.scopes.Grows st'.scopes
  fresh : st.nextFresh ≤ st'.nextFresh
  diagnostics : ∃ new, st'.diagnostics = st.diagnostics ++ new ∧ ∀ d ∈ new, d.IsStep

theorem Leads.refl (st : ResolveState) : Leads st st :=
  ⟨.refl _, Nat.le_refl _, [], by simp, by simp⟩

theorem Leads.trans {a b c : ResolveState} (h : Leads a b) (h' : Leads b c) : Leads a c := by
  obtain ⟨new, hb, hnew⟩ := h.diagnostics
  obtain ⟨new', hc, hnew'⟩ := h'.diagnostics
  refine ⟨h.scopes.trans h'.scopes, Nat.le_trans h.fresh h'.fresh, new ++ new', ?_, ?_⟩
  · rw [hc, hb, List.append_assoc]
  · intro d hd
    rcases List.mem_append.1 hd with hd | hd
    · exact hnew d hd
    · exact hnew' d hd

end ResolveState

namespace Resolve

open ResolveState

variable {α β : Type} {st st' : ResolveState}

/-- Each run of the action that ends in a value leads from its first state to its last. -/
def Leading (x : Resolve α) : Prop := ∀ ⦃st a st'⦄, Yields x st a st' → Leads st st'

theorem Leading.mapM {f : α → Resolve β} {as : List α} (hf : ∀ a ∈ as, Leading (f a)) :
    Leading (as.mapM f) := by
  intro st bs st' h
  have each : ∀ a ∈ as, ∀ {mid b last}, Leads st mid → Yields (f a) mid b last →
      Leads st last ∧ True :=
    fun a ha _ _ _ before run => ⟨before.trans (hf a ha run), trivial⟩
  exact (yields_mapM_keeping (Leads st) (fun _ _ => True) each (.refl st) h).1

theorem Leading.inScope {scope : Scope} {x : Resolve α} (hx : Leading x) :
    Leading (inScope scope x) := by
  intro st a st' h
  obtain ⟨mid, top, rest, hrun, hmid, rfl⟩ := yields_inScope.1 h
  have hl := hx hrun
  obtain ⟨top', rest', heq, hg⟩ := hl.scopes.tail
  rw [hmid] at heq
  cases heq
  exact ⟨hg, hl.fresh, hl.diagnostics⟩

theorem Leading.answer? {cx : Lookup} {step : Step Node} {place : Place} :
    Leading (answer? cx step place) := by
  intro st a st' h
  obtain ⟨rfl, -⟩ := yields_answer?.1 h
  exact .refl _

theorem Leading.bare {cx : Lookup} {n : Node} {test : Test Node} : Leading (bare cx n test) := by
  intro st a st' h
  obtain ⟨answer, mid, ha, h⟩ := yields_bind.1 h
  have : st' = mid := by
    split at h <;> exact (yields_pure.1 h).2
  subst this
  exact Leading.answer? ha

theorem Leading.hop {s : Step Pending} (hs : ∀ p ∈ s.test.children, Leading p.resolve) :
    Leading (hop s) := by
  intro st h st' hrun
  obtain ⟨test, hrun, -⟩ := yields_hop.1 hrun
  exact Leading.mapM hs (runs.runs_testChildren hrun)

theorem Leading.predicate {candidate : Ty} {p : Pending} (hp : Leading p.resolve) :
    Leading (predicate candidate p) := by
  intro st link st' h
  obtain ⟨cond, mid, top, rest, hrun, hmid, rfl, -⟩ := yields_predicate.1 h
  have hl := hp hrun
  obtain ⟨top', rest', heq, hg⟩ := hl.scopes.tail
  rw [hmid] at heq
  cases heq
  exact ⟨hg, Nat.le_trans (Nat.le_succ _) hl.fresh, hl.diagnostics⟩

theorem Leading.links {cx : Lookup} :
    ∀ {hops : List Hop} {view : View}, (∀ h ∈ hops, ∀ p ∈ h.predicates, Leading p.resolve) →
      Leading (links cx view hops)
  | [], view, _, st, found, st', h => by
    obtain ⟨-, rfl⟩ := yields_links_nil.1 h
    exact .refl _
  | hop :: rest, view, hops, st, found, st', h => by
    rcases yields_links_cons.1 h with ⟨-, -, rfl⟩ | ⟨link, cs, mid, others, -, hc, ho, -⟩
    · exact ⟨.refl _, Nat.le_refl _, [_], rfl, fun d hd => ⟨_, _, _, List.mem_singleton.1 hd⟩⟩
    · have hc := Leading.mapM (fun p hp => (hops hop (List.mem_cons_self ..) p hp).predicate) hc
      exact hc.trans (Leading.links (fun h hh => hops h (List.mem_cons_of_mem _ hh)) ho)

section

variable {steps : List (Step Pending)} {hops : List Hop}

/-- A hop is its step, with the test resolved. -/
theorem hops_steps (h : Yields (steps.mapM hop) st hops st') :
    ∃ zs : List (Step Pending × Hop), zs.map Prod.fst = steps ∧ zs.map Prod.snd = hops ∧
      ∀ z ∈ zs, ∃ test, z.2 =
        ⟨⟨z.1.span, z.1.axis, test, z.1.predicates.map (·.written)⟩, z.1.predicates⟩ := by
  obtain ⟨zs, hsteps, hhops, all⟩ := runs.runs_mapM.1 h
  refine ⟨zs, hsteps, hhops, fun z hz => ?_⟩
  obtain ⟨before, after, run⟩ := all.each z hz
  obtain ⟨test, -, heq⟩ := yields_hop.1 run
  exact ⟨test, heq⟩

/-- What hops have of their steps is the same for both lists. -/
theorem hops_map {γ : Type} {g : Hop → γ} {k : Step Pending → γ}
    (same : ∀ s test, g ⟨⟨s.span, s.axis, test, s.predicates.map (·.written)⟩, s.predicates⟩ = k s)
    (h : Yields (steps.mapM hop) st hops st') : hops.map g = steps.map k := by
  obtain ⟨zs, rfl, rfl, each⟩ := hops_steps h
  rw [List.map_map, List.map_map]
  refine List.map_congr_left fun z hz => ?_
  obtain ⟨test, made⟩ := each z hz
  show g z.2 = k z.1
  rw [made, same]

theorem hops_predicates (h : Yields (steps.mapM hop) st hops st') :
    hops.map (·.predicates) = steps.map (·.predicates) :=
  hops_map (fun _ _ => rfl) h

theorem hops_spans (h : Yields (steps.mapM hop) st hops st') :
    hops.map (·.step.span) = steps.map (·.span) :=
  hops_map (fun _ _ => rfl) h

theorem length_hops (h : Yields (steps.mapM hop) st hops st') : hops.length = steps.length := by
  simpa using congrArg List.length (hops_spans h)

/-- A hop has the region and the conditions of a step. -/
theorem mem_hops (h : Yields (steps.mapM hop) st hops st') :
    ∀ made ∈ hops, ∃ s ∈ steps, made.step.span = s.span ∧ made.predicates = s.predicates := by
  obtain ⟨zs, rfl, rfl, each⟩ := hops_steps h
  intro made hmade
  obtain ⟨z, hz, rfl⟩ := List.mem_map.1 hmade
  obtain ⟨test, heq⟩ := each z hz
  exact ⟨z.1, List.mem_map_of_mem hz, by rw [heq], by rw [heq]⟩

end

theorem Leading.stream {cx : Context} {span : Span} {ty : Option Ty} {steps : List (Step Pending)}
    (hsteps : ∀ s ∈ steps, ∀ p ∈ s.children, Leading p.resolve) :
    Leading (stream cx span ty steps) := by
  intro st n st' h
  obtain ⟨-, hops, mid, found, last, hh, hl, h⟩ := yields_stream.1 h
  have hhops : ∀ h ∈ hops, ∀ p ∈ h.predicates, Leading p.resolve := by
    intro h hmem p hp
    obtain ⟨s, hs, -, heq⟩ := mem_hops hh h hmem
    exact hsteps s hs p (List.mem_append_right _ (heq ▸ hp))
  have hfirst : Leads st mid :=
    Leading.mapM (fun s hs => .hop fun p hp => hsteps s hs p (List.mem_append_left _ hp)) hh
  have hlast := hfirst.trans (Leading.links hhops hl)
  rcases h with ⟨-, rfl, -⟩ | ⟨list, made, next, -, hmade, rfl, -⟩
  · exact hlast
  · exact ⟨hlast.scopes, Nat.le_trans hlast.fresh (Lower.scalar_le list hmade), hlast.diagnostics⟩

/-- Each resolution of a tree that makes a tree leads from its first state to its last. -/
theorem tree_leads {cx : Context} (n : Node) : Leading (tree cx n) := by
  induction n using Node.induct with
  | h span ty kind ih =>
    intro st n st' h
    cases nodeRun h with
    | @stream steps n run =>
      refine Leading.stream (fun s hs p hp => ?_) run
      obtain ⟨s, hmem, rfl⟩ := List.mem_map.1 hs
      rw [Step.children_map] at hp
      obtain ⟨c, hc, rfl⟩ := List.mem_map.1 hp
      exact ih c (List.mem_flatMap.2 ⟨s, hmem, hc⟩)
    | name run => exact Leading.bare run
    | call hargs run => exact (Leading.mapM ih hargs).trans (Leading.bare run)
    | methodDecl run => exact Leading.inScope (Leading.mapM ih) run
    | @localDecl x written value value' mid run last =>
      have hl := ih value (List.mem_singleton.2 rfl) run
      rw [last]
      unfold declared
      split
      · exact hl.trans ⟨.declare .., Nat.le_refl _, [], by simp, by simp⟩
      · exact hl
    | script run => exact Leading.mapM ih run
    | children _ run => exact Leading.mapM ih (runs.runs_children run).1

section

variable {cx : Context} {steps : List (Step Node)} {hops : List Hop}

/-- The conditions of hops over a tree are conditions of its steps, still to be resolved. -/
theorem hops_pending (h : Yields ((steps.map (·.map (pending cx))).mapM hop) st hops st') :
    ∀ h ∈ hops, ∀ p ∈ h.predicates, ∃ c ∈ (Kind.stream steps).children, p = pending cx c := by
  intro hop hmem p hp
  obtain ⟨_, hstep, -, heq⟩ := mem_hops h hop hmem
  obtain ⟨s, hs, rfl⟩ := List.mem_map.1 hstep
  rw [heq] at hp
  obtain ⟨c, hc, rfl⟩ := List.mem_map.1 hp
  exact ⟨c, List.mem_flatMap.2 ⟨s, hs, List.mem_append_right _ hc⟩, rfl⟩

/-- The arguments of hops are those of all steps, resolved one after the other. -/
theorem hops_arguments (h : Yields ((steps.map (·.map (pending cx))).mapM hop) st hops st') :
    Yields ((steps.flatMap (·.test.children)).mapM (tree cx)) st
      (hops.flatMap (·.step.test.children)) st' := by
  induction steps generalizing hops st with
  | nil =>
    obtain ⟨rfl, rfl⟩ := yields_mapM_nil.1 h
    exact yields_mapM_nil.2 ⟨rfl, rfl⟩
  | cons s rest ih =>
    obtain ⟨test, mid, hops, -, hargs, hrest, rfl⟩ := yields_hops_cons h
    exact yields_mapM_append.2 ⟨_, mid, _, hargs, ih hrest, rfl⟩

theorem hops_lead (h : Yields ((steps.map (·.map (pending cx))).mapM hop) st hops st') :
    ResolveState.Leads st st' :=
  Leading.mapM (fun c _ => tree_leads c) (hops_arguments h)

theorem mem_children_of_argument {c : Node} (h : c ∈ steps.flatMap (·.test.children)) :
    c ∈ (Kind.stream steps).children := by
  obtain ⟨s, hs, hc⟩ := List.mem_flatMap.1 h
  exact List.mem_flatMap.2 ⟨s, hs, List.mem_append_left _ hc⟩

/-- The parts of hops: what came of the arguments of the steps, and their conditions as written. -/
theorem hops_parts {P Q : Node → Prop}
    (h : Yields ((steps.map (·.map (pending cx))).mapM hop) st hops st')
    (arguments : ∀ a ∈ hops.flatMap (·.step.test.children), P a)
    (written : ∀ c ∈ (Kind.stream steps).children, Q c) :
    ∀ h ∈ hops, (∀ a ∈ h.step.test.children, P a) ∧
      ∀ p ∈ h.predicates, ∃ c, p = pending cx c ∧ Q c := by
  intro made hmade
  refine ⟨fun a ha => arguments a (List.mem_flatMap.2 ⟨made, hmade, ha⟩), fun p hp => ?_⟩
  obtain ⟨c, hc, heq⟩ := hops_pending h made hmade p hp
  exact ⟨c, heq, written c hc⟩

end

theorem resolveNavigation_ok {cx : Context} {root root' : Node} {ds : List Diagnostic}
    (h : resolveNavigation cx root = (.ok root', ds)) :
    ∃ st', Yields (tree cx root) { scopes := initialScopes cx.env root } root' st' ∧
      ds = st'.diagnostics := by
  unfold resolveNavigation at h
  cases hr : (tree cx root).run { scopes := initialScopes cx.env root } with
  | mk r st' =>
    rw [hr] at h
    cases h
    exact ⟨st', hr, rfl⟩

/-- The navigation reports nothing but steps. -/
theorem resolveNavigation_steps {cx : Context} {root root' : Node} {ds : List Diagnostic}
    (h : resolveNavigation cx root = (.ok root', ds)) : ∀ d ∈ ds, d.IsStep := by
  obtain ⟨st', hrun, rfl⟩ := resolveNavigation_ok h
  obtain ⟨new, hnew, hsteps⟩ := (tree_leads root hrun).diagnostics
  rw [hnew, List.nil_append]
  exact hsteps

end Resolve

end NavScript
