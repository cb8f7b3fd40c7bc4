import NavScript.Proofs.Traced
import NavScript.Proofs.Visits

/-!
# The discipline of the scopes

Whatever is resolved in a run leaves the scopes as they were, save for locals in the innermost
method, and so it does where it ends in a fault: a scope that is opened is closed before the fault
goes on. A scope that stands for a stacked value is open only while a step of a tail is looked up.

`Orderly` says so for all events of an action. It is kept by composition, so it holds of each action
of the resolver, and of the resolution of a tree by induction on the tree (`tree_orderly`).
-/

namespace NavScript

namespace Scopes

/-- No scope stands for a stacked value. -/
def Unstacked (scopes : Scopes) : Prop := ∀ ty, Scope.bound ty .stacked ∉ scopes

theorem Grows.unstacked {a b : Scopes} (h : Grows a b) (ha : a.Unstacked) : b.Unstacked :=
  fun ty hb => ha ty ((h.mem_bound ty .stacked).1 hb)

/-- In the tail only the scope on top answers, with the navigators found for its type. -/
theorem resolve_tail {below : Scopes} (h : below.Unstacked) (cx : Lookup) (ty : Ty)
    (step : Step Node) : resolve cx (.bound ty .stacked :: below) step .tail =
      Scope.resolveFrom cx ty (.stackedOf ty) step := by
  have silent : below.findSome? (fun scope => scope.resolve cx step .tail) = none := by
    rw [List.findSome?_eq_none_iff]
    intro scope hs
    cases scope with
    | bound t origin =>
      cases origin with
      | stacked => exact absurd hs (h t)
      | subject n => rfl
    | imports | method | typeDecl => rfl
  unfold resolve
  rw [List.findSome?_cons, silent]
  cases found : Scope.resolve cx (.bound ty .stacked) step .tail with
  | none => exact found.symm
  | some n => exact found.symm

end Scopes

/-- What is resolved leaves the scopes as they were, but for locals of the innermost method, and
the resolution of a method leaves them exactly so. A stacked value is in scope just where a step is
looked up behind something in view: there it is the one on top, for the type in view, and only the
navigators found for this type answer. -/
def Event.Orderly (cx : Lookup) : Event → Prop
  | .resolved n before after => before.Grows after ∧ (Resolve.isMethodDecl n = true → after = before)
  | .asked scopes step place inView =>
    ((∃ ty, .bound ty .stacked ∈ scopes) ↔ place = .tail) ∧ (inView.isSome ↔ place = .tail) ∧
      (place = .tail → ∃ ty below, inView = some ty ∧ scopes = .bound ty .stacked :: below ∧
        Scopes.Unstacked below ∧
        scopes.resolve cx step place = Scope.resolveFrom cx ty (.stackedOf ty) step)

namespace Traced

variable {α β : Type} {cx : Lookup}

/-- From scopes without a stacked value, the events are orderly and the scopes only gain locals. -/
def Orderly (cx : Lookup) (x : Traced α) : Prop :=
  ∀ st : ResolveState, st.scopes.Unstacked →
    st.scopes.Grows (x.action.run st).2.scopes ∧ ∀ e ∈ x.events st, e.Orderly cx

section Composition

theorem Orderly.pure (a : α) : Orderly cx (pure a) := fun _ _ => ⟨.refl _, nofun⟩

/-- What follows an action has to be orderly for the values the action can end in. -/
theorem Orderly.bind_of {x : Traced α} {f : α → Traced β} (hx : Orderly cx x)
    (hf : ∀ {st a st'}, Resolve.Yields x.action st a st' → Orderly cx (f a)) :
    Orderly cx (x >>= f) := by
  intro st hst
  obtain ⟨grown, first⟩ := hx st hst
  have events : (x >>= f).events st = x.events st ++ eventsAfter f (x.action.run st) := rfl
  rw [events, bind_action, Resolve.run_bind]
  cases run : x.action.run st with
  | mk result mid =>
    rw [run] at grown
    cases result with
    | error fault =>
      refine ⟨grown, fun e he => first e ?_⟩
      simpa [eventsAfter] using he
    | ok a =>
      obtain ⟨grown', second⟩ := hf run mid (grown.unstacked hst)
      refine ⟨grown.trans grown', fun e he => ?_⟩
      rcases List.mem_append.1 he with he | he
      · exact first e he
      · exact second e he

theorem Orderly.bind {x : Traced α} {f : α → Traced β} (hx : Orderly cx x)
    (hf : ∀ a, Orderly cx (f a)) : Orderly cx (x >>= f) :=
  hx.bind_of fun _ => hf _

theorem Orderly.silent {x : Resolve α} (h : ∀ st, (x.run st).2.scopes = st.scopes) :
    Orderly cx (silent x) :=
  fun st _ => ⟨by rw [silent_action, h st]; exact .refl _, nofun⟩

theorem Orderly.mapM {f : α → Traced β} {as : List α} (h : ∀ a ∈ as, Orderly cx (f a)) :
    Orderly cx (as.mapM f) := by
  have loop (done : List β) : Orderly cx (List.mapM.loop f as done) := by
    induction as generalizing done with
    | nil => exact .pure _
    | cons a as ih =>
      refine .bind (h a List.mem_cons_self) fun b => ?_
      exact ih (fun a' ha => h a' (List.mem_cons_of_mem _ ha)) _
  exact loop []

theorem Orderly.testMapM {f : α → Traced β} {t : Test α} (h : ∀ a ∈ t.children, Orderly cx (f a)) :
    Orderly cx (t.mapM f) := by
  cases t with
  | call n args => exact .bind (.mapM h) fun _ => .pure _
  | _ => exact .pure _

theorem Orderly.stepMapM {f : α → Traced β} {s : Step α} (h : ∀ a ∈ s.children, Orderly cx (f a)) :
    Orderly cx (s.mapM f) := by
  refine .bind (.testMapM fun a ha => h a (List.mem_append_left _ ha)) fun _ => ?_
  exact .bind (.mapM fun a ha => h a (List.mem_append_right _ ha)) fun _ => .pure _

theorem Orderly.kindMapM {f : α → Traced β} {k : Kind α} (h : ∀ a ∈ k.children, Orderly cx (f a)) :
    Orderly cx (k.mapM f) := by
  cases k with
  | stream steps =>
    refine .bind (.mapM fun s hs => ?_) fun _ => .pure _
    exact .stepMapM fun a ha => h a (List.mem_flatMap.2 ⟨s, hs, ha⟩)
  | script | sequence | call | methodDecl => exact .bind (.mapM h) fun _ => .pure _
  | methodCall t owner n args =>
    refine .bind (h t List.mem_cons_self) fun _ => ?_
    exact .bind (.mapM fun a ha => h a (List.mem_cons_of_mem _ ha)) fun _ => .pure _
  | conditional a b c =>
    simp only [Kind.children, List.forall_mem_cons] at h
    exact .bind h.1 fun _ => .bind h.2.1 fun _ => .bind h.2.2.1 fun _ => .pure _
  | binary _ a b | operatorCall _ _ a b | pipe _ a _ b | letIn _ a b =>
    simp only [Kind.children, List.forall_mem_cons] at h
    exact .bind h.1 fun _ => .bind h.2.1 fun _ => .pure _
  | localDecl | propertyRead | convert | toSequence | collect | isNull =>
    simp only [Kind.children, List.forall_mem_cons] at h
    exact .bind h.1 fun _ => .pure _
  | literal | name | this | stacked | localRef | typeRef | stackOp => exact .pure _

end Composition

section Actions

variable {st : ResolveState}

/-- A scope is closed again however the action inside ends. -/
theorem inScope_scopes {scope top : Scope} {rest : Scopes} {x : Resolve α}
    (h : (x.run { st with scopes := scope :: st.scopes }).2.scopes = top :: rest) :
    ((Resolve.inScope scope x).run st).2.scopes = rest := by
  rw [Resolve.run_inScope]
  cases run : x.run { st with scopes := scope :: st.scopes } with
  | mk result mid =>
    rw [run] at h
    simp only [show mid.scopes = top :: rest from h]

theorem unstacked_push {scope : Scope} {scopes : Scopes} (hs : ∀ ty, scope ≠ .bound ty .stacked)
    (h : scopes.Unstacked) : (scopes.push scope).Unstacked := by
  intro ty hmem
  rcases List.mem_cons.1 hmem with e | hmem
  · exact hs ty e.symm
  · exact h ty hmem

theorem Orderly.inScope {scope : Scope} {x : Traced α} (hs : ∀ ty, scope ≠ .bound ty .stacked)
    (hx : Orderly cx x) : Orderly cx (Traced.inScope scope x) := by
  intro st hst
  obtain ⟨grown, events⟩ := hx { st with scopes := st.scopes.push scope } (unstacked_push hs hst)
  obtain ⟨top, rest, e, grown⟩ := grown.tail
  rw [inScope_action, inScope_scopes e]
  exact ⟨grown, events⟩

/-- Under the scope of a method all locals go to this scope, and go with it. -/
theorem inScope_method (locals : List (String × Ty)) {x : Traced α} (hx : Orderly cx x)
    (hst : st.scopes.Unstacked) :
    ((Resolve.inScope (.method locals) x.action).run st).2.scopes = st.scopes := by
  have entered : Scopes.Unstacked (st.scopes.push (.method locals)) := unstacked_push nofun hst
  obtain ⟨⟨more, e⟩, -⟩ := hx { st with scopes := st.scopes.push (.method locals) } entered
  exact inScope_scopes e

theorem run_get (st : ResolveState) : (get : Resolve ResolveState).run st = (.ok st, st) := rfl

theorem answer?_scopes (cx : Lookup) (step : Step Node) (place : Place) (st : ResolveState) :
    ((Resolve.answer? cx step place).run st).2.scopes = st.scopes := by
  unfold Resolve.answer?
  simp only [Resolve.run_bind, run_get]
  cases st.scopes.resolve cx step place with
  | none => rfl
  | some found => cases h : found.ty <;> (simp only [h]; rfl)

theorem ofLower_scopes (x : Lower α) (st : ResolveState) :
    ((Resolve.ofLower x).run st).2.scopes = st.scopes := by
  unfold Resolve.ofLower
  simp only [Resolve.run_bind, run_get]
  cases x.run st.nextFresh <;> rfl

/-- Without anything in view the scopes are asked as they are. -/
theorem Orderly.answerHead (step : Step Node) : Orderly cx (answer? cx none step .head) := by
  intro st hst
  rw [answer?_action, answer?_scopes]
  refine ⟨.refl _, fun e he => ?_⟩
  obtain rfl := List.mem_singleton.1 he
  exact ⟨⟨fun ⟨ty, h⟩ => absurd h (hst ty), nofun⟩, by simp, nofun⟩

/-- With something in view the scopes are asked with its stacked value on top. -/
theorem Orderly.answerTail (ty : Ty) (step : Step Node) :
    Orderly cx (Traced.inScope (.bound ty .stacked) (answer? cx (some ty) step .tail)) := by
  intro st hst
  have kept := answer?_scopes cx step .tail { st with scopes := .bound ty .stacked :: st.scopes }
  rw [inScope_action, answer?_action, inScope_scopes kept]
  refine ⟨.refl _, fun e he => ?_⟩
  obtain rfl := List.mem_singleton.1 he
  refine ⟨⟨fun _ => rfl, fun _ => ⟨ty, List.mem_cons_self⟩⟩, by simp, fun _ => ?_⟩
  exact ⟨ty, st.scopes, rfl, rfl, hst, Scopes.resolve_tail hst cx ty step⟩

theorem Orderly.declare (name : String) (ty : Ty) :
    Orderly cx (Traced.silent (Resolve.declare name ty)) :=
  fun st _ => ⟨.declare name ty st.scopes, nofun⟩

theorem Orderly.bare (n : Node) (test : Test Node) : Orderly cx (Traced.bare cx n test) := by
  refine .bind (.answerHead _) fun found => ?_
  cases found <;> exact .pure _

theorem Orderly.hop {s : Step Pending} (h : ∀ p ∈ s.children, Orderly cx p.resolve) :
    Orderly cx (Traced.hop s) :=
  .bind (.testMapM fun p hp => h p (List.mem_append_left _ hp)) fun _ => .pure _

theorem Orderly.predicate {p : Pending} (candidate : Ty) (h : Orderly cx p.resolve) :
    Orderly cx (Traced.predicate candidate p) :=
  .bind (.silent (ofLower_scopes _)) fun _ => .bind (.inScope nofun h) fun _ => .pure _

theorem Orderly.link? (view : Resolve.View) (step : Step Node) : Orderly cx (Traced.link? cx view step) := by
  unfold Traced.link?
  split
  · exact .pure _
  · cases view.ty with
    | none => exact .bind (.answerHead step) fun _ => .pure _
    | some ty => exact .bind (.answerTail ty step) fun _ => .pure _

theorem Orderly.links {hops : List Hop} (view : Resolve.View)
    (h : ∀ hop ∈ hops, ∀ p ∈ hop.predicates, Orderly cx p.resolve) :
    Orderly cx (Traced.links cx view hops) := by
  induction hops generalizing view with
  | nil => exact .pure _
  | cons hop hops ih =>
    rw [Traced.links]
    refine .bind (.link? view hop.step) fun link => ?_
    cases link with
    | none => exact .bind (.silent fun _ => rfl) fun _ => .pure _
    | some link =>
      refine .bind (.mapM fun p hp => .predicate _ (h hop List.mem_cons_self p hp)) fun _ => ?_
      refine .bind (ih _ fun h' hh => h h' (List.mem_cons_of_mem _ hh)) fun others => ?_
      cases others <;> exact .pure _

end Actions

section Trees

/-- A hop has the conditions of a step. -/
theorem mem_hops {steps : List (Step Pending)} {hops : List Hop} {st st' : ResolveState}
    (run : Resolve.Yields (steps.mapM hop).action st hops st') :
    ∀ h ∈ hops, ∃ s ∈ steps, h.predicates = s.predicates := by
  rw [mapM_action] at run
  refine (Resolve.yields_mapM_keeping (fun _ => True) (fun s h => h.predicates = s.predicates)
    (fun s _ _ _ _ _ own => ⟨trivial, ?_⟩) trivial run).2
  obtain ⟨test, _, -, made⟩ := Resolve.yields_bind.1 own
  obtain ⟨rfl, -⟩ := Resolve.yields_pure.1 made
  rfl

theorem Orderly.stream {cx : Context} {steps : List (Step Pending)} (span : Span) (ty : Option Ty)
    (h : ∀ s ∈ steps, ∀ p ∈ s.children, Orderly cx.lookup p.resolve) :
    Orderly cx.lookup (Traced.stream cx span ty steps) := by
  have hops : Orderly cx.lookup (steps.mapM Traced.hop) := .mapM fun s hs => .hop (h s hs)
  have linked {st hops st'} (run : Resolve.Yields (steps.mapM Traced.hop).action st hops st') :
      Orderly cx.lookup (Traced.links cx.lookup {} hops) := by
    refine .links _ fun hop hh p hp => ?_
    obtain ⟨s, hs, e⟩ := mem_hops run hop hh
    exact h s hs p (List.mem_append_right _ (e ▸ hp))
  unfold Traced.stream
  dsimp only
  split
  case' isTrue => refine .bind (.silent fun _ => rfl) fun _ => ?_
  all_goals
    refine hops.bind_of fun run => (linked run).bind fun found => ?_
    cases found with
    | none => exact .pure _
    | some found => exact .bind (.silent (ofLower_scopes _)) fun _ => .pure _

theorem Orderly.node {cx : Context} {kind : Kind Pending} (span : Span) (ty : Option Ty)
    (h : ∀ p ∈ kind.children, Orderly cx.lookup p.resolve) :
    Orderly cx.lookup (Traced.node cx span ty kind) := by
  cases kind with
  | stream steps => exact .stream span ty fun s hs p hp => h p (List.mem_flatMap.2 ⟨s, hs, hp⟩)
  | name n => exact .bare _ _
  | call n args => exact .bind (.mapM h) fun _ => .bare _ _
  | methodDecl d => exact .bind (.inScope nofun (.mapM h)) fun _ => .pure _
  | localDecl n declared value =>
    refine .bind (h value List.mem_cons_self) fun value => ?_
    dsimp only
    cases declared <|> value.ty with
    | none => exact .pure _
    | some ty => exact .bind (.declare n ty) fun _ => .pure _
  | script items => exact .bind (.mapM h) fun _ => .pure _
  | _ => exact .bind (.kindMapM h) fun _ => .pure _

/-- So behind a method the scopes are the ones before it. -/
theorem node_method {cx : Context} {d : Method Pending} (span : Span) (ty : Option Ty)
    {st : ResolveState} (hst : st.scopes.Unstacked)
    (h : ∀ p ∈ d.body, Orderly cx.lookup p.resolve) :
    ((node cx span ty (.methodDecl d)).action.run st).2.scopes = st.scopes := by
  have kept := inScope_method (d.params.map fun p => (p.name, p.ty)).reverse (Orderly.mapM h) hst
  rw [node, bind_action, Resolve.run_bind, inScope_action]
  cases run : (Resolve.inScope (.method (d.params.map fun p => (p.name, p.ty)).reverse)
      (d.body.mapM fun p : Pending => p.resolve).action).run st with
  | mk result mid =>
    rw [run] at kept
    cases result <;> exact kept

/-- The events of a tree are orderly, from all scopes without a stacked value. -/
theorem tree_orderly (cx : Context) (n : Node) : Orderly cx.lookup (tree cx n) := by
  induction n using Node.induct with
  | h span ty kind ih =>
    rw [tree_mk]
    have children : ∀ p ∈ (kind.map (pending cx)).children, Orderly cx.lookup p.resolve := by
      rw [Kind.children_map]
      intro p hp
      obtain ⟨c, hc, rfl⟩ := List.mem_map.1 hp
      exact ih c hc
    intro st hst
    obtain ⟨grown, events⟩ := Orderly.node span ty children st hst
    refine ⟨grown, fun e he => ?_⟩
    rcases List.mem_cons.1 he with rfl | he
    · refine ⟨grown, fun hm => ?_⟩
      cases kind with
      | methodDecl d => exact node_method span ty hst children
      | _ => exact absurd hm nofun
    · exact events e he

end Trees

end Traced

namespace Resolve

theorem initialScopes_unstacked (env : Environment) (root : Node) :
    (initialScopes env root).Unstacked := by
  intro ty h
  simp [initialScopes] at h

/-- The scopes are in order in the whole resolution of a script, wherever in it a node is resolved
or a step looked up, and also where it ends in a fault. -/
theorem scopes_orderly (cx : Context) (root : Node) :
    let run := Traced.tree cx root
    let start : ResolveState := { scopes := initialScopes cx.env root }
    resolveNavigation cx root =
        ((run.action.run start).1, (run.action.run start).2.diagnostics) ∧
      ∀ e ∈ run.events start, e.Orderly cx.lookup := by
  intro run start
  refine ⟨?_, (Traced.tree_orderly cx root start (initialScopes_unstacked cx.env root)).2⟩
  rw [Traced.tree_action]
  rfl

end Resolve

end NavScript
