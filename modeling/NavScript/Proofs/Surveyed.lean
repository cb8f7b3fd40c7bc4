import NavScript.Proofs.Scoped

/-!
# Resolved trees have a survey

Whatever is found for names and steps, and whatever navigations are lowered to, a tree of the front end
that is resolved leaves one value of its type in all environments of the scopes around it
(`tree_surveys`). For a stream the flag of the survey is known from its parts (`stream_surveys`).
-/

namespace NavScript

open Course Lower

variable {V : Type} [DecidableEq V] {label : Option Ty → V} {scopes after : Scopes} {ok : Bool}
  {span : Span} {ty : Option Ty}

/-- In all environments of the scopes the node leaves one value of its type. -/
def Node.Stands (label : Option Ty → V) (scopes : Scopes) (n : Node) (ok : Bool) : Prop :=
  ∀ env, Within label scopes env → n.Walks label env [] ok

/-- In all environments of the scopes the node leaves one value, or it only declares a method. -/
def Node.StandsOrDeclares (label : Option Ty → V) (scopes : Scopes) (n : Node) (ok : Bool) : Prop :=
  ∀ env, Within label scopes env → ∀ frame,
    n.survey label env frame =
      some (if n.label == "MethodDecl" then frame else label n.ty :: frame, ok)

theorem Node.Stands.grows {n : Node} (h : n.Stands label after ok) (grown : scopes.Grows after) :
    n.Stands label scopes ok :=
  fun env he => h env (he.later grown)

theorem Node.StandsOrDeclares.grows {n : Node} (h : n.StandsOrDeclares label after ok)
    (grown : scopes.Grows after) : n.StandsOrDeclares label scopes ok :=
  fun env he => h env (he.later grown)

theorem Node.Stands.withSpan {n : Node} (h : n.Stands label scopes ok) (span : Span) :
    (n.withSpan span).Stands label scopes ok :=
  fun env he => (h env he).withSpan span

theorem stands_leaf {kind : Kind Node}
    (hkind : kind.label ∈ ["Literal", "This", "TypeRef", "Name", "Call", "Stream"]) :
    Node.Stands label scopes ⟨span, ty, kind⟩ true :=
  fun _ _ => walks_leaf hkind

/-- Where a declaration is ruled out a value is left. -/
theorem Node.StandsOrDeclares.stands {n : Node} (h : n.StandsOrDeclares label scopes ok)
    (other : n.label ≠ "MethodDecl") : n.Stands label scopes ok := by
  intro env he frame
  have run := h env he frame
  rw [beq_eq_false_iff_ne.2 other] at run
  exact run

theorem Node.Stands.orDeclares {n : Node} (h : n.Stands label scopes ok) :
    n.StandsOrDeclares label scopes ok := by
  intro env he frame
  rw [beq_eq_false_iff_ne.2 (h env he).declares]
  exact h env he frame

theorem stands_call {target : Node} {args : List Node} (h : target.Stands label scopes true)
    (hargs : ∀ a ∈ args, ∃ ok, a.Stands label scopes ok) (owner : Ty) (name : String) :
    ∃ ok, Node.Stands label scopes ⟨span, ty, .methodCall target owner name args⟩ ok := by
  choose! flag hflag using hargs
  exact ⟨true && args.all flag, fun env he =>
    walks_methodCall (h env he) (fun a ha => hflag a ha env he) owner name⟩

theorem Answer.stands {r : Request} {n : Node} (answer : Answer r n)
    (receiver : r.receiver.Stands label scopes true)
    (retyped : (r.receiver.withTy r.receiverTy).Stands label scopes true)
    (args : ∀ a ∈ r.args, ∃ ok, a.Stands label scopes ok) : ∃ ok, n.Stands label scopes ok := by
  cases answer with
  | receiver => exact ⟨true, retyped⟩
  | property => exact ⟨true, fun env he => walks_propertyRead (receiver env he) _⟩
  | method => exact stands_call receiver args _ _

/-- A bound scope of a tree of the front end is over `this` or over a candidate. -/
theorem Scopes.Sound.bound {next : Nat} (h : scopes.Sound next) {t : Ty} {origin : Origin}
    (mem : .bound t origin ∈ scopes) :
    origin = .subject (.thisOf t) ∨ ∃ k, origin = .subject (.localOf (freshName "p" k) t) := by
  cases h.opened _ mem with
  | this => exact .inl rfl
  | candidate => exact .inr ⟨_, rfl⟩

theorem Scopes.Sound.plain {next : Nat} (h : scopes.Sound next) {locals : List (String × Ty)}
    (mem : .method locals ∈ scopes) : ∀ l ∈ locals, isDrawn l.1 = false := by
  cases h.opened _ mem with
  | method plain => exact plain

/-- What the open scopes answer at the head. -/
theorem head_stands {cx : Lookup} (hp : cx.navigators.Provided) {next : Nat}
    (sound : scopes.Sound next) {step : Step Node} {n : Node}
    (args : ∀ a ∈ step.test.children, ∃ ok, a.Stands label scopes ok)
    (answer : scopes.resolve cx step .head = some n) : ∃ ok, n.Stands label scopes ok := by
  obtain ⟨scope, mem, found⟩ := List.exists_of_findSome?_eq_some answer
  have this (ty : Ty) (span : Span) : ((Node.thisOf ty).withSpan span).Stands label scopes true :=
    stands_leaf (by simp [Kind.label, Node.thisOf])
  cases Scope.resolve_answer hp found with
  | imported => exact ⟨true, stands_leaf (by simp [Kind.label])⟩
  | @declared locals name ty named has =>
    obtain ⟨before, after, rfl, -⟩ := List.lookup_eq_some_iff.1 has
    have plain : isDrawn name = false := sound.plain mem (name, ty) (by simp)
    exact ⟨true, fun env he => walks_plain (he.lookup_plain plain) plain⟩
  | own => exact stands_call (this _ _) args _ _
  | member answer => exact answer.stands (this _ _) (this _ _) args
  | stacked => cases found
  | @subject t subject n answer =>
    rcases sound.bound mem with heq | ⟨k, heq⟩
    · cases heq
      exact answer.stands (this _ .synthetic) (this _ .synthetic) args
    · cases heq
      have reference : t.isPrimitive = false := Scope.resolveFrom_reference hp found
      have bound : (Node.localOf (freshName "p" k) t).Stands label scopes true := by
        intro env he
        have known : Node.Walks label env [] (Node.localOf (freshName "p" k) t)
            (label (some t) == label (some t)) := walks_known (he.candidates k t mem reference)
        rw [beq_self_eq_true] at known
        exact known
      exact answer.stands bound bound args

/-- A step reads the value on the stack, and its arguments have surveys. -/
theorem step_walks {classes : ClassTable} {step : Step Node} {t ty : Ty} {expr : Node}
    (answer : Answer ⟨step, .stackedOf t, t, classes⟩ expr)
    (args : ∀ a ∈ step.test.children, ∃ ok, a.Stands label scopes ok) :
    ∃ ok, LinkWalks label (Within label scopes) (.step expr ty) ok := by
  have receiver := answer.receiverTy
  cases answer with
  | receiver =>
    refine ⟨true, fun env he v => ?_⟩
    rw [receiver]
    exact walks_stacked v
  | property =>
    refine ⟨true, fun env he v => ?_⟩
    rw [receiver]
    exact walks_propertyRead (walks_stacked v) _
  | method =>
    choose! flag hflag using args
    refine ⟨step.test.children.all flag, fun env he v => ?_⟩
    rw [receiver, Bool.and_comm]
    exact walks_methodCall (walks_stacked v) (fun a ha => hflag a ha env he) _ _

theorem linksWalk_of {within : List (String × V) → Prop} {links : List Link}
    (h : ∀ link ∈ links, ∃ ok, LinkWalks label within link ok) :
    ∃ ok, LinksWalk label within links ok := by
  induction links with
  | nil => exact ⟨true, rfl⟩
  | cons link rest ih =>
    obtain ⟨a, ha⟩ := h link (List.mem_cons_self ..)
    obtain ⟨b, hb⟩ := ih fun l hl => h l (List.mem_cons_of_mem _ hl)
    exact ⟨a && b, a, b, ha, hb, rfl⟩

/-- The scopes are sound for the names that are drawn so far. -/
def ResolveState.Sound (st : ResolveState) : Prop := Scopes.Sound st.nextFresh st.scopes

theorem ResolveState.Sound.candidate {st : ResolveState} (h : st.Sound) (t : Ty) :
    (Resolve.candidateState t st).Sound :=
  Scopes.Sound.candidate (Nat.lt_succ_self _) t h

theorem ResolveState.Sound.later {st st' : ResolveState} (h : st.Sound) (same : st'.scopes = st.scopes)
    (le : st.nextFresh ≤ st'.nextFresh) : st'.Sound := by
  unfold ResolveState.Sound
  rw [same]
  exact Scopes.Sound.mono h le

/-- No stacked value is in scope. -/
theorem ResolveState.Sound.unstacked {st : ResolveState} (h : st.Sound) :
    st.scopes.Over fun _ => True := by
  intro scope mem t origin heq
  subst heq
  rcases h.bound mem with rfl | ⟨k, rfl⟩ <;> exact ⟨_, rfl, trivial⟩

namespace Resolve

variable {cx : Context} {st st' : ResolveState} {steps : List (Step Node)}

variable (label) (cx) in
/-- From a sound state the resolution ends in a sound state and in a node with a survey. -/
def Surveys (n : Node) : Prop :=
  ∀ ⦃st n' st'⦄, st.Sound → Yields (tree cx n) st n' st' →
    st'.Sound ∧ (n'.label = "MethodDecl" → n.label = "MethodDecl") ∧
      ∃ ok, n'.StandsOrDeclares label st.scopes ok

/-- All of the children leave values. -/
def Valued (label : Option Ty → V) (cx : Context) (ns : List Node) : Prop :=
  ∀ n ∈ ns, Surveys label cx n ∧ n.label ≠ "MethodDecl"

theorem mapM_surveys {ns ns' : List Node} (each : ∀ n ∈ ns, Surveys label cx n) (sound : st.Sound)
    (h : Yields (ns.mapM (tree cx)) st ns' st') :
    st'.Sound ∧ ∀ n' ∈ ns', ∃ n ∈ ns, (n'.label = "MethodDecl" → n.label = "MethodDecl") ∧
      ∃ ok, n'.StandsOrDeclares label st.scopes ok := by
  -- a survey in the scopes of a later state is one in those of the first
  obtain ⟨⟨last, -⟩, given⟩ := yields_mapM_keeping
    (fun later => later.Sound ∧ st.scopes.Grows later.scopes)
    (fun n n' => (n'.label = "MethodDecl" → n.label = "MethodDecl") ∧
      ∃ ok, n'.StandsOrDeclares label st.scopes ok)
    (fun n hn mid n' later ⟨sound, grown⟩ run => by
      obtain ⟨laterSound, declares, ok, stands⟩ := each n hn sound run
      exact ⟨⟨laterSound, grown.trans (tree_leads n run).scopes⟩, declares, ok, stands.grows grown⟩)
    ⟨sound, .refl _⟩ h
  exact ⟨last, given⟩

theorem mapM_stand {ns ns' : List Node} (valued : Valued label cx ns) (sound : st.Sound)
    (h : Yields (ns.mapM (tree cx)) st ns' st') :
    st'.Sound ∧ ∀ n' ∈ ns', ∃ ok, n'.Stands label st.scopes ok := by
  obtain ⟨lastSound, each⟩ := mapM_surveys (fun n hn => (valued n hn).1) sound h
  refine ⟨lastSound, fun n' hn' => ?_⟩
  obtain ⟨n, hn, declares, ok, stands⟩ := each n' hn'
  exact ⟨ok, stands.stands fun hlabel => (valued n hn).2 (declares hlabel)⟩

/-- The arguments of hops leave values, and so will the conditions. -/
theorem hops_stand {steps : List (Step Node)} {hops : List Hop}
    (valued : Valued label cx (Kind.stream steps).children) (sound : st.Sound)
    (h : Yields ((steps.map (·.map (pending cx))).mapM hop) st hops st') :
    st'.Sound ∧ ∀ h ∈ hops, (∀ a ∈ h.step.test.children, ∃ ok, a.Stands label st.scopes ok) ∧
      ∀ p ∈ h.predicates, ∃ c, p = pending cx c ∧ Surveys label cx c ∧ c.label ≠ "MethodDecl" := by
  obtain ⟨last, arguments⟩ :=
    mapM_stand (fun c hc => valued c (mem_children_of_argument hc)) sound (hops_arguments h)
  exact ⟨last, hops_parts h arguments valued⟩

/-- Later states are sound, with the same bound scopes. -/
def LaterSound (scopes : Scopes) (st : ResolveState) : Prop := st.Sound ∧ scopes.Grows st.scopes

theorem predicate_keeps {c : Node} (surveys : Surveys label cx c) (scopes : Scopes) (candidate : Ty) :
    Keeping (LaterSound scopes) (predicate candidate (pending cx c)) := by
  rintro st link st' h ⟨sound, grown⟩
  have later := (Leading.predicate (p := pending cx c) (tree_leads c) h).scopes
  obtain ⟨cond, mid, top, rest, hrun, hmid, rfl, -⟩ := yields_predicate.1 h
  obtain ⟨midSound, -⟩ := surveys (sound.candidate candidate) hrun
  refine ⟨?_, grown.trans later⟩
  unfold ResolveState.Sound at midSound
  rw [hmid] at midSound
  exact midSound.tail

/-- The links behind the head have surveys. -/
theorem link_walks {hops : List Hop} {link : Link}
    (parts : ∀ h ∈ hops, (∀ a ∈ h.step.test.children, ∃ ok, a.Stands label scopes ok) ∧
      ∀ p ∈ h.predicates, ∃ c, p = pending cx c ∧ Surveys label cx c ∧ c.label ≠ "MethodDecl")
    (origin : LinkOrigin cx.lookup (LaterSound scopes) hops link) :
    ∃ ok, LinkWalks label (NavScript.Within label scopes) link ok := by
  cases origin with
  | @step h t ty expr mem answer => exact step_walks answer (parts h mem).1
  | @condition h p candidate st mid cond mem pending reached run =>
    obtain ⟨c, rfl, surveys, other⟩ := (parts h mem).2 p pending
    obtain ⟨sound, grown⟩ := reached
    obtain ⟨-, declares, ok, stands⟩ := surveys (sound.candidate candidate) run
    refine ⟨ok, fun env v he hv => ?_⟩
    exact stands.stands (fun hlabel => other (declares hlabel)) _ ((he.later grown).candidate sound hv)
  | reduction => exact ⟨true, rfl⟩

/-- A stream stays, or it becomes a node whose survey has the flags of its parts, and that of the types
in view. -/
theorem stream_surveys (hp : cx.navigators.Provided) {n : Node}
    (valued : Valued label cx (Kind.stream steps).children) (sound : st.Sound)
    (h : Yields (stream cx span ty (steps.map (·.map (pending cx)))) st n st') :
    st'.Sound ∧ (n.label = "Stream" ∨ ∃ expr t rest a b,
      Navigates cx span (steps.map (·.map (pending cx))) st (.step expr t :: rest) n st' ∧
      Fit (Movable cx.classes) (.behind t rest) rest ∧
      expr.Stands label st.scopes a ∧ LinksWalk label (NavScript.Within label st.scopes) rest b ∧
      n.Stands label st.scopes
        (a && (b && Track.aligned label (.entered t (!rest.isEmpty)) rest))) := by
  obtain ⟨hne, hops, mid, found, last, hh, hl, h⟩ := yields_stream.1 h
  obtain ⟨midSound, parts⟩ := hops_stand valued sound hh
  have leading : ∀ h ∈ hops, ∀ p ∈ h.predicates, Leading p.resolve := fun h hmem p hp' => by
    obtain ⟨c, rfl, -⟩ := (parts h hmem).2 p hp'
    exact tree_leads c
  have grown : st.scopes.Grows mid.scopes := (hops_lead hh).scopes
  have keeps (scopes : Scopes) : ∀ h ∈ hops, ∀ p ∈ h.predicates, ∀ candidate,
      Keeping (LaterSound scopes) (predicate candidate p) := fun h hmem p hp' candidate => by
    obtain ⟨c, rfl, surveys, -⟩ := (parts h hmem).2 p hp'
    exact predicate_keeps surveys scopes candidate
  obtain ⟨lastSound, -⟩ := Keeping.links (fun _ _ _ _ => id) (keeps mid.scopes) hl ⟨midSound, .refl _⟩
  rcases h with ⟨-, rfl, rfl⟩ | ⟨list, made, next, rfl, hmade, rfl, rfl⟩
  · exact ⟨lastSound, .inl rfl⟩
  · refine ⟨lastSound.mono (scalar_le list hmade), .inr ?_⟩
    obtain ⟨h, hmem, expr, t, others, rfl, answer, typed, fit, origins⟩ :=
      stream_links hp hne hh leading (keeps st.scopes) ⟨midSound, grown⟩ midSound.unstacked hl
    have args (a : Node) (ha : a ∈ h.step.test.children) : ∃ ok, a.Stands label mid.scopes ok := by
      obtain ⟨ok, stands⟩ := (parts h hmem).1 a ha
      exact ⟨ok, fun env he => stands env (he.grows grown)⟩
    obtain ⟨a, head⟩ := head_stands hp midSound args answer
    have head := head.grows grown
    obtain ⟨b, links⟩ := linksWalk_of fun link hlink => link_walks parts (origins link hlink)
    have walks := lowered_walks (fun env n v he => he.element n v) typed head fit links hmade
    exact ⟨expr, t, others, a, b, .lowered hh hl hmade, fit, head, links,
      fun env he => (walks env he).withSpan span⟩

/-- What leaves a value declares nothing. -/
theorem surveyed_of_stands {n n' : Node} (sound : st.Sound) (last : st'.Sound)
    (h : ∃ ok, n'.Stands label st.scopes ok) :
    st'.Sound ∧ (n'.label = "MethodDecl" → n.label = "MethodDecl") ∧
      ∃ ok, n'.StandsOrDeclares label st.scopes ok := by
  obtain ⟨ok, stands⟩ := h
  obtain ⟨env, he⟩ := Scopes.Sound.within label sound
  exact ⟨last, fun declares => absurd declares (stands env he).declares, ok, stands.orDeclares⟩

theorem bare_stands (hp : cx.navigators.Provided) {kind : Kind Node} {test : Test Node} {n : Node}
    (hkind : kind.label ∈ ["Name", "Call"]) (sound : st.Sound)
    (args : ∀ a ∈ test.children, ∃ ok, a.Stands label st.scopes ok)
    (h : Yields (bare cx.lookup ⟨span, ty, kind⟩ test) st n st') :
    st' = st ∧ ∃ ok, n.Stands label st.scopes ok := by
  obtain ⟨rfl, ⟨-, rfl⟩ | ⟨found, hfound, rfl⟩⟩ := yields_bare h
  · refine ⟨rfl, true, stands_leaf ?_⟩
    rcases List.mem_cons.1 hkind with hkind | hkind
    · simp [hkind]
    · simp [List.mem_singleton.1 hkind]
  · obtain ⟨ok, stands⟩ := head_stands hp sound args hfound
    exact ⟨rfl, ok, stands.withSpan _⟩

/-- The items of a script leave nothing, whether they are values or declarations. -/
theorem script_stands {items : List Node}
    (h : ∀ n ∈ items, ∃ ok, n.StandsOrDeclares label scopes ok) :
    ∃ ok, Node.Stands label scopes ⟨span, ty, .script items⟩ ok := by
  choose! flag hflag using h
  refine ⟨items.all flag, fun env he frame => ?_⟩
  have item (n : Node) (hn : n ∈ items) (frame : List V) :
      (if n.label == "MethodDecl" then n.survey label env
        else alone (n.survey label env)) frame = some (frame, flag n) := by
    cases declares : n.label == "MethodDecl" with
    | true =>
      have run := hflag n hn env he frame
      rw [declares, if_pos rfl] at run
      rw [if_pos rfl]
      exact run
    | false =>
      rw [if_neg (by decide)]
      exact ((hflag n hn).stands (by simpa using declares) env he).alone frame
  have each : ∀ (ns : List Node), (∀ n ∈ ns, n ∈ items) → ∀ frame : List V,
      all (ns.map fun n => if n.label == "MethodDecl" then n.survey label env
        else alone (n.survey label env)) frame = some (frame, ns.all flag) := by
    intro ns hns
    induction ns with
    | nil => exact fun _ => rfl
    | cons n ns ih =>
      exact fun frame => andThen_eq (item n (hns n (List.mem_cons_self ..)) frame)
        (ih (fun m hm => hns m (List.mem_cons_of_mem _ hm)) frame)
  rw [survey_mk]
  simp only [Kind.map, surveyKind, List.map_map, Function.comp_def, sheet_declares]
  have made := andThen_eq (each items (fun _ h => h) frame)
    (show push (label ty) frame = some (label ty :: frame, true) from rfl)
  rw [Bool.and_true] at made
  exact made

theorem methodDecl_declares {d : Method Node} (h : ∀ n ∈ d.body, ∃ ok, n.Stands label scopes ok) :
    ∃ ok, Node.StandsOrDeclares label scopes ⟨span, ty, .methodDecl d⟩ ok := by
  choose! flag hflag using h
  refine ⟨d.body.all flag, fun env he frame => ?_⟩
  rw [survey_mk]
  simp only [Kind.map, surveyKind, List.map_map]
  exact all_alone (fun n hn => hflag n hn env he) frame

theorem operation_stands {kind : Kind Node}
    (hkind : kind.label ∈ ["Literal", "Binary", "Conditional"])
    (h : ∀ c ∈ kind.children, ∃ ok, c.Stands label scopes ok) :
    ∃ ok, Node.Stands label scopes ⟨span, ty, kind⟩ ok := by
  cases kind
  case literal => exact ⟨true, stands_leaf (by simp [Kind.label])⟩
  case binary op l r =>
    obtain ⟨a, hl⟩ := h l (by simp [Kind.children])
    obtain ⟨b, hr⟩ := h r (by simp [Kind.children])
    exact ⟨a && b, fun env he => walks_operands (hl env he) (hr env he) fun _ => rfl⟩
  case conditional c t e =>
    obtain ⟨a, hc⟩ := h c (by simp [Kind.children])
    obtain ⟨b, ht⟩ := h t (by simp [Kind.children])
    obtain ⟨d, he⟩ := h e (by simp [Kind.children])
    exact ⟨a && (b && d), fun env hw => walks_conditional (hc env hw) (ht env hw) (he env hw)⟩
  all_goals simp [Kind.label] at hkind

variable (label) in
/-- Resolved trees of the front end have a survey. -/
theorem tree_surveys (hp : cx.navigators.Provided) (n : Node) (front : n.FrontEnd) :
    Surveys label cx n := by
  induction n using Node.induct with
  | h span ty kind ih =>
    have children : ∀ c ∈ kind.children, Surveys label cx c := fun c hc => ih c hc (front.child hc)
    have valued (other : kind.label ≠ "Script") : Valued label cx kind.children := fun c hc =>
      ⟨children c hc, front.methods _ (Node.mem_nodes_self _) other c hc⟩
    have names := front.names _ (Node.mem_nodes_self _)
    intro st n' st' sound h
    cases nodeRun h with
    | @stream steps _ run =>
      obtain ⟨last, unresolved | ⟨expr, t, rest, a, b, -, -, -, -, stands⟩⟩ :=
        stream_surveys hp (valued (by simp [Kind.label])) sound run
      · refine surveyed_of_stands sound last ⟨true, ?_⟩
        obtain ⟨span, ty, kind⟩ := n'
        exact stands_leaf (by rw [show kind.label = "Stream" from unresolved]; simp)
      · exact surveyed_of_stands sound last ⟨_, stands⟩
    | @name x _ run =>
      have none : ∀ a ∈ (Test.name x : Test Node).children, ∃ ok, a.Stands label st.scopes ok :=
        fun _ ha => absurd ha List.not_mem_nil
      obtain ⟨rfl, stands⟩ := bare_stands hp (by simp [Kind.label]) sound none run
      exact surveyed_of_stands sound sound stands
    | @call x args args' mid n argsRun run =>
      obtain ⟨midSound, given⟩ := mapM_stand (valued (by simp [Kind.label])) sound argsRun
      have grown := (Leading.mapM (fun c _ => tree_leads c) argsRun).scopes
      obtain ⟨rfl, ok, stands⟩ := bare_stands hp (by simp [Kind.label]) midSound (fun a ha => by
        obtain ⟨ok, stands⟩ := given a ha
        exact ⟨ok, fun env he => stands env (he.grows grown)⟩) run
      exact surveyed_of_stands sound midSound ⟨ok, stands.grows grown⟩
    | @methodDecl d body run =>
      obtain ⟨mid, top, rest, hbody, hmid, rfl⟩ := yields_inScope.1 run
      have plain : ∀ l ∈ (d.params.map fun p => (p.name, p.ty)).reverse, isDrawn l.1 = false := by
        intro l hl
        obtain ⟨p, hp, rfl⟩ := List.mem_map.1 (List.mem_reverse.1 hl)
        exact names p.name (List.mem_map_of_mem hp)
      have opened : ResolveState.Sound { st with
          scopes := .method (d.params.map fun p => (p.name, p.ty)).reverse :: st.scopes } :=
        Scopes.Sound.method plain sound
      obtain ⟨midSound, given⟩ := mapM_stand (valued (by simp [Kind.label])) opened hbody
      refine ⟨?_, fun _ => rfl, methodDecl_declares fun n hn => ?_⟩
      · unfold ResolveState.Sound at midSound
        rw [hmid] at midSound
        exact midSound.tail
      · obtain ⟨ok, stands⟩ := given n hn
        refine ⟨ok, fun env he => stands env ⟨he.drawn, fun k t mem => ?_⟩⟩
        rcases List.mem_cons.1 mem with heq | mem
        · cases heq
        · exact he.candidates k t mem
    | @localDecl x written value value' mid run lastState =>
      have here := valued (by simp [Kind.label]) value (List.mem_singleton.2 rfl)
      obtain ⟨midSound, declares, ok, stands⟩ := here.1 sound run
      have stands := stands.stands fun hlabel => here.2 (declares hlabel)
      refine surveyed_of_stands sound ?_ ⟨ok, fun env he => walks_localDecl (stands env he) x written⟩
      rw [lastState]
      unfold declared
      split
      · exact Scopes.Sound.declare midSound _ (names x (List.mem_singleton.2 rfl))
      · exact midSound
    | script run =>
      obtain ⟨last, given⟩ := mapM_surveys children sound run
      refine surveyed_of_stands sound last (script_stands fun n hn => ?_)
      obtain ⟨_, -, -, stands⟩ := given n hn
      exact stands
    | @children kind kind' other run =>
      obtain ⟨run, kept⟩ := runs.runs_children run
      have listed : kind.label ∈ _ := front.kinds _ (Node.mem_nodes_self _)
      obtain ⟨last, given⟩ := mapM_stand (valued (by rintro heq; simp [heq] at other)) sound run
      refine surveyed_of_stands sound last (operation_stands ?_ given)
      rw [kept]
      simp only [List.mem_cons, List.not_mem_nil, or_false, not_or] at listed other ⊢
      tauto

theorem initialScopes_sound (env : Environment) (root : Node) :
    ResolveState.Sound { scopes := initialScopes env root } := by
  have imports : Scopes.Sound 0 [Scope.imports (env.imports.map fun c => (c.name, c)).reverse] :=
    .imports _ (.nil 0)
  refine .method (fun _ h => absurd h List.not_mem_nil) (.this _ ?_)
  cases env.enclosing with
  | none => exact imports
  | some ty => exact .typeDecl ty _ imports

omit [DecidableEq V] in
/-- No candidate is in scope at the start. -/
theorem initialScopes_within (env : Environment) (root : Node) :
    NavScript.Within label (initialScopes env root) [] := by
  refine ⟨fun _ h => absurd h List.not_mem_nil, fun k ty mem => ?_⟩
  simp [initialScopes, Scopes.candidate, Node.thisOf, Node.localOf] at mem

end Resolve

end NavScript
