import NavScript.Proofs.Surveyed

/-!
# Types of the values on the stack

A node is faithful if each value in it is read under the type that it has: what lies on the stack under
the type of the node that has left it, and what a drawn name stands for under the type it is bound with.
A stream that is lowered is faithful where its head, its links and the two types in view are
(`stream_faithful_iff`). These two differ behind a condition on one primitive, which is boxed from then
on, and behind primitives that are collected after they were boxed. Where no link is of a primitive type
they are the same, and the parts decide alone (`stream_faithful_of_references`).
-/

namespace NavScript

open Course Lower

/-- From each stack the node has a survey in which no value is read under another type. -/
def Node.Reads (n : Node) (env : List (String × Option Ty)) (pre : List (Option Ty)) : Prop :=
  ∀ frame, ∃ last, n.survey id env (pre ++ frame) = some (last, true)

/-- In all environments of the scopes values are read under their types. -/
def Node.Faithful (scopes : Scopes) (n : Node) : Prop :=
  ∀ env, Within id scopes env → n.Reads env []

/-- A step reads its receiver as what it takes it for, a condition its candidate. -/
def Link.Faithful (scopes : Scopes) : Link → Prop
  | .step expr _ => ∀ env, Within id scopes env → expr.Reads env [expr.receiverTy]
  | .predicate x cond t => ∀ env v, Within id scopes env → (t.isPrimitive = false → v = some t) →
    cond.Reads ((x, v) :: env) []
  | .reduce _ _ => True

theorem Node.Walks.reads_iff {n : Node} {env : List (String × Option Ty)} {pre : List (Option Ty)}
    {ok : Bool} (h : n.Walks id env pre ok) : n.Reads env pre ↔ ok = true := by
  constructor
  · intro reads
    obtain ⟨last, run⟩ := reads []
    rw [h []] at run
    simp only [Option.some.injEq, Prod.mk.injEq] at run
    exact run.2
  · rintro rfl frame
    exact ⟨_, h frame⟩

/-- On a value of the receiver's type a step has the flag of its arguments. -/
theorem LinkWalks.receiver {V : Type} [DecidableEq V] {label : Option Ty → V}
    {within : List (String × V) → Prop} {expr : Node} {ty : Ty} {ok : Bool}
    (h : LinkWalks label within (.step expr ty) ok) (env : List (String × V)) (he : within env) :
    expr.Walks label env [label expr.receiverTy] ok := by
  have walks := h env he (label expr.receiverTy)
  rwa [beq_self_eq_true, Bool.and_true] at walks

section

variable {scopes : Scopes} {next : Nat} (sound : scopes.Sound next)
include sound

theorem Node.Stands.faithful_iff {n : Node} {ok : Bool} (h : n.Stands id scopes ok) :
    n.Faithful scopes ↔ ok = true := by
  obtain ⟨env, he⟩ := sound.within id
  exact ⟨fun faithful => (h env he).reads_iff.1 (faithful env he),
    fun flag env he => (h env he).reads_iff.2 flag⟩

theorem linkWalks_faithful_iff {link : Link} {ok : Bool}
    (h : LinkWalks id (Within id scopes) link ok) : link.Faithful scopes ↔ ok = true := by
  obtain ⟨env, he⟩ := sound.within id
  cases link with
  | step expr ty =>
    have walks := LinkWalks.receiver h
    exact ⟨fun faithful => (walks env he).reads_iff.1 (faithful env he),
      fun flag env he => (walks env he).reads_iff.2 flag⟩
  | predicate x cond t =>
    exact ⟨fun faithful => (h env (some t) he fun _ => rfl).reads_iff.1
        (faithful env (some t) he fun _ => rfl),
      fun flag env v he hv => (h env v he hv).reads_iff.2 flag⟩
  | reduce r ty =>
    have flag : ok = true := h
    exact iff_of_true trivial flag

theorem linksWalk_faithful_iff {links : List Link} {ok : Bool}
    (h : LinksWalk id (Within id scopes) links ok) :
    (∀ link ∈ links, link.Faithful scopes) ↔ ok = true := by
  induction links generalizing ok with
  | nil =>
    have flag : ok = true := h
    exact iff_of_true (fun _ hl => absurd hl List.not_mem_nil) flag
  | cons link rest ih =>
    obtain ⟨a, b, here, others, rfl⟩ := h
    rw [List.forall_mem_cons, linkWalks_faithful_iff sound here, ih others, Bool.and_eq_true]

end

/-- What the forward phase sees, if lowering makes the same. -/
def Sight.track (s : Sight) : Track := ⟨s.ty, s.ty, s.streaming⟩

theorem Sight.entered_track (s : Sight) (hs : s.streaming = false) (more : Bool) :
    (s.entered more).track = .entered s.ty more := by
  unfold Sight.entered Track.entered
  cases s.ty.element? with
  | none => rw [Sight.track, hs]
  | some elem =>
    cases more with
    | true => rfl
    | false =>
      show s.track = _
      rw [Sight.track, hs]
      rfl

/-- A link of a reference type leads both phases to the same type. -/
theorem LinkFit.after_track {goes : Ty → Node → Ty → Prop} {s : Sight} {link : Link}
    (fit : LinkFit goes s link) (reference : link.ty.isPrimitive = false) (more : Bool) :
    s.track.after link more = (s.after link more).track := by
  cases fit with
  | @step expr ty h =>
    show (if s.streaming then _ else _) = (s.stepped expr ty more).track
    cases hs : s.streaming with
    | false =>
      rw [Sight.stepped_scalar hs, Sight.entered_track _ rfl]
      rfl
    | true =>
      cases helem : ty.element? with
      | none =>
        rw [Sight.stepped_single hs expr helem]
        have boxed : ty.boxed = ty := Ty.boxed_of_reference reference
        show (⟨ty, ty.boxed, true⟩ : Track) = ⟨ty, ty, true⟩
        rw [boxed]
      | some elem =>
        rw [Sight.stepped_multi hs expr helem]
        rfl
  | predicate x cond =>
    have kept : (s.after (.predicate x cond s.ty) more).track = s.track := by
      obtain ⟨_, seen⟩ := s.after_predicate x cond s.ty more
      rw [seen]
      rfl
    have boxed : s.ty.boxed = s.ty := Ty.boxed_of_reference reference
    rw [kept]
    unfold Track.after Sight.track
    simp only [boxed]
    split <;> rfl
  | @reduce r elem h =>
    unfold Track.after Sight.track Sight.after Sight.reduced
    cases hs : s.streaming with
    | true =>
      rw [hs, if_pos rfl] at h
      subst h
      rfl
    | false =>
      rw [hs] at h
      have helem : s.ty.element? = some elem := h
      simp only [Bool.false_eq_true, if_false, helem]
      rfl

/-- Where no link is of a primitive type both phases have the same types in view. -/
theorem Fit.aligned {V : Type} [DecidableEq V] (label : Option Ty → V) {goes : Ty → Node → Ty → Prop}
    {links : List Link} {s : Sight} (fit : Fit goes s links)
    (reference : ∀ link ∈ links, link.ty.isPrimitive = false) : Track.aligned label s.track links = true := by
  induction links generalizing s with
  | nil => rfl
  | cons link rest ih =>
    have here : s.track.meets label link = true := by
      have same : (label (some s.ty) == label (some s.ty)) = true := beq_self_eq_true _
      unfold Track.meets Sight.track
      simp only [same, Bool.or_true]
      cases link <;> rfl
    have others := ih fit.2 fun l hl => reference l (List.mem_cons_of_mem _ hl)
    rw [← fit.1.after_track (reference link (List.mem_cons_self ..))] at others
    unfold Track.aligned
    rw [here, others, Bool.and_self]

namespace Resolve

section

variable {s : Setup} (hs : s.Installed) {operators : OperatorTable} {env : Environment} {span : Span}
  {ty : Option Ty} {steps : List (Step Node)} (front : Node.FrontEnd ⟨span, ty, .stream steps⟩)
  {st st' : ResolveState} (sound : st.Sound) {n : Node}
  (h : Yields (tree (s.context operators env) ⟨span, ty, .stream steps⟩) st n st')
  (lowered : n.label ≠ "Stream")
include hs front sound h lowered

/-- The links behind the head fit what is in view of them, and the stream is faithful exactly if its parts
are and both tracks agree. -/
theorem stream_tracks :
    ∃ head t rest,
      Navigates (s.context operators env) span (steps.map (·.map (pending (s.context operators env)))) st
        (.step head t :: rest) n st' ∧
      Fit (Movable (s.context operators env).classes) (.behind t rest) rest ∧
      (n.Faithful st.scopes ↔ head.Faithful st.scopes ∧ (∀ link ∈ rest, link.Faithful st.scopes) ∧
        Track.aligned id (.entered t (!rest.isEmpty)) rest = true) := by
  have parts : Valued id (s.context operators env) (Kind.stream steps).children := by
    intro c child
    exact ⟨tree_surveys id hs.provided c (front.child child),
      front.methods _ (Node.mem_nodes_self _) (by simp [Node.label, Kind.label]) c child⟩
  rw [tree_mk] at h
  obtain ⟨-, left | ⟨head, t, rest, a, b, navigates, fit, first, links, stands⟩⟩ :=
    stream_surveys hs.provided parts sound h
  · exact absurd left lowered
  · refine ⟨head, t, rest, navigates, fit, ?_⟩
    rw [stands.faithful_iff sound, first.faithful_iff sound, linksWalk_faithful_iff sound links,
      Bool.and_eq_true, Bool.and_eq_true]

/-- Without a link of a primitive type a stream is faithful if its head and its links are. -/
theorem stream_faithful_of_references :
    ∃ head t rest,
      Navigates (s.context operators env) span (steps.map (·.map (pending (s.context operators env)))) st
        (.step head t :: rest) n st' ∧
      ((∀ link ∈ rest, link.ty.isPrimitive = false) →
        (n.Faithful st.scopes ↔ head.Faithful st.scopes ∧ ∀ link ∈ rest, link.Faithful st.scopes)) := by
  obtain ⟨head, t, rest, navigates, fit, faithful⟩ := stream_tracks hs front sound h lowered
  refine ⟨head, t, rest, navigates, fun references => ?_⟩
  have aligned : Track.aligned id (.entered t (!rest.isEmpty)) rest = true := by
    have tracks : (Sight.behind t rest).track = .entered t (!rest.isEmpty) :=
      Sight.entered_track { ty := t } rfl _
    rw [← tracks]
    exact Fit.aligned id fit references
  rw [faithful]
  exact ⟨fun ⟨head, links, _⟩ => ⟨head, links⟩, fun ⟨head, links⟩ => ⟨head, links, aligned⟩⟩

end

/-- A stream of the front end that is lowered is faithful exactly if its head and its links are, and
lowering has made the type that the forward phase sees wherever a step or a condition reads one value. -/
theorem stream_faithful_iff {s : Setup} (hs : s.Installed) {operators : OperatorTable}
    {env : Environment} {span : Span} {ty : Option Ty} {steps : List (Step Node)}
    (front : Node.FrontEnd ⟨span, ty, .stream steps⟩) {st st' : ResolveState} (sound : st.Sound)
    {n : Node} (h : Yields (tree (s.context operators env) ⟨span, ty, .stream steps⟩) st n st')
    (lowered : n.label ≠ "Stream") :
    ∃ head t rest,
      Navigates (s.context operators env) span (steps.map (·.map (pending (s.context operators env)))) st
        (.step head t :: rest) n st' ∧
      (n.Faithful st.scopes ↔ head.Faithful st.scopes ∧ (∀ link ∈ rest, link.Faithful st.scopes) ∧
        Track.aligned id (.entered t (!rest.isEmpty)) rest = true) := by
  obtain ⟨head, t, rest, navigates, -, faithful⟩ := stream_tracks hs front sound h lowered
  exact ⟨head, t, rest, navigates, faithful⟩

/-- The size of the bound list, under conditions that are literals. -/
def sizeSteps (conditions : List Bool) : List (Step Node) :=
  [{ axis := .child, test := .call "size" [],
     predicates := conditions.map fun b => .ofLiteral (.bool b) }]

def sizeWhere (conditions : List Bool) : Node := .ofKind (.stream (sizeSteps conditions))

def listContext : Context :=
  (Setup.ofConfig {}).context .standard { binding := .generic "List" .boolean }

def listState : ResolveState := { scopes := initialScopes listContext.env (sizeWhere []) }

/-- The size under one condition is such a stream. -/
theorem stream_faithful_size :
    (sizeWhere [true]).FrontEnd ∧ listState.Sound ∧ ∃ n st',
      Yields (tree listContext (sizeWhere [true])) listState n st' ∧ n.label ≠ "Stream" ∧
      ∃ head t rest,
        Navigates listContext .synthetic ((sizeSteps [true]).map (·.map (pending listContext))) listState
          (.step head t :: rest) n st' ∧
        (n.Faithful listState.scopes ↔ head.Faithful listState.scopes ∧
          (∀ link ∈ rest, link.Faithful listState.scopes) ∧
          Track.aligned id (.entered t (!rest.isEmpty)) rest = true) := by
  have front : (sizeWhere [true]).FrontEnd := ⟨by decide, by decide, by decide⟩
  have sound : listState.Sound := initialScopes_sound ..
  obtain ⟨n, st', h, lowered⟩ : ∃ n st',
      Yields (tree listContext (sizeWhere [true])) listState n st' ∧ n.label = "Sequence" :=
    ⟨_, _, rfl, rfl⟩
  have other : n.label ≠ "Stream" := by simp [lowered]
  exact ⟨front, sound, n, st', h, other, stream_faithful_iff (.ofConfig {}) front sound h other⟩

/-- The second condition on a size reads a number under the primitive type, although the first one
leaves it boxed. -/
theorem stream_unfaithful_size :
    ∃ n st', (sizeWhere [true, true]).FrontEnd ∧ listState.Sound ∧
      Yields (tree listContext (sizeWhere [true, true])) listState n st' ∧ n.label ≠ "Stream" ∧
      ¬ n.Faithful listState.scopes := by
  have front : (sizeWhere [true, true]).FrontEnd := ⟨by decide, by decide, by decide⟩
  obtain ⟨n, st', h, lowered, flag⟩ : ∃ n st',
      Yields (tree listContext (sizeWhere [true, true])) listState n st' ∧ n.label = "Sequence" ∧
        (n.survey id [] []).map Prod.snd = some false :=
    ⟨_, _, rfl, rfl, by decide +kernel⟩
  refine ⟨n, st', front, initialScopes_sound .., h, by simp [lowered], fun faithful => ?_⟩
  obtain ⟨last, run⟩ := faithful [] (initialScopes_within ..) []
  rw [List.nil_append] at run
  rw [run] at flag
  cases flag

end Resolve

end NavScript
