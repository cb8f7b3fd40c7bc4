import NavScript.Proofs.Expressions
import NavScript.Proofs.Surveyed

/-!
# Expressions stand alone

An expression as it is written takes nothing off the stack and leaves one value when it is resolved
(`tree_standalone`), whatever is found for its names and whatever its navigations are lowered to, and the
scopes around it stay as they are. So the links of a navigation are closed, and they go on from what is in
view (`stream_parts`).
-/

namespace NavScript

open Lower Resolve

variable {span : Span} {ty : Option Ty} {a : Nat}

/-- An expression of the front end, without declarations. -/
def Node.Written (n : Node) : Prop :=
  ∀ c ∈ n.nodes, c.label ∈ ["Literal", "Name", "Call", "Stream", "Binary", "Conditional"]

theorem Node.Written.child {kind : Kind Node} {c : Node} (h : Node.Written ⟨span, ty, kind⟩)
    (hc : c ∈ kind.children) : c.Written := fun d hd => h d (Node.mem_nodes_of_child hc hd)

theorem exec_withSpan (W : World) (n : Node) (span : Span) : exec W (n.withSpan span) = exec W n := by
  cases n
  exact (exec_mk ..).trans (exec_mk ..).symm

theorem Node.Takes.withSpan {n : Node} (h : n.Takes [] a) (span : Span) :
    (n.withSpan span).Takes [] a := by
  intro W
  rw [exec_withSpan]
  exact h W

theorem takes_this {n : Node} (h : n.isThis = true) : n.Takes [] 0 := by
  obtain ⟨span, ty, kind⟩ := n
  cases kind
  case this => exact takes_kind (by simp [Kind.label]) fun _ hc => absurd hc List.not_mem_nil
  all_goals cases h

theorem takes_localRef {x : String} (h : ∀ n, x ≠ freshName "e" n) :
    Node.Takes [] ⟨span, ty, .localRef x⟩ 0 :=
  takes_mk.2 fun _ => .localRef (.inr h)

theorem takes_candidate (k : Nat) (t : Ty) : (Node.localOf (freshName "p" k) t).Takes [] 0 :=
  takes_localRef fun n heq => freshName_letter n k heq.symm

theorem Answer.takes {r : Request} {n : Node} (answer : Answer r n) (receiver : r.receiver.Takes [] a)
    (retyped : (r.receiver.withTy r.receiverTy).Takes [] a) (args : ∀ c ∈ r.args, c.Takes [] 0) :
    n.Takes [] a := by
  cases answer with
  | receiver => exact retyped
  | property => exact takes_propertyRead receiver _
  | method => exact takes_methodCall receiver args _ _

/-- What the open scopes answer at the head takes nothing. -/
theorem head_takes {cx : Lookup} (hp : cx.navigators.Provided) {scopes : Scopes} {next : Nat}
    (sound : scopes.Sound next) {step : Step Node} {n : Node}
    (args : ∀ c ∈ step.test.children, c.Takes [] 0)
    (answer : scopes.resolve cx step .head = some n) : n.Takes [] 0 := by
  obtain ⟨scope, mem, found⟩ := List.exists_of_findSome?_eq_some answer
  cases Scope.resolve_answer hp found with
  | imported => exact takes_kind (by simp [Kind.label]) fun _ hc => absurd hc List.not_mem_nil
  | @declared locals name ty named has =>
    obtain ⟨before, after, rfl, -⟩ := List.lookup_eq_some_iff.1 has
    have plain : isDrawn name = false := sound.plain mem (name, ty) (by simp)
    refine takes_localRef fun n heq => ?_
    rw [heq, isDrawn_freshName] at plain
    cases plain
  | own => exact takes_methodCall (takes_this rfl) args _ _
  | member answer => exact answer.takes (takes_this rfl) (takes_this rfl) args
  | stacked => cases found
  | @subject t subject n answer =>
    rcases sound.bound mem with heq | ⟨k, heq⟩
    · cases heq
      exact answer.takes (takes_this rfl) (takes_this rfl) args
    · cases heq
      exact answer.takes (takes_candidate k t) (takes_candidate k t) args

/-- A step reads the value on the stack and has arguments that stand alone, and so does a condition. -/
def Link.Standalone : Link → Prop
  | step expr _ => (expr.Takes [] 1 ∧ ReceiverFirst expr) ∧ ∀ c ∈ expr.arguments, c.Takes [] 0
  | predicate _ cond _ => cond.Takes [] 0
  | reduce _ _ => True

theorem Link.Standalone.takes {link : Link} (h : link.Standalone) : link.Takes := by
  cases link with
  | step => exact h.1
  | predicate => exact h
  | reduce => trivial

theorem Link.Standalone.closed {link : Link} (h : link.Standalone) (W : World)
    (locals : List (String × Value)) : link.Closed W locals := by
  cases link with
  | step => exact fun c hc => (h.2 c hc).closed locals
  | predicate => exact fun v => (Node.Takes.closed h _).1
  | reduce => trivial

theorem step_standalone {classes : ClassTable} {step : Step Node} {t ty : Ty} {expr : Node}
    (answer : Answer ⟨step, .stackedOf t, t, classes⟩ expr)
    (args : ∀ c ∈ step.test.children, c.Takes [] 0) : (Link.step expr ty).Standalone := by
  refine ⟨⟨answer.takes takes_stacked takes_stacked args, answer.first⟩, ?_⟩
  cases answer with
  | receiver | property => exact fun _ hc => absurd hc List.not_mem_nil
  | method => exact args

namespace Resolve

variable {cx : Context} {st st' : ResolveState} {steps : List (Step Node)}

variable (cx) in
/-- In a sound state the node is resolved in the scopes that there are, to one that takes nothing. -/
def Standalone (n : Node) : Prop :=
  ∀ ⦃st n' st'⦄, st.Sound → Yields (tree cx n) st n' st' → st'.scopes = st.scopes ∧ n'.Takes [] 0

theorem mapM_standalone {ns ns' : List Node} {st st' : ResolveState} (each : ∀ n ∈ ns, Standalone cx n)
    (sound : st.Sound) (h : Yields (ns.mapM (tree cx)) st ns' st') :
    (st'.scopes = st.scopes ∧ st'.Sound) ∧ ∀ n' ∈ ns', n'.Takes [] 0 := by
  obtain ⟨last, given⟩ := yields_mapM_keeping (fun later => later.scopes = st.scopes ∧ later.Sound)
    (fun _ n' => n'.Takes [] 0) (fun n hn mid n' later ⟨before, sound⟩ run => by
      obtain ⟨same, takes⟩ := each n hn sound run
      have laterSound := ResolveState.Sound.later sound same (tree_leads n run).fresh
      exact ⟨⟨same.trans before, laterSound⟩, takes⟩) ⟨rfl, sound⟩ h
  refine ⟨last, fun n' hn' => ?_⟩
  obtain ⟨_, -, takes⟩ := given n' hn'
  exact takes

/-- The parts of hops: arguments that take nothing, and conditions still to be resolved. -/
def HopParts (cx : Context) (h : Hop) : Prop :=
  (∀ c ∈ h.step.test.children, c.Takes [] 0) ∧
    ∀ p ∈ h.predicates, ∃ c, p = pending cx c ∧ Standalone cx c

theorem hops_standalone {steps : List (Step Node)} {hops : List Hop} {st st' : ResolveState}
    (each : ∀ c ∈ (Kind.stream steps).children, Standalone cx c) (sound : st.Sound)
    (h : Yields ((steps.map (·.map (pending cx))).mapM hop) st hops st') :
    (st'.scopes = st.scopes ∧ st'.Sound) ∧ ∀ h ∈ hops, HopParts cx h := by
  obtain ⟨last, arguments⟩ :=
    mapM_standalone (fun c hc => each c (mem_children_of_argument hc)) sound (hops_arguments h)
  exact ⟨last, hops_parts h arguments each⟩

/-- The state is sound, in the given scopes. -/
def SoundIn (scopes : Scopes) (st : ResolveState) : Prop := st.scopes = scopes ∧ st.Sound

theorem predicate_soundIn {c : Node} (h : Standalone cx c) (scopes : Scopes) (candidate : Ty) :
    Keeping (SoundIn scopes) (predicate candidate (pending cx c)) := by
  rintro st link st' run ⟨same, sound⟩
  have later := Leading.predicate (p := pending cx c) (tree_leads c) run
  obtain ⟨cond, mid, top, rest, hrun, hmid, rfl, -⟩ := yields_predicate.1 run
  obtain ⟨inner, -⟩ := h (sound.candidate candidate) hrun
  rw [hmid] at inner
  cases inner
  exact ⟨same, ResolveState.Sound.later sound rfl later.fresh⟩

/-- The links behind the head stand alone. -/
theorem link_standalone {scopes : Scopes} {hops : List Hop} {link : Link}
    (parts : ∀ h ∈ hops, HopParts cx h)
    (origin : LinkOrigin cx.lookup (SoundIn scopes) hops link) : link.Standalone := by
  cases origin with
  | step mem answer => exact step_standalone answer (parts _ mem).1
  | @condition h p candidate st mid cond mem pending reached run =>
    obtain ⟨c, rfl, standalone⟩ := (parts _ mem).2 p pending
    exact (standalone (reached.2.candidate candidate) run).2
  | reduction => trivial

/-- What a navigation is lowered from: a head that the scopes answer, and links that go on from it. -/
structure Parts (cx : Context) (scopes : Scopes) (head : Step Node) (expr : Node) (t : Ty)
    (rest : List Link) : Prop where
  answer : scopes.resolve cx.lookup head .head = some expr
  args : ∀ c ∈ head.test.children, c.Takes [] 0
  typed : expr.ty = some t
  takes : expr.Takes [] 0
  fit : Fit (Movable cx.classes) (.behind t rest) rest
  standalone : ∀ link ∈ rest, link.Standalone

/-- A stream over expressions stays, or it is lowered from such parts. -/
theorem stream_parts (hp : cx.navigators.Provided) {n : Node}
    (each : ∀ c ∈ (Kind.stream steps).children, Standalone cx c) (sound : st.Sound)
    (h : Yields (stream cx span ty (steps.map (·.map (pending cx)))) st n st') :
    st'.scopes = st.scopes ∧ ((n.label = "Stream" ∧ Misses cx (steps.map (·.map (pending cx))) st st') ∨
      ∃ head expr t rest,
      Navigates cx span (steps.map (·.map (pending cx))) st (.step expr t :: rest) n st' ∧
        Parts cx st.scopes head expr t rest) := by
  obtain ⟨hne, hops, mid, found, last, hh, hl, h⟩ := yields_stream.1 h
  obtain ⟨⟨same, midSound⟩, parts⟩ := hops_standalone each sound hh
  have leading : ∀ h ∈ hops, ∀ p ∈ h.predicates, Leading p.resolve := fun h hmem p hp' => by
    obtain ⟨c, rfl, -⟩ := (parts h hmem).2 p hp'
    exact tree_leads c
  have keeps : ∀ h ∈ hops, ∀ p ∈ h.predicates, ∀ candidate,
      Keeping (SoundIn mid.scopes) (predicate candidate p) := fun h hmem p hp' candidate => by
    obtain ⟨c, rfl, standalone⟩ := (parts h hmem).2 p hp'
    exact predicate_soundIn standalone mid.scopes candidate
  obtain ⟨lastSame, -⟩ := Keeping.links (fun _ _ _ _ => id) keeps hl ⟨rfl, midSound⟩
  rcases h with ⟨rfl, rfl, rfl⟩ | ⟨list, made, next, rfl, hmade, rfl, rfl⟩
  · exact ⟨lastSame.trans same, .inl ⟨rfl, hops, mid, hh, hl⟩⟩
  · refine ⟨lastSame.trans same, .inr ?_⟩
    obtain ⟨h, hmem, expr, t, others, rfl, answer, typed, fit, origins⟩ :=
      stream_links hp hne hh leading keeps ⟨rfl, midSound⟩ midSound.unstacked hl
    have args := (parts h hmem).1
    refine ⟨h.step, expr, t, others, .lowered hh hl hmade, ⟨?_, args, typed, ?_, fit, ?_⟩⟩
    · rw [← same]
      exact answer
    · exact head_takes hp midSound args answer
    · exact fun link hlink => link_standalone parts (origins link hlink)

/-- A bare name or call stays, and fails, or takes as little as its answer. -/
theorem bare_takes (hp : cx.navigators.Provided) {node n : Node} {test : Test Node}
    (hnode : node.label ∈ ["Name", "Call"]) (sound : st.Sound)
    (args : ∀ c ∈ test.children, c.Takes [] 0) (h : Yields (bare cx.lookup node test) st n st') :
    st' = st ∧ n.Takes [] 0 := by
  obtain ⟨rfl, ⟨-, rfl⟩ | ⟨found, answer, rfl⟩⟩ := yields_bare h
  · refine ⟨rfl, ?_⟩
    obtain ⟨span, ty, kind⟩ := n
    refine takes_mk.2 fun W => .fails fun m => ?_
    cases kind
    case name | call => exact ⟨_, rfl⟩
    all_goals simp [Node.label, Kind.label] at hnode
  · exact ⟨rfl, (head_takes hp sound args answer).withSpan _⟩

/-- Expressions stand alone. -/
theorem tree_standalone (hp : cx.navigators.Provided) (n : Node) (written : n.Written) :
    Standalone cx n := by
  induction n using Node.induct with
  | h span ty kind ih =>
    have children : ∀ c ∈ kind.children, Standalone cx c := fun c hc => ih c hc (written.child hc)
    have listed : kind.label ∈ _ := written _ (Node.mem_nodes_self _)
    intro st n' st' sound h
    cases nodeRun h with
    | @stream steps _ run =>
      obtain ⟨same, ⟨left, -⟩ | ⟨head, expr, t, rest, ⟨_, _, hmade⟩, parts⟩⟩ :=
        stream_parts hp children sound run
      · refine ⟨same, ?_⟩
        obtain ⟨span, ty, kind⟩ := n'
        refine takes_mk.2 fun W => .fails fun m => ?_
        cases kind
        case stream => exact ⟨_, rfl⟩
        all_goals simp [Node.label, Kind.label] at left
      · have takes := takes_lowered hmade parts.takes fun l hl => (parts.standalone l hl).takes
        exact ⟨same, takes.withSpan _⟩
    | @name x _ run =>
      obtain ⟨rfl, takes⟩ := bare_takes hp (by simp [Node.label, Kind.label]) sound
        (fun _ hc => absurd hc List.not_mem_nil) run
      exact ⟨rfl, takes⟩
    | @call x args args' mid n argsRun run =>
      obtain ⟨⟨same, midSound⟩, given⟩ := mapM_standalone children sound argsRun
      have called : ∀ c ∈ (Test.call x args').children, c.Takes [] 0 := given
      obtain ⟨rfl, takes⟩ := bare_takes hp (by simp [Node.label, Kind.label]) midSound called run
      exact ⟨same, takes⟩
    | methodDecl | localDecl | script => simp [Kind.label] at listed
    | @children kind kind' other run =>
      obtain ⟨run, kept⟩ := runs.runs_children run
      obtain ⟨⟨same, -⟩, given⟩ := mapM_standalone children sound run
      refine ⟨same, takes_kind ?_ given⟩
      rw [kept]
      simp only [List.mem_cons, List.not_mem_nil, or_false, not_or] at listed other ⊢
      rcases listed with h | h | h | h | h | h <;> simp [h] at other ⊢

end Resolve

end NavScript
