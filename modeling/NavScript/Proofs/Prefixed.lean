import NavScript.Proofs.Faithful
import NavScript.Proofs.InPlace

/-!
# A step in front that stays on `this`

What a navigator answers for a value that is read in place is its answer for the value on the stack, with
the value placed there (`Scope.resolveFrom_placed`). So a step `self::node()` in front of a stream makes no
difference where it stays on a single binding that answers the first step as well (`navigates_prefixed`).
-/

namespace NavScript

open Lower

section

variable {value : Node} {ty : Ty} {step : Step Node}

theorem placed_methodCall (span : Span) (result : Option Ty) (owner : Ty) (name : String)
    (args : List Node) :
    Node.placed ⟨span, result, .methodCall (.stackedOf ty) owner name args⟩ value =
      ⟨span, result, .methodCall value owner name args⟩ := by
  have first : ReceiverFirst ⟨span, result, .methodCall (.stackedOf ty) owner name args⟩ :=
    (ReceiverFirst.stacked _ _).methodCall ..
  have placed := first.placed_of value
  generalize Node.placed _ value = n at placed
  cases placed with
  | methodCall inner =>
    cases inner
    rfl

variable {classes : ClassTable}

theorem Request.readProperty?_placed (name : String) :
    Request.readProperty? ⟨step, value, ty, classes⟩ name =
      (Request.readProperty? ⟨step, .stackedOf ty, ty, classes⟩ name).map (·.placed value) := by
  unfold readProperty?
  rw [Option.map_map]
  rfl

theorem Request.callMethod?_placed (name : String) :
    Request.callMethod? ⟨step, value, ty, classes⟩ name =
      (Request.callMethod? ⟨step, .stackedOf ty, ty, classes⟩ name).map (·.placed value) := by
  unfold callMethod?
  rw [Option.map_map]
  exact congrArg (Option.map · _) (funext fun found => (placed_methodCall ..).symm)

theorem Navigator.Provided.placed {key : String} {navigator : Navigator} (hn : navigator.Provided key)
    (typed : value.ty = some ty) : navigator.apply ⟨step, value, ty, classes⟩ =
      (navigator.apply ⟨step, .stackedOf ty, ty, classes⟩).map (·.placed value) := by
  have named (read : String → Request → Option Node)
      (each : ∀ name, read name ⟨step, value, ty, classes⟩ =
        (read name ⟨step, .stackedOf ty, ty, classes⟩).map (·.placed value)) :
      (Request.member? ⟨step, value, ty, classes⟩).bind (read · ⟨step, value, ty, classes⟩) =
        ((Request.member? ⟨step, .stackedOf ty, ty, classes⟩).bind
          (read · ⟨step, .stackedOf ty, ty, classes⟩)).map (·.placed value) := by
    rw [Option.map_bind]
    exact congrArg _ (funext each)
  cases hn with
  | identity =>
    have same : value.withTy ty = value := by
      obtain ⟨span, _, kind⟩ := value
      cases typed
      rfl
    exact congrArg some same
  | namedProperty => exact named (fun name r => r.readProperty? name) Request.readProperty?_placed
  | namedMethod => exact named (fun name r => r.callMethod? name) Request.callMethod?_placed
  | fixedProperty => exact Request.readProperty?_placed _
  | fixedMethod => exact Request.callMethod?_placed _

/-- A step is answered for a value as it is for the value on the stack. -/
theorem Scope.resolveFrom_placed {cx : Lookup} (hp : cx.navigators.Provided) (typed : value.ty = some ty) :
    resolveFrom cx ty value step = (resolveFrom cx ty (.stackedOf ty) step).map (·.placed value) := by
  have each : ∀ navigator ∈ cx.navigators.lookup cx.classes ty step,
      navigator.apply ⟨step, value, ty, cx.classes⟩ =
        (navigator.apply ⟨step, .stackedOf ty, ty, cx.classes⟩).map (·.placed value) := by
    intro navigator mem
    obtain ⟨slot, hs, rfl, -⟩ := Registry.mem_lookup mem
    exact (hp slot hs).placed typed
  unfold resolveFrom
  generalize cx.navigators.lookup cx.classes ty step = navigators at each
  induction navigators with
  | nil => rfl
  | cons navigator rest ih =>
    obtain ⟨first, others⟩ := List.forall_mem_cons.1 each
    rw [List.findSome?_cons, List.findSome?_cons, first, ih others]
    cases navigator.apply ⟨step, .stackedOf ty, ty, cx.classes⟩ <;> rfl

end

/-- A step that goes on from a single `this`, or that stays on it last, is the head of the navigation. -/
theorem scalar_prefixed {b : Bool} {this n : Node} (hthis : this.isThis = true) {t : Ty}
    (single : t.isMultiValued = false) (typed : (n.placed this).ty = n.ty) {rest : List Link}
    (moves : (n.placed this).isThis = true → rest = []) (ty : Ty) :
    scalar b [] (.step this t :: .step n ty :: rest) = scalar b [] (.step (n.placed this) ty :: rest) := by
  cases stays : (n.placed this).isThis with
  | false => exact scalar_from_this hthis single stays typed ty rest
  | true =>
    obtain rfl := moves stays
    have chain : readThis [this, n] = readThis [n.placed this] := if_pos hthis
    have closed : close b [this, n] = close b [n.placed this] := by
      unfold close
      rw [chain]
    simp only [scalar, single, List.isEmpty_nil, Bool.not_true, Bool.and_false, Bool.false_and,
      Bool.false_eq_true, if_false, List.nil_append, List.singleton_append, closed]

namespace Resolve

def bindingScope (env : Environment) : Scope := .bound env.binding (.subject (.thisOf env.binding))

/-- Of the scopes that answer the step, the one of the binding comes first. -/
structure BindingAnswers (cx : Context) (scopes : Scopes) (step : Step Node) (n : Node) : Prop where
  /-- A reduction is looked up in no scope. -/
  asked : ∀ r, step.test ≠ .reduction r
  first : ∃ inner outer, scopes = inner ++ bindingScope cx.env :: outer ∧
    ∀ scope ∈ inner, scope.resolve cx.lookup step .head = none
  answer : (bindingScope cx.env).resolve cx.lookup step .head = some n

section

variable {cx : Context} {scopes : Scopes} {step : Step Node} {n : Node}

theorem BindingAnswers.resolve (h : BindingAnswers cx scopes step n) :
    scopes.resolve cx.lookup step .head = some n := by
  obtain ⟨inner, outer, rfl, silent⟩ := h.first
  unfold Scopes.resolve
  rw [List.findSome?_append, List.findSome?_eq_none_iff.2 silent, Option.none_or, List.findSome?_cons,
    h.answer]

/-- What the binding answers at the head it answers behind `this` as well, for the value on the stack. -/
theorem BindingAnswers.behind (hp : cx.navigators.Provided) (unstacked : scopes.Unstacked)
    (h : BindingAnswers cx scopes step n) : ∃ m t, m.placed (.thisOf cx.env.binding) = n ∧
      m.ty = some t ∧ n.ty = some t ∧
      LinkOf cx.lookup ⟨some cx.env.binding, false⟩ step scopes (some (.step m t)) := by
  have answer : Scope.resolveFrom cx.lookup cx.env.binding (.thisOf cx.env.binding) step = some n :=
    h.answer
  rw [Scope.resolveFrom_placed hp rfl] at answer
  obtain ⟨m, found, rfl⟩ := Option.map_eq_some_iff.1 answer
  obtain ⟨t, typed, placedTy⟩ :
      ∃ t, m.ty = some t ∧ (m.placed (.thisOf cx.env.binding)).ty = some t := by
    cases Scope.resolveFrom_answer hp found with
    | receiver => exact ⟨_, rfl, rfl⟩
    | property => exact ⟨_, rfl, rfl⟩
    | method => exact ⟨_, rfl, congrArg Node.ty (placed_methodCall ..)⟩
  have viewed : viewed cx.lookup ⟨some cx.env.binding, false⟩ step scopes = some m :=
    (Scopes.resolve_tail unstacked ..).trans found
  exact ⟨m, t, rfl, typed, placedTy, .step h.asked viewed typed⟩

end

/-- The links that are found for the conditions on a step and for the steps behind it. -/
def Follows (cx : Lookup) (view : View) (candidate : Ty) (h : Hop) (rest : List Hop) (st : ResolveState)
    (behind : List Link) (st' : ResolveState) : Prop :=
  ∃ conditions mid others, Yields (h.predicates.mapM (predicate candidate)) st conditions mid ∧
    Yields (links cx view rest) mid (some others) st' ∧ behind = conditions ++ others

theorem yields_links_answered {cx : Lookup} {view : View} {h : Hop} {rest : List Hop} {link : Link}
    {found : List Link} {st st' : ResolveState} (answered : LinkOf cx view h.step st.scopes (some link)) :
    Yields (links cx view (h :: rest)) st (some found) st' ↔ ∃ behind, found = link :: behind ∧
      Follows cx (nextView view link h rest) (candidateTy view link h rest) h rest st behind st' := by
  rw [yields_links_cons]
  constructor
  · rintro (⟨-, heq, -⟩ | ⟨other, conditions, mid, others, hlink, hc, ho, heq⟩)
    · cases heq
    · have asked : Yields (link? cx view h.step) st (some link) st := yields_link?.2 ⟨rfl, answered⟩
      cases (asked.unique (yields_link?.2 ⟨rfl, hlink⟩)).1
      obtain ⟨others, rfl, rfl⟩ := Option.map_eq_some_iff.1 heq.symm
      exact ⟨conditions ++ others, rfl, conditions, mid, others, hc, ho, rfl⟩
  · rintro ⟨_, rfl, conditions, mid, others, hc, ho, rfl⟩
    exact .inr ⟨link, conditions, mid, some others, answered, hc, ho, rfl⟩

/-- Nothing is found behind a last step without conditions. -/
theorem Follows.nil {cx : Lookup} {view : View} {candidate : Ty} {h : Hop} {rest : List Hop}
    {st st' : ResolveState} {behind : List Link} (follows : Follows cx view candidate h rest st behind st')
    (last : rest = []) (unconditional : h.predicates = []) : behind = [] := by
  obtain ⟨conditions, mid, others, hc, ho, rfl⟩ := follows
  rw [unconditional] at hc
  subst last
  obtain ⟨rfl, -⟩ := yields_mapM_nil.1 hc
  obtain ⟨heq, -⟩ := yields_links_nil.1 ho
  cases heq
  rfl

def selfStep (span : Span) : Step Node := { span, axis := .self, test := .self }

/-- With a single binding that answers both steps, the links behind `self::node()` are those of the stream,
but the first is answered for the value on the stack. -/
theorem links_prefixed {cx : Context} (hp : cx.navigators.Provided) {selfSpan : Span} {mid : ResolveState}
    {h : Hop} {head : Node} (unstacked : mid.scopes.Unstacked) (single : cx.env.binding.isMultiValued = false)
    (stays : BindingAnswers cx mid.scopes (selfStep selfSpan) (.thisOf cx.env.binding))
    (answers : BindingAnswers cx mid.scopes h.step head) (hops : List Hop) :
    ∃ m t, m.placed (.thisOf cx.env.binding) = head ∧ m.ty = some t ∧ head.ty = some t ∧
      LinkOf cx.lookup {} h.step mid.scopes (some (.step head t)) ∧
      ∀ found last,
        Yields (links cx.lookup {} (⟨selfStep selfSpan, []⟩ :: h :: hops)) mid (some found) last ↔
          ∃ behind, found = .step (.thisOf cx.env.binding) cx.env.binding :: .step m t :: behind ∧
            Yields (links cx.lookup {} (h :: hops)) mid (some (.step head t :: behind)) last := by
  obtain ⟨m, t, rfl, typed, placedTy, behindThis⟩ := answers.behind hp unstacked
  have atHead : LinkOf cx.lookup {} h.step mid.scopes (some (.step _ t)) :=
    .step answers.asked answers.resolve placedTy
  have onThis : LinkOf cx.lookup {} (selfStep selfSpan) mid.scopes
      (some (.step (.thisOf cx.env.binding) cx.env.binding)) := .step stays.asked stays.resolve rfl
  have inView : nextView {} (.step (.thisOf cx.env.binding) cx.env.binding) ⟨selfStep selfSpan, []⟩
      (h :: hops) = ⟨some cx.env.binding, false⟩ := by
    have element : cx.env.binding.element? = none := by
      rw [← Option.not_isSome_iff_eq_none]
      exact Bool.not_eq_true _ ▸ single
    simp only [nextView, viewAfter, Link.ty, List.isEmpty_cons, Bool.not_false, Bool.true_or, element]
  refine ⟨m, t, rfl, typed, placedTy, atHead, fun found last => ?_⟩
  -- the view behind the first step is the same, so the same links follow
  rw [yields_links_answered onThis, inView]
  constructor
  · rintro ⟨_, rfl, _, _, others, hc, ho, rfl⟩
    obtain ⟨rfl, rfl⟩ := yields_mapM_nil.1 hc
    obtain ⟨behind, rfl, follows⟩ := (yields_links_answered behindThis).1 ho
    exact ⟨behind, rfl, (yields_links_answered atHead).2 ⟨behind, rfl, follows⟩⟩
  · rintro ⟨behind, rfl, plain⟩
    obtain ⟨_, heq, follows⟩ := (yields_links_answered atHead).1 plain
    cases heq
    refine ⟨_, rfl, [], mid, _, yields_mapM_nil.2 ⟨rfl, rfl⟩, ?_, rfl⟩
    exact (yields_links_answered behindThis).2 ⟨behind, rfl, follows⟩

/-- With a single binding that answers both steps, `self::node()` in front of a stream makes no
difference, unless the first step stays on `this` too and something follows. -/
theorem navigates_prefixed {cx : Context} (hp : cx.navigators.Provided) {span selfSpan : Span}
    {s : Step Node} {rest : List (Step Node)} {st mid : ResolveState} {h : Hop} {hops : List Hop}
    {head : Node} (hopped : Yields (((s :: rest).map (·.map (pending cx))).mapM hop) st (h :: hops) mid)
    (unstacked : mid.scopes.Unstacked) (single : cx.env.binding.isMultiValued = false)
    (stays : BindingAnswers cx mid.scopes (selfStep selfSpan) (.thisOf cx.env.binding))
    (answers : BindingAnswers cx mid.scopes h.step head)
    (moves : head.isThis = true → rest = [] ∧ s.predicates = []) {n : Node} {st' : ResolveState} :
    (∃ list, Navigates cx span ((selfStep selfSpan :: s :: rest).map (·.map (pending cx))) st list n st') ↔
      ∃ list, Navigates cx span ((s :: rest).map (·.map (pending cx))) st list n st' := by
  obtain ⟨m, t, rfl, typed, placedTy, atHead, prefixed⟩ :=
    links_prefixed hp unstacked single stays answers hops
  have hoppedSelf : Yields (((selfStep selfSpan :: s :: rest).map (·.map (pending cx))).mapM hop) st
      (⟨selfStep selfSpan, []⟩ :: h :: hops) mid :=
    yields_mapM_cons.2 ⟨_, st, _, yields_hop.2 ⟨.self, rfl, rfl⟩, hopped, rfl⟩
  have same {behind : List Link} {last : ResolveState}
      (plain : Yields (links cx.lookup {} (h :: hops)) mid
        (some (.step (m.placed (.thisOf cx.env.binding)) t :: behind)) last) :
      scalar cx.config.boxPrimitiveGuards []
          (.step (.thisOf cx.env.binding) cx.env.binding :: .step m t :: behind) =
        scalar cx.config.boxPrimitiveGuards [] (.step (m.placed (.thisOf cx.env.binding)) t :: behind) := by
    refine scalar_prefixed rfl single (placedTy.trans typed.symm) (fun this => ?_) t
    obtain ⟨rfl, unconditional⟩ := moves this
    have predicates := hops_predicates hopped
    simp only [List.map_cons, List.map_nil, List.cons.injEq, List.map_eq_nil_iff] at predicates
    obtain ⟨_, heq, follows⟩ := (yields_links_answered atHead).1 plain
    cases heq
    refine follows.nil predicates.2 (predicates.1.trans ?_)
    rw [Step.map, unconditional, List.map_nil]
  constructor
  · rintro ⟨_, navigates⟩
    cases navigates with
    | lowered hopsRun linksRun makes =>
      obtain ⟨rfl, rfl⟩ := hoppedSelf.unique hopsRun
      obtain ⟨behind, rfl, plain⟩ := (prefixed _ _).1 linksRun
      rw [same plain] at makes
      exact ⟨_, .lowered hopped plain makes⟩
  · rintro ⟨_, navigates⟩
    cases navigates with
    | lowered hopsRun linksRun makes =>
      obtain ⟨rfl, rfl⟩ := hopped.unique hopsRun
      obtain ⟨behind, rfl, -⟩ := (yields_links_answered atHead).1 linksRun
      rw [← same linksRun] at makes
      exact ⟨_, .lowered hoppedSelf ((prefixed _ _).2 ⟨behind, rfl, linksRun⟩) makes⟩

theorem standard_self {cx : Lookup} {policy : ConflictPolicy} (standard : cx.navigators = .standard policy)
    {ty : Ty} {receiver n : Node} {span : Span}
    (h : Scope.resolveFrom cx ty receiver (selfStep span) = some n) : n = receiver.withTy ty := by
  obtain ⟨navigator, mem, answer⟩ := List.exists_of_findSome?_eq_some h
  obtain ⟨super, -, filed⟩ := List.mem_flatMap.1 (standard ▸ mem)
  have held : (Registry.standard policy).holder? ⟨super.key, .self, .self⟩ = some navigator := by
    simpa [Registry.candidatesAt, selfStep, SlotTest.ofTest, SlotTest.fallback?] using filed
  have slots : (Registry.standard policy).slots =
      [(⟨Ty.object.key, .self, .self⟩, .identity), (⟨Ty.object.key, .child, .anyName⟩, .namedProperty),
        (⟨Ty.object.key, .attr, .anyName⟩, .namedProperty),
        (⟨Ty.object.key, .child, .anyCall⟩, .namedMethod)] := by
    cases policy <;> rfl
  obtain ⟨before, after, split, -⟩ := List.lookup_eq_some_iff.1 held
  have listed : (⟨super.key, .self, .self⟩, navigator) ∈ (Registry.standard policy).slots := by
    rw [split]
    simp
  simp only [slots, List.mem_cons, List.not_mem_nil, or_false, Prod.mk.injEq, Slot.mk.injEq, reduceCtorEq,
    and_false, false_and] at listed
  obtain ⟨-, rfl⟩ := listed
  cases answer
  rfl

/-- With the standard navigators, a part of a script in which no sequence is written and no stream lingers
becomes a tree in which `this` is guarded nowhere. A step `self::node()` in front of a stream makes no
difference to what the stream becomes, to its type and to the state, if a single binding answers this step
and the first one, which goes on from `this` or is the last. -/
theorem this_read_in_place {cx : Context} {policy : ConflictPolicy}
    (standard : cx.navigators = .standard policy) :
    (∀ root root' ds, resolveNavigation cx root = (.ok root', ds) → ∀ v, Visited cx root v →
      v.node.SequenceFree → (∀ w, Below cx v w → ¬ Lingers cx w) →
        ∃ n st', Yields (tree cx v.node) v.state n st' ∧ n.Unguarded) ∧
    ∀ span selfSpan (s : Step Node) rest (st mid : ResolveState) h hops this head,
      Yields (((s :: rest).map (·.map (pending cx))).mapM hop) st (h :: hops) mid → st.scopes.Unstacked →
      cx.env.binding.isMultiValued = false → BindingAnswers cx mid.scopes (selfStep selfSpan) this →
      BindingAnswers cx mid.scopes h.step head → (head.isThis = true → rest = [] ∧ s.predicates = []) →
      ∀ n st',
        (∃ list, Navigates cx span ((selfStep selfSpan :: s :: rest).map (·.map (pending cx))) st list n
          st') ↔
        ∃ list, Navigates cx span ((s :: rest).map (·.map (pending cx))) st list n st' := by
  have hp : cx.navigators.Provided := standard ▸ Registry.provided_standard policy
  constructor
  · intro root root' ds resolved v visited free once
    obtain ⟨last, run, -⟩ := resolveNavigation_ok resolved
    obtain ⟨⟨n, st', made⟩, -⟩ := visited.run run
    exact ⟨n, st', made, part_unguarded hp free (visited.leaves run) once made⟩
  · intro span selfSpan s rest st mid h hops this head hopped unstacked single stays answers moves n st'
    obtain rfl : this = .thisOf cx.env.binding := standard_self standard stays.answer
    exact navigates_prefixed hp hopped ((hops_lead hopped).scopes.unstacked unstacked) single stays answers
      moves

/-- A call without arguments. -/
def callStep (method : String) : Step Node := { axis := .child, test := .call method [] }

/-- The call, behind so many steps `self::node()`. -/
def callBehind (selves : Nat) (method : String) : List (Step Node) :=
  List.replicate selves (selfStep .synthetic) ++ [callStep method]

def stringContext : Context := (Setup.ofConfig {}).context .standard { binding := .string }

def stringState : ResolveState :=
  { scopes := initialScopes stringContext.env (.ofKind (.stream [])) }

/-- Where no name is asked for, the scope of the method does not answer, and the text does. -/
theorem string_answers {step : Step Node} {n : Node} (asked : ∀ r, step.test ≠ .reduction r)
    (unnamed : step.childName? = none)
    (answer : (bindingScope stringContext.env).resolve stringContext.lookup step .head = some n) :
    BindingAnswers stringContext stringState.scopes step n := by
  refine ⟨asked, ⟨[.method []], _, rfl, fun scope hs => ?_⟩, answer⟩
  rw [List.mem_singleton.1 hs]
  simp [Scope.resolve, Scope.resolveLocal, unnamed]

/-- The length of the binding is read in place, behind a step that stays on it as well. -/
theorem this_read_in_place_length :
    let root : Node := .ofKind (.stream (callBehind 1 "length"))
    stringContext.navigators = .standard .firstWins ∧
      (∃ root', resolveNavigation stringContext root = (.ok root', [])) ∧
      Visited stringContext root ⟨stringState, root⟩ ∧ root.SequenceFree ∧
      (∀ v, Below stringContext ⟨stringState, root⟩ v → ¬ Lingers stringContext v) ∧
      (∃ n st', Yields (tree stringContext root) stringState n st' ∧ n.Unguarded) ∧
      ∃ n st',
        (∃ list, Navigates stringContext .synthetic
          ((callBehind 1 "length").map (·.map (pending stringContext))) stringState list n st') ∧
        ∃ list, Navigates stringContext .synthetic
          ((callBehind 0 "length").map (·.map (pending stringContext))) stringState list n st' := by
  intro root
  have standard : stringContext.navigators = .standard .firstWins := rfl
  have front : root.FrontEnd := ⟨by decide, by decide, by decide⟩
  have free := front.sequenceFree
  have navigates : ∃ links n st', Navigates stringContext .synthetic
      ((callBehind 1 "length").map (·.map (pending stringContext))) stringState links n st' ∧
        ¬ StaysTwice links := ⟨_, _, _, .lowered rfl rfl rfl, id⟩
  obtain ⟨links, n, st', prefixed, once⟩ := navigates
  have lingers : ∀ v, Below stringContext ⟨stringState, root⟩ v → ¬ Lingers stringContext v := by
    intro v below
    cases below.alone rfl
    rintro ⟨steps, links', n', last, kind, navigates, stays⟩
    cases kind
    exact once (prefixed.unique navigates ▸ stays)
  have resolves : ∃ root', resolveNavigation stringContext root = (.ok root', []) := ⟨_, rfl⟩
  obtain ⟨root', resolved⟩ := resolves
  obtain ⟨unguarded, same⟩ := this_read_in_place standard
  refine ⟨standard, ⟨root', resolved⟩, .root, free, lingers,
    unguarded root root' [] resolved _ .root free lingers, n, st', ⟨links, prefixed⟩, ?_⟩
  have hopped : Yields (((callBehind 0 "length").map (·.map (pending stringContext))).mapM hop) stringState
      [⟨callStep "length", []⟩] stringState := rfl
  have stays : BindingAnswers stringContext stringState.scopes (selfStep .synthetic) (.thisOf .string) :=
    string_answers (fun _ reduces => by cases reduces) rfl rfl
  have reads : ∃ head, (bindingScope stringContext.env).resolve stringContext.lookup (callStep "length")
      .head = some head ∧ head.isThis = false := ⟨_, rfl, rfl⟩
  obtain ⟨head, read, other⟩ := reads
  have answers : BindingAnswers stringContext stringState.scopes (callStep "length") head :=
    string_answers (fun _ reduces => by cases reduces) rfl read
  refine (same _ _ _ _ _ _ _ _ _ _ hopped (initialScopes_unstacked _ _) rfl stays answers ?_ n st').1
    ⟨links, prefixed⟩
  rw [other]
  exact fun reads => absurd reads Bool.false_ne_true

/-- A method over a text, of which it asks something of the binding. -/
def asking (steps : List (Step Node)) : Node :=
  let read : Step Node := { axis := .child, test := .name "x", predicates := [.ofKind (.stream steps)] }
  .ofKind (.methodDecl ⟨"m", [⟨"x", .string⟩], none, [.ofKind (.stream [read])]⟩)

def numberContext : Context := (Setup.ofConfig {}).context .standard { binding := .ofClass "Number" }

/-- Behind two steps that stay on it `this` is guarded, as it is where a guard is written. The size of a list
is not read behind one, which sees the list by element, nor a number in a condition on a text, where the
text stays on itself. -/
theorem this_guarded :
    let read (steps : List (Step Node)) : Node := .ofKind (.stream steps)
    let written : Node := guarded .synthetic .string (.thisOf .string) .string (.stackedOf .string)
    (∃ n, resolveNavigation stringContext (read (callBehind 2 "length")) = (.ok n, []) ∧
      n.guardsThis = true) ∧
    (resolveNavigation stringContext written = (.ok written, []) ∧ written.guardsThis = true) ∧
    (∃ n, resolveNavigation listContext (read (callBehind 0 "size")) = (.ok n, []) ∧
      n.label = "MethodCall") ∧
    resolveNavigation listContext (read (callBehind 1 "size")) = (.ok (read (callBehind 1 "size")),
      [.unresolvedStep "child::size()" (some .boolean) .synthetic]) ∧
    (∃ n, resolveNavigation numberContext (asking (callBehind 0 "doubleValue")) = (.ok n, [])) ∧
    ∃ n, resolveNavigation numberContext (asking (callBehind 1 "doubleValue")) =
      (.ok n, [.unresolvedStep "child::doubleValue()" (some .string) .synthetic]) :=
  ⟨⟨_, rfl, rfl⟩, ⟨rfl, rfl⟩, ⟨_, rfl, rfl⟩, rfl, ⟨_, rfl⟩, _, rfl⟩

end Resolve

end NavScript
