import NavScript.Navigation.Resolution
import NavScript.Proofs.Lowered
import NavScript.Proofs.Traverse

/-!
# Runs of the resolver

`Yields x st a st'` says that an action run from `st` ends in the value `a` and the state `st'`. A
run of a composed action is read off the runs of its parts. The resolution of a node is an action
over the resolutions of its children (`tree_mk`), and `nodeRun` lists what it can be.
-/

namespace NavScript

variable {α β γ : Type}

namespace Resolve

/-- The action, run from a state, ends in a value and another state, and not in a fault. -/
def Yields (x : Resolve α) (st : ResolveState) (a : α) (st' : ResolveState) : Prop :=
  x.run st = (.ok a, st')

theorem Yields.unique {x : Resolve α} {st s t : ResolveState} {a b : α} (h : Yields x st a s)
    (h' : Yields x st b t) : b = a ∧ t = s := by
  unfold Yields at h h'
  rw [h] at h'
  cases h'
  exact ⟨rfl, rfl⟩

section

variable {st st' : ResolveState}

private theorem ok_eq {a b : α} {s t : ResolveState} :
    ((.ok a, s) : Except Fault α × ResolveState) = (.ok b, t) ↔ b = a ∧ t = s := by
  simp only [Prod.mk.injEq, Except.ok.injEq]
  exact ⟨fun ⟨h, h'⟩ => ⟨h.symm, h'.symm⟩, fun ⟨h, h'⟩ => ⟨h.symm, h'.symm⟩⟩

@[simp] theorem yields_pure {a b : α} : Yields (pure a) st b st' ↔ b = a ∧ st' = st :=
  ok_eq

@[simp] theorem yields_throw {e : Fault} {a : α} : ¬ Yields (throw e) st a st' := by
  intro h
  cases h

@[simp] theorem yields_get {s : ResolveState} : Yields get st s st' ↔ s = st ∧ st' = st :=
  ok_eq

@[simp] theorem yields_modify {f : ResolveState → ResolveState} {u : PUnit} :
    Yields (modify f) st u st' ↔ st' = f st :=
  ok_eq.trans (by simp)

@[simp] theorem yields_report {d : Diagnostic} {u : Unit} :
    Yields (report d) st u st' ↔ st' = { st with diagnostics := st.diagnostics ++ [d] } :=
  yields_modify

@[simp] theorem yields_declare {name : String} {ty : Ty} {u : Unit} :
    Yields (declare name ty) st u st' ↔
      st' = { st with scopes := (st.scopes.declare? name ty).getD st.scopes } :=
  yields_modify

theorem run_bind (x : Resolve α) (f : α → Resolve β) (st : ResolveState) :
    (x >>= f).run st =
      match x.run st with
      | (.ok a, mid) => (f a).run mid
      | (.error e, mid) => (.error e, mid) := by
  simp only [ExceptT.run, bind, ExceptT.bind, ExceptT.mk, StateT.bind, ExceptT.bindCont]
  rcases x st with ⟨r, mid⟩
  cases r <;> rfl

theorem yields_bind {x : Resolve α} {f : α → Resolve β} {b : β} :
    Yields (x >>= f) st b st' ↔ ∃ a mid, Yields x st a mid ∧ Yields (f a) mid b st' := by
  unfold Yields
  rw [run_bind]
  constructor
  · intro h
    split at h
    · rename_i a mid hx
      exact ⟨a, mid, hx, h⟩
    · cases h
  · rintro ⟨a, mid, hx, h⟩
    rw [hx]
    exact h

/-- The runs of resolutions. -/
def runs : Runs Resolve ResolveState := ⟨Yields, yields_pure, yields_bind⟩

@[simp] theorem yields_map {x : Resolve α} {f : α → β} {b : β} :
    Yields (f <$> x) st b st' ↔ ∃ a, Yields x st a st' ∧ b = f a :=
  runs.map_iff

theorem yields_ofLower {x : Lower α} {a : α} :
    Yields (ofLower x) st a st' ↔
      ∃ next, x.Makes st.nextFresh a next ∧ st' = { st with nextFresh := next } := by
  unfold ofLower
  rw [yields_bind]
  constructor
  · rintro ⟨_, _, hget, h⟩
    obtain ⟨rfl, rfl⟩ := yields_get.1 hget
    split at h
    · rename_i b next hx
      obtain ⟨_, mid, hm, h⟩ := yields_bind.1 h
      obtain ⟨rfl, rfl⟩ := yields_pure.1 h
      exact ⟨next, hx, yields_modify.1 hm⟩
    · exact absurd h yields_throw
  · rintro ⟨next, hx, rfl⟩
    refine ⟨st, st, yields_get.2 ⟨rfl, rfl⟩, ?_⟩
    simp only [show x.run st.nextFresh = .ok (a, next) from hx]
    exact yields_bind.2 ⟨(), _, yields_modify.2 rfl, yields_pure.2 ⟨rfl, rfl⟩⟩

/-- A scope is open during an action only; what the action does below it stays. -/
theorem run_inScope {scope : Scope} {x : Resolve α} {st : ResolveState} :
    (inScope scope x).run st =
      match x.run { st with scopes := scope :: st.scopes } with
      | (r, mid) =>
        match mid.scopes with
        | [] => (.error .scopeUnderflow, mid)
        | _ :: rest => (r, { mid with scopes := rest }) := by
  have observed (st : ResolveState) :
      (inScope.observing x).run st = (.ok (x.run st).1, (x.run st).2) := rfl
  unfold inScope
  simp only [run_bind, observed, Scopes.push,
    show ∀ f st, (modify f : Resolve PUnit).run st = (.ok (), f st) from fun _ _ => rfl,
    show ∀ st, (get : Resolve ResolveState).run st = (.ok st, st) from fun _ => rfl]
  rcases x.run { st with scopes := scope :: st.scopes } with ⟨r, mid⟩
  cases h : mid.scopes with
  | nil =>
    simp only [h, Scopes.pop]
    rfl
  | cons s rest =>
    simp only [h, Scopes.pop]
    cases r <;> rfl

theorem yields_inScope {scope : Scope} {x : Resolve α} {a : α} :
    Yields (inScope scope x) st a st' ↔
      ∃ mid top rest, Yields x { st with scopes := scope :: st.scopes } a mid ∧
        mid.scopes = top :: rest ∧ st' = { mid with scopes := rest } := by
  unfold Yields
  rw [run_inScope]
  constructor
  · intro h
    split at h
    rename_i r mid hx
    split at h
    · cases h
    · rename_i top rest hs
      cases h
      exact ⟨mid, top, rest, hx, hs, rfl⟩
  · rintro ⟨mid, top, rest, hx, hs, rfl⟩
    simp only [hx, hs]

theorem yields_answer? {cx : Lookup} {step : Step Node} {place : Place}
    {a : Option (Node × Ty)} :
    Yields (answer? cx step place) st a st' ↔
      st' = st ∧
        ((a = none ∧ st.scopes.resolve cx step place = none) ∨
          ∃ found ty, a = some (found, ty) ∧ found.ty = some ty ∧
            st.scopes.resolve cx step place = some found) := by
  unfold answer?
  rw [yields_bind]
  constructor
  · rintro ⟨_, _, hget, h⟩
    obtain ⟨rfl, rfl⟩ := yields_get.1 hget
    split at h
    · rename_i hr
      obtain ⟨rfl, rfl⟩ := yields_pure.1 h
      exact ⟨rfl, .inl ⟨rfl, hr⟩⟩
    · rename_i found hr
      split at h
      · rename_i ty hty
        obtain ⟨rfl, rfl⟩ := yields_pure.1 h
        exact ⟨rfl, .inr ⟨found, ty, rfl, hty, hr⟩⟩
      · exact absurd h yields_throw
  · rintro ⟨rfl, ⟨rfl, hr⟩ | ⟨found, ty, rfl, hty, hr⟩⟩
    · refine ⟨st', st', yields_get.2 ⟨rfl, rfl⟩, ?_⟩
      simp only [hr]
      exact yields_pure.2 ⟨rfl, rfl⟩
    · refine ⟨st', st', yields_get.2 ⟨rfl, rfl⟩, ?_⟩
      simp only [hr, hty]
      exact yields_pure.2 ⟨rfl, rfl⟩

/-- A bare name or call becomes its answer, or stays. -/
theorem yields_bare {cx : Lookup} {node n : Node} {test : Test Node}
    (h : Yields (bare cx node test) st n st') : st' = st ∧
      ((st.scopes.resolve cx { span := node.span, axis := .child, test } .head = none ∧ n = node) ∨
        ∃ found, st.scopes.resolve cx { span := node.span, axis := .child, test } .head =
          some found ∧ n = found.withSpan node.span) := by
  obtain ⟨answer, mid, ha, h⟩ := yields_bind.1 h
  obtain ⟨rfl, ⟨rfl, hr⟩ | ⟨found, ty, rfl, -, hr⟩⟩ := yields_answer?.1 ha
  · obtain ⟨rfl, rfl⟩ := yields_pure.1 h
    exact ⟨rfl, .inl ⟨hr, rfl⟩⟩
  · obtain ⟨rfl, rfl⟩ := yields_pure.1 h
    exact ⟨rfl, .inr ⟨found, hr, rfl⟩⟩

section

variable {f : α → Resolve β}

@[simp] theorem yields_mapM_nil {bs : List β} :
    Yields (([] : List α).mapM f) st bs st' ↔ bs = [] ∧ st' = st := by
  rw [List.mapM_nil]
  exact yields_pure

theorem yields_mapM_cons {a : α} {as : List α} {bs : List β} :
    Yields ((a :: as).mapM f) st bs st' ↔
      ∃ b mid rest, Yields (f a) st b mid ∧ Yields (as.mapM f) mid rest st' ∧ bs = b :: rest := by
  rw [List.mapM_cons]
  simp only [yields_bind, yields_pure]
  constructor
  · rintro ⟨b, mid, hb, rest, _, hrest, rfl, rfl⟩
    exact ⟨b, mid, rest, hb, hrest, rfl⟩
  · rintro ⟨b, mid, rest, hb, hrest, rfl⟩
    exact ⟨b, mid, hb, rest, st', hrest, rfl, rfl⟩

/-- What the runs over a list keep, and what each gives for its own element. -/
theorem yields_mapM_keeping (good : ResolveState → Prop) (P : α → β → Prop) {as : List α}
    {bs : List β} {st st' : ResolveState}
    (each : ∀ a ∈ as, ∀ {st b st'}, good st → Yields (f a) st b st' → good st' ∧ P a b)
    (start : good st) (h : Yields (as.mapM f) st bs st') :
    good st' ∧ ∀ b ∈ bs, ∃ a ∈ as, P a b := by
  obtain ⟨zs, rfl, rfl, all⟩ := runs.runs_mapM.1 h
  obtain ⟨last, given⟩ := all.keeping good P (fun z hz => each z.1 (List.mem_map_of_mem hz)) start
  refine ⟨last, fun b hb => ?_⟩
  obtain ⟨z, hz, rfl⟩ := List.mem_map.1 hb
  exact ⟨z.1, List.mem_map_of_mem hz, given z hz⟩

theorem yields_mapM_append {st st' : ResolveState} :
    ∀ {as as' : List α} {bs : List β}, Yields ((as ++ as').mapM f) st bs st' ↔
      ∃ cs mid cs', Yields (as.mapM f) st cs mid ∧ Yields (as'.mapM f) mid cs' st' ∧
        bs = cs ++ cs'
  | [], as', bs => by
    simp only [List.nil_append, yields_mapM_nil]
    constructor
    · intro h
      exact ⟨[], st, bs, ⟨rfl, rfl⟩, h, rfl⟩
    · rintro ⟨_, _, cs', ⟨rfl, rfl⟩, h, rfl⟩
      exact h
  | a :: as, as', bs => by
    simp only [List.cons_append, yields_mapM_cons, @yields_mapM_append _ _ as]
    constructor
    · rintro ⟨b, mid, _, hb, ⟨cs, mid', cs', h, h', rfl⟩, rfl⟩
      exact ⟨b :: cs, mid', cs', ⟨b, mid, cs, hb, h, rfl⟩, h', rfl⟩
    · rintro ⟨_, mid', cs', ⟨b, mid, cs, hb, h, rfl⟩, h', rfl⟩
      exact ⟨b, mid, cs ++ cs', hb, ⟨cs, mid', cs', h, h', rfl⟩, rfl⟩

end

end

/-! ## Streams -/

section

variable {st st' : ResolveState}

/-- The state in which a condition over candidates of a type is resolved. -/
def candidateState (candidate : Ty) (st : ResolveState) : ResolveState :=
  let param := Lower.freshName "p" st.nextFresh
  { st with
    nextFresh := st.nextFresh + 1
    scopes := .bound candidate (.subject (.localOf param candidate)) :: st.scopes }

theorem yields_predicate {candidate : Ty} {p : Pending} {link : Link} :
    Yields (predicate candidate p) st link st' ↔
      ∃ cond mid top rest, Yields p.resolve (candidateState candidate st) cond mid ∧
        mid.scopes = top :: rest ∧ st' = { mid with scopes := rest } ∧
        link = .predicate (Lower.freshName "p" st.nextFresh) cond candidate := by
  unfold predicate
  simp only [yields_bind, yields_ofLower, yields_pure, yields_inScope]
  constructor
  · rintro ⟨_, _, ⟨_, hf, rfl⟩, cond, _, ⟨mid, top, rest, hrun, hmid, rfl⟩, rfl, rfl⟩
    cases hf
    exact ⟨cond, mid, top, rest, hrun, hmid, rfl, rfl⟩
  · rintro ⟨cond, mid, top, rest, hrun, hmid, rfl, rfl⟩
    exact ⟨_, _, ⟨_, rfl, rfl⟩, cond, _, ⟨mid, top, rest, hrun, hmid, rfl⟩, rfl, rfl⟩

/-- What a hop is, and that only the arguments of its step run. -/
theorem yields_hop {s : Step Pending} {h : Hop} :
    Yields (hop s) st h st' ↔
      ∃ test, Yields (s.test.mapM (·.resolve)) st test st' ∧
        h = ⟨⟨s.span, s.axis, test, s.predicates.map (·.written)⟩, s.predicates⟩ := by
  unfold hop
  simp only [yields_bind, yields_pure]
  constructor
  · rintro ⟨test, _, htest, rfl, rfl⟩
    exact ⟨test, htest, rfl⟩
  · rintro ⟨test, htest, rfl⟩
    exact ⟨test, st', htest, rfl, rfl⟩

/-- What the open scopes answer to a step in a view. -/
def viewed (cx : Lookup) (view : View) (step : Step Node) (scopes : Scopes) : Option Node :=
  match view.ty with
  | none => scopes.resolve cx step .head
  | some ty => Scopes.resolve cx (.bound ty .stacked :: scopes) step .tail

/-- The link that a step has in a view, or that it has none. -/
inductive LinkOf (cx : Lookup) (view : View) (step : Step Node) (scopes : Scopes) :
    Option Link → Prop
  | reduction {r : Reduction} (test : step.test = .reduction r) :
    LinkOf cx view step scopes (reductionLink? view r)
  | missing (test : ∀ r, step.test ≠ .reduction r) (answer : viewed cx view step scopes = none) :
    LinkOf cx view step scopes none
  | step {expr : Node} {ty : Ty} (test : ∀ r, step.test ≠ .reduction r)
    (answer : viewed cx view step scopes = some expr) (typed : expr.ty = some ty) :
    LinkOf cx view step scopes (some (.step expr ty))

private theorem yields_answerStacked? {cx : Lookup} {ty : Ty} {step : Step Node}
    {a : Option (Node × Ty)} :
    Yields (inScope (.bound ty .stacked) (answer? cx step .tail)) st a st' ↔
      st' = st ∧
        ((a = none ∧ Scopes.resolve cx (.bound ty .stacked :: st.scopes) step .tail = none) ∨
          ∃ found ty', a = some (found, ty') ∧ found.ty = some ty' ∧
            Scopes.resolve cx (.bound ty .stacked :: st.scopes) step .tail = some found) := by
  simp only [yields_inScope, yields_answer?]
  constructor
  · rintro ⟨_, _, _, ⟨rfl, h⟩, hs, rfl⟩
    cases hs
    exact ⟨rfl, h⟩
  · rintro ⟨rfl, h⟩
    exact ⟨_, _, _, ⟨rfl, h⟩, rfl, rfl⟩

theorem yields_link? {cx : Lookup} {view : View} {step : Step Node} {link : Option Link} :
    Yields (link? cx view step) st link st' ↔ st' = st ∧ LinkOf cx view step st.scopes link := by
  unfold link?
  split
  · rename_i r hr
    rw [yields_pure]
    constructor
    · rintro ⟨rfl, rfl⟩
      exact ⟨rfl, .reduction hr⟩
    · rintro ⟨rfl, h⟩
      cases h with
      | reduction hr' =>
        rw [hr] at hr'
        cases hr'
        exact ⟨rfl, rfl⟩
      | missing hn | step hn => exact absurd hr (hn r)
  · rename_i hn
    have link : st' = st ∧ LinkOf cx view step st.scopes link ↔
        st' = st ∧
          ((link = none ∧ viewed cx view step st.scopes = none) ∨
            ∃ expr ty, link = some (.step expr ty) ∧ expr.ty = some ty ∧
              viewed cx view step st.scopes = some expr) := by
      refine and_congr_right fun _ => ⟨fun h => ?_, ?_⟩
      · cases h with
        | reduction hr => exact absurd hr (hn _)
        | missing _ h => exact .inl ⟨rfl, h⟩
        | step _ h hty => exact .inr ⟨_, _, rfl, hty, h⟩
      · rintro (⟨rfl, h⟩ | ⟨expr, ty, rfl, hty, h⟩)
        · exact .missing hn h
        · exact .step hn h hty
    rw [link]
    unfold viewed
    cases view.ty <;> simp only [yields_bind, yields_answer?, yields_answerStacked?, yields_pure]
    all_goals
      constructor
      · rintro ⟨_, _, ⟨rfl, ⟨rfl, h⟩ | ⟨expr, ty, rfl, hty, h⟩⟩, rfl, rfl⟩
        · exact ⟨rfl, .inl ⟨rfl, h⟩⟩
        · exact ⟨rfl, .inr ⟨expr, ty, rfl, hty, h⟩⟩
      · rintro ⟨rfl, ⟨rfl, h⟩ | ⟨expr, ty, rfl, hty, h⟩⟩
        · exact ⟨none, _, ⟨rfl, .inl ⟨rfl, h⟩⟩, rfl, rfl⟩
        · exact ⟨some _, _, ⟨rfl, .inr ⟨expr, ty, rfl, hty, h⟩⟩, rfl, rfl⟩

@[simp] theorem yields_links_nil {cx : Lookup} {view : View} {found : Option (List Link)} :
    Yields (links cx view []) st found st' ↔ found = some [] ∧ st' = st := by
  rw [links]
  exact yields_pure

/-- The view behind a link, of the conditions on it and of the steps after them. -/
def nextView (view : View) (link : Link) (h : Hop) (rest : List Hop) : View :=
  viewAfter view link (!rest.isEmpty || !h.predicates.isEmpty)

/-- The type of the candidates of the conditions on a link. -/
def candidateTy (view : View) (link : Link) (h : Hop) (rest : List Hop) : Ty :=
  (nextView view link h rest).ty.getD link.ty

/-- A step without a link is reported; otherwise its conditions run, and then the other steps. -/
theorem yields_links_cons {cx : Lookup} {view : View} {h : Hop} {rest : List Hop}
    {found : Option (List Link)} :
    Yields (links cx view (h :: rest)) st found st' ↔
      (LinkOf cx view h.step st.scopes none ∧ found = none ∧
        st' = { st with
          diagnostics := st.diagnostics ++ [.unresolvedStep h.step.text view.ty h.step.span] }) ∨
      ∃ link conditions mid others, LinkOf cx view h.step st.scopes (some link) ∧
        Yields (h.predicates.mapM (predicate (candidateTy view link h rest))) st conditions mid ∧
        Yields (links cx (nextView view link h rest) rest) mid others st' ∧
        found = others.map (link :: conditions ++ ·) := by
  rw [links]
  simp only [yields_bind, yields_link?]
  constructor
  · rintro ⟨link, _, ⟨rfl, hlink⟩, h⟩
    cases link with
    | none =>
      obtain ⟨_, _, hr, h⟩ := yields_bind.1 h
      obtain ⟨rfl, rfl⟩ := yields_pure.1 h
      exact .inl ⟨hlink, rfl, yields_report.1 hr⟩
    | some link =>
      obtain ⟨conditions, mid, hc, h⟩ := yields_bind.1 h
      obtain ⟨others, mid', ho, h⟩ := yields_bind.1 h
      refine .inr ⟨link, conditions, mid, others, hlink, hc, ?_⟩
      cases others <;> (obtain ⟨rfl, rfl⟩ := yields_pure.1 h; exact ⟨ho, rfl⟩)
  · rintro (⟨hlink, rfl, rfl⟩ | ⟨link, conditions, mid, others, hlink, hc, ho, rfl⟩)
    · refine ⟨none, st, ⟨rfl, hlink⟩, ?_⟩
      exact yields_bind.2 ⟨(), _, yields_report.2 rfl, yields_pure.2 ⟨rfl, rfl⟩⟩
    · refine ⟨some link, st, ⟨rfl, hlink⟩, ?_⟩
      refine yields_bind.2 ⟨conditions, mid, hc, yields_bind.2 ⟨others, st', ho, ?_⟩⟩
      cases others <;> exact yields_pure.2 ⟨rfl, rfl⟩

/-- If all steps have links, the first has one, and behind it stand its conditions and the other
links. -/
theorem yields_links_some {cx : Lookup} {view : View} {h : Hop} {rest : List Hop} {found : List Link}
    (run : Yields (links cx view (h :: rest)) st (some found) st') :
    ∃ link conditions mid others, LinkOf cx view h.step st.scopes (some link) ∧
      Yields (h.predicates.mapM (predicate (candidateTy view link h rest))) st conditions mid ∧
      Yields (links cx (nextView view link h rest) rest) mid (some others) st' ∧
      found = link :: (conditions ++ others) := by
  rcases yields_links_cons.1 run with ⟨-, hf, -⟩ | ⟨link, conditions, mid, others, hlink, hc, ho, hf⟩
  · cases hf
  · obtain ⟨others, rfl, rfl⟩ := Option.map_eq_some_iff.1 hf.symm
    exact ⟨link, conditions, mid, others, hlink, hc, ho, rfl⟩

/-- A stream becomes the lowering of its links, or stays as it was written. -/
theorem yields_stream {cx : Context} {span : Span} {ty : Option Ty} {steps : List (Step Pending)}
    {n : Node} :
    Yields (stream cx span ty steps) st n st' ↔
      steps ≠ [] ∧ ∃ hops mid found last, Yields (steps.mapM hop) st hops mid ∧
        Yields (links cx.lookup {} hops) mid found last ∧
        ((found = none ∧ st' = last ∧ n = ⟨span, ty, .stream (steps.map (·.map (·.written)))⟩) ∨
          ∃ list made next, found = some list ∧
            (Lower.scalar cx.config.boxPrimitiveGuards [] list).Makes last.nextFresh made next ∧
            st' = { last with nextFresh := next } ∧ n = made.withSpan span) := by
  unfold stream
  cases steps with
  | nil =>
    simp only [List.isEmpty_nil, if_true]
    exact ⟨fun h => absurd h yields_throw, fun h => absurd rfl h.1⟩
  | cons s rest =>
    simp only [List.isEmpty_cons, Bool.false_eq_true, if_false, yields_bind]
    constructor
    · rintro ⟨hops, mid, hh, found, last, hl, h⟩
      refine ⟨List.cons_ne_nil _ _, hops, mid, found, last, hh, hl, ?_⟩
      cases found with
      | none =>
        obtain ⟨rfl, rfl⟩ := yields_pure.1 h
        exact .inl ⟨rfl, rfl, rfl⟩
      | some list =>
        obtain ⟨made, _, hmade, h⟩ := yields_bind.1 h
        obtain ⟨rfl, rfl⟩ := yields_pure.1 h
        obtain ⟨next, hrun, rfl⟩ := yields_ofLower.1 hmade
        exact .inr ⟨list, made, next, rfl, hrun, rfl, rfl⟩
    · rintro ⟨-, hops, mid, found, last, hh, hl, h⟩
      refine ⟨hops, mid, hh, found, last, hl, ?_⟩
      rcases h with ⟨rfl, rfl, rfl⟩ | ⟨list, made, next, rfl, hrun, rfl, rfl⟩
      · exact yields_pure.2 ⟨rfl, rfl⟩
      · exact yields_bind.2 ⟨made, _, yields_ofLower.2 ⟨next, hrun, rfl⟩, yields_pure.2 ⟨rfl, rfl⟩⟩

end

/-! ## Nodes -/

/-- The state after a local of a type is declared; without a type nothing is declared. -/
def declared (name : String) (ty : Option Ty) (st : ResolveState) : ResolveState :=
  match ty with
  | some ty => { st with scopes := (st.scopes.declare? name ty).getD st.scopes }
  | none => st

def pending (cx : Context) (n : Node) : Pending := ⟨n, tree cx n⟩

theorem pending_written (cx : Context) (steps : List (Step Node)) :
    (steps.map (·.map (pending cx))).map (·.map (·.written)) = steps := by
  rw [List.map_map]
  exact List.map_id'' (fun s => (Step.map_map ..).trans (Step.map_id s)) steps

/-- The steps run their arguments, one after the other, and keep their conditions. -/
theorem yields_hops_cons {cx : Context} {s : Step Node} {steps : List (Step Node)} {hops : List Hop}
    {st st' : ResolveState}
    (h : Yields (((s :: steps).map (·.map (pending cx))).mapM hop) st hops st') :
    ∃ test mid others, Yields (s.test.mapM (tree cx)) st test mid ∧
      Yields (s.test.children.mapM (tree cx)) st test.children mid ∧
      Yields ((steps.map (·.map (pending cx))).mapM hop) mid others st' ∧
      hops = ⟨⟨s.span, s.axis, test, s.predicates⟩, s.predicates.map (pending cx)⟩ :: others := by
  obtain ⟨_, mid, others, hs, hrest, rfl⟩ := yields_mapM_cons.1 h
  obtain ⟨test, htest, rfl⟩ := yields_hop.1 hs
  have htest : Yields ((s.test.map (pending cx)).mapM (·.resolve)) st test mid := htest
  rw [Test.mapM_map] at htest
  have written : (s.map (pending cx)).predicates.map (·.written) = s.predicates :=
    (List.map_map ..).trans (List.map_id _)
  refine ⟨test, mid, others, htest, runs.runs_testChildren htest, hrest, ?_⟩
  rw [written]
  rfl

/-- The resolution of a node, in terms of those of its children. -/
theorem tree_mk (cx : Context) (span : Span) (ty : Option Ty) (kind : Kind Node) :
    tree cx ⟨span, ty, kind⟩ = node cx span ty (kind.map (pending cx)) := by
  unfold tree
  rw [Node.para_mk, Kind.map_map]
  rfl

/-- What the resolution of a node can be, in terms of those of its children. -/
inductive NodeRun (cx : Context) (span : Span) (ty : Option Ty) (st st' : ResolveState) :
    Kind Node → Node → Prop
  | stream {steps : List (Step Node)} {n : Node}
    (run : Yields (stream cx span ty (steps.map (·.map (pending cx)))) st n st') :
    NodeRun cx span ty st st' (.stream steps) n
  | name {x : String} {n : Node}
    (run : Yields (bare cx.lookup ⟨span, ty, .name x⟩ (.name x)) st n st') :
    NodeRun cx span ty st st' (.name x) n
  | call {x : String} {args args' : List Node} {mid : ResolveState} {n : Node}
    (argsRun : Yields (args.mapM (tree cx)) st args' mid)
    (run : Yields (bare cx.lookup ⟨span, ty, .call x args'⟩ (.call x args')) mid n st') :
    NodeRun cx span ty st st' (.call x args) n
  | methodDecl {d : Method Node} {body : List Node}
    (run : Yields (inScope (.method (d.params.map fun p => (p.name, p.ty)).reverse)
      (d.body.mapM (tree cx))) st body st') :
    NodeRun cx span ty st st' (.methodDecl d)
      ⟨span, some (methodTy ⟨d.name, d.params, d.returnTy, body⟩),
        .methodDecl ⟨d.name, d.params, d.returnTy, body⟩⟩
  | localDecl {x : String} {written : Option Ty} {value value' : Node} {mid : ResolveState}
    (run : Yields (tree cx value) st value' mid)
    (last : st' = declared x (written <|> value'.ty) mid) :
    NodeRun cx span ty st st' (.localDecl x written value)
      ⟨span, written <|> value'.ty, .localDecl x written value'⟩
  | script {items items' : List Node} (run : Yields (items.mapM (tree cx)) st items' st') :
    NodeRun cx span ty st st' (.script items)
      ⟨span, items'.getLast?.bind (·.ty), .script items'⟩
  /-- Of all other nodes only the children are resolved. -/
  | children {kind kind' : Kind Node}
    (other : kind.label ∉ ["Stream", "Name", "Call", "MethodDecl", "LocalDecl", "Script"])
    (run : Yields (kind.mapM (tree cx)) st kind' st') :
    NodeRun cx span ty st st' kind ⟨span, ty, kind'⟩

theorem nodeRun {cx : Context} {span : Span} {ty : Option Ty} {kind : Kind Node}
    {st st' : ResolveState} {n : Node} (h : Yields (tree cx ⟨span, ty, kind⟩) st n st') :
    NodeRun cx span ty st st' kind n := by
  have resolved {ns ns' : List Node} {st st' : ResolveState}
      (h : Yields ((ns.map (pending cx)).mapM (·.resolve)) st ns' st') :
      Yields (ns.mapM (tree cx)) st ns' st' := by
    rw [List.mapM_map] at h
    exact h
  rw [tree_mk] at h
  cases kind
  case stream steps => exact .stream h
  case name x => exact .name h
  case call x args =>
    obtain ⟨args', mid, hargs, h⟩ := yields_bind.1 h
    exact .call (resolved hargs) h
  case methodDecl d =>
    obtain ⟨body, _, hbody, h⟩ := yields_bind.1 h
    obtain ⟨rfl, rfl⟩ := yields_pure.1 h
    obtain ⟨mid, top, rest, hrun, hmid, rfl⟩ := yields_inScope.1 hbody
    exact .methodDecl (yields_inScope.2 ⟨mid, top, rest, resolved hrun, hmid, rfl⟩)
  case localDecl x written value =>
    obtain ⟨value', mid, hvalue, h⟩ := yields_bind.1 h
    have hlast : st' = declared x (written <|> value'.ty) mid ∧
        n = ⟨span, written <|> value'.ty, .localDecl x written value'⟩ := by
      cases hty : written <|> value'.ty <;> simp only [hty] at h
      · obtain ⟨rfl, rfl⟩ := yields_pure.1 h
        exact ⟨rfl, rfl⟩
      · obtain ⟨_, _, hd, h⟩ := yields_bind.1 h
        obtain ⟨rfl, rfl⟩ := yields_pure.1 h
        exact ⟨yields_declare.1 hd, rfl⟩
    rw [hlast.2]
    exact .localDecl hvalue hlast.1
  case script items =>
    obtain ⟨items', _, hitems, h⟩ := yields_bind.1 h
    obtain ⟨rfl, rfl⟩ := yields_pure.1 h
    exact .script (resolved hitems)
  all_goals
    obtain ⟨kind', _, hkind, h⟩ := yields_bind.1 h
    obtain ⟨rfl, rfl⟩ := yields_pure.1 h
    rw [Kind.mapM_map] at hkind
    exact .children (by simp [Kind.label]) hkind

end Resolve

end NavScript
