import NavScript.Proofs.Alarms
import NavScript.Proofs.Faultless
import NavScript.Proofs.Kept

/-!
# Streams that are given up

The first step of a stream that has no link ends its resolution: the stream stays as it was, and one
diagnostic is added behind those of its parts. The diagnostic has the view and the region of that step. Its
text is that of the step as it was looked up (`MissedAt`), with its arguments resolved; it is the text of
the step in the stream exactly if the arguments are still written the same.
-/

namespace NavScript

namespace Resolve

variable {cx : Context}

/-- The diagnostics that a visit adds. -/
def Visit.reported (cx : Context) (v : Visit) : List Diagnostic :=
  (after (tree cx v.node) v.state).diagnostics.drop v.state.diagnostics.length

theorem Yields.reported {st st' : ResolveState} {node n : Node} (h : Yields (tree cx node) st n st') :
    st'.diagnostics = st.diagnostics ++ Visit.reported cx ⟨st, node⟩ := by
  obtain ⟨new, heq, -⟩ := (tree_leads node h).diagnostics
  rw [Visit.reported, h.after, heq, List.drop_left]

theorem visits_reported {ns ns' : List Node} {st st' : ResolveState}
    (h : Yields (ns.mapM (tree cx)) st ns' st') :
    st'.diagnostics = st.diagnostics ++ (visits cx st ns).flatMap (Visit.reported cx) := by
  induction ns generalizing ns' st with
  | nil =>
    obtain ⟨-, rfl⟩ := yields_mapM_nil.1 h
    exact (List.append_nil _).symm
  | cons n rest ih =>
    obtain ⟨n', mid, rest', hn, hrest, -⟩ := yields_mapM_cons.1 h
    rw [ih hrest, hn.reported, visits, hn.after, List.flatMap_cons, List.append_assoc]

theorem conditionVisits_reported {candidate : Ty} {ps : List Pending} {links : List Link}
    {st st' : ResolveState} (hps : ∀ p ∈ ps, p.resolve = tree cx p.written)
    (h : Yields (ps.mapM (predicate candidate)) st links st') :
    st'.diagnostics =
      st.diagnostics ++ (conditionVisits candidate st ps).flatMap (Visit.reported cx) := by
  induction ps generalizing links st with
  | nil =>
    obtain ⟨-, rfl⟩ := yields_mapM_nil.1 h
    exact (List.append_nil _).symm
  | cons p rest ih =>
    obtain ⟨link, mid, links, hp, hrest, -⟩ := yields_mapM_cons.1 h
    rw [ih (fun q hq => hps q (List.mem_cons_of_mem _ hq)) hrest, conditionVisits, hp.after,
      List.flatMap_cons, ← List.append_assoc]
    obtain ⟨cond, inner, top, rest, hrun, -, rfl, -⟩ := yields_predicate.1 hp
    rw [hps p (List.mem_cons_self ..)] at hrun
    rw [show inner.diagnostics = _ from hrun.reported]
    rfl

/-- So many steps have links: the view and the state behind them and their conditions. -/
inductive Reaches (cx : Lookup) :
    View → ResolveState → List Hop → Nat → View → ResolveState → Prop
  | start (view : View) (st : ResolveState) (hops : List Hop) : Reaches cx view st hops 0 view st
  | step {view view' : View} {st mid st' : ResolveState} {h : Hop} {rest : List Hop} {link : Link}
    {conditions : List Link} {i : Nat} (linked : LinkOf cx view h.step st.scopes (some link))
    (run : Yields (h.predicates.mapM (predicate (candidateTy view link h rest))) st conditions mid)
    (others : Reaches cx (nextView view link h rest) mid rest i view' st') :
    Reaches cx view st (h :: rest) (i + 1) view' st'

/-- Either all steps have links, or the first that has none is reported, behind all conditions before it. -/
theorem links_reported {hops : List Hop} {view : View} {found : Option (List Link)}
    {st st' : ResolveState} (hhops : Hops cx hops)
    (h : Yields (links cx.lookup view hops) st found st') :
    let nested := (linkVisits cx.lookup view st hops).flatMap (Visit.reported cx)
    (found.isSome ∧ (∃ inView, Reaches cx.lookup view st hops hops.length inView st') ∧
        st'.diagnostics = st.diagnostics ++ nested) ∨
      (found = none ∧ ∃ i hop inView last, hops[i]? = some hop ∧
        Reaches cx.lookup view st hops i inView last ∧
        LinkOf cx.lookup inView hop.step last.scopes none ∧
        st'.diagnostics =
          st.diagnostics ++ nested ++ [.unresolvedStep hop.step.text inView.ty hop.step.span]) := by
  induction hops generalizing view found st with
  | nil =>
    obtain ⟨rfl, rfl⟩ := yields_links_nil.1 h
    exact .inl ⟨rfl, ⟨view, .start ..⟩, (List.append_nil _).symm⟩
  | cons hop rest ih =>
    have first := hhops hop (List.mem_cons_self ..)
    have others : Hops cx rest := fun h hh => hhops h (List.mem_cons_of_mem _ hh)
    rcases yields_links_cons.1 h with ⟨hl, rfl, rfl⟩ | ⟨link, cs, mid, found, hl, hc, ho, rfl⟩
    · refine .inr ⟨rfl, 0, hop, view, st, rfl, .start .., hl, ?_⟩
      simp only [linkVisits, link?_run hl, List.flatMap_nil, List.append_nil]
    · have nested : st.diagnostics ++
            (linkVisits cx.lookup view st (hop :: rest)).flatMap (Visit.reported cx) =
          mid.diagnostics ++ (linkVisits cx.lookup (nextView view link hop rest) mid rest).flatMap
            (Visit.reported cx) := by
        simp only [linkVisits, link?_run hl, hc.after, List.flatMap_append]
        rw [conditionVisits_reported first hc, List.append_assoc]
      intro _
      rw [nested]
      rcases ih others ho with ⟨some, ⟨inView, reaches⟩, heq⟩ |
          ⟨rfl, i, last, inView, before, at_, reaches, missing, heq⟩
      · exact .inl ⟨by rw [Option.isSome_map]; exact some, ⟨inView, .step hl hc reaches⟩, heq⟩
      · exact .inr ⟨rfl, i + 1, last, inView, before, at_, .step hl hc reaches, missing, heq⟩

/-- The text of the arguments of a step. -/
def argumentText (s : Step Node) : String := " ".intercalate (s.test.children.map (·.render))

/-- A step as it is looked up: with its arguments resolved, behind those of the steps before it. -/
structure Asked (cx : Context) (st : ResolveState) (before : List (Step Node)) (s asked : Step Node) :
    Prop where
  step : asked = { s with test := asked.test }
  run : ∃ ns mid last, Yields ((before.flatMap (·.test.children)).mapM (tree cx)) st ns mid ∧
    Yields (s.test.mapM (tree cx)) mid asked.test last

/-- A step is looked up under the text that it has if its arguments have theirs. -/
theorem Asked.text_iff {st : ResolveState} {before : List (Step Node)} {s asked : Step Node}
    (h : Asked cx st before s asked) : asked.text = s.text ↔ argumentText asked = argumentText s := by
  obtain ⟨step, ns, mid, last, -, run⟩ := h
  obtain ⟨z, hz, hz', -⟩ := runs.runs_testMapM run
  have tests : asked.text = s.text ↔
      asked.test.render (·.render) = s.test.render (·.render) := by
    rw [step]
    simp only [Step.text, Step.render, String.append_left_inj, String.append_right_inj]
  rw [tests, argumentText, argumentText, ← hz, ← hz']
  cases z with
  | call x args =>
    simp only [Test.map, Test.render, Test.children, String.append_left_inj, String.append_right_inj]
  | name | wildcard | self | reduction => simp only [Test.map, Test.render, Test.children]

theorem hops_asked {steps : List (Step Node)} {hops : List Hop} {st st' : ResolveState}
    (h : Yields ((steps.map (·.map (pending cx))).mapM hop) st hops st') {i : Nat} {made : Hop}
    (listed : hops[i]? = some made) :
    ∃ s, steps[i]? = some s ∧ Asked cx st (steps.take i) s made.step := by
  induction steps generalizing hops st i with
  | nil =>
    obtain ⟨rfl, -⟩ := yields_mapM_nil.1 h
    cases listed
  | cons s rest ih =>
    obtain ⟨test, next, hops, htest, hargs, hrest, rfl⟩ := yields_hops_cons h
    cases i with
    | zero =>
      cases listed
      exact ⟨s, rfl, rfl, [], st, next, yields_mapM_nil.2 ⟨rfl, rfl⟩, htest⟩
    | succ i =>
      obtain ⟨s', hs', step, ns, mid, last, before, run⟩ := ih hrest listed
      refine ⟨s', hs', step, test.children ++ ns, mid, last, ?_, run⟩
      rw [List.take_succ_cons, List.flatMap_cons]
      exact yields_mapM_append.2 ⟨_, next, ns, hargs, before, rfl⟩

/-- How the resolution of a stream ends, and what it reports itself. -/
inductive StreamEnd (cx : Context) (st : ResolveState) (span : Span) (ty : Option Ty)
    (steps : List (Step Node)) : Node → List Diagnostic → Prop
  /-- All steps have links, and nothing is reported. -/
  | linked {hops : List Hop} {mid last : ResolveState} {view : View} {n : Node}
    (hopped : Yields ((steps.map (·.map (pending cx))).mapM hop) st hops mid)
    (reaches : Reaches cx.lookup {} mid hops steps.length view last) :
    StreamEnd cx st span ty steps n []
  /-- A step has no link, and all before it have: the stream stays, and this step is reported. -/
  | missed {hops : List Hop} {mid last : ResolveState} {view : View} {i : Nat} {s : Step Node} {made : Hop}
    (hopped : Yields ((steps.map (·.map (pending cx))).mapM hop) st hops mid)
    (reaches : Reaches cx.lookup {} mid hops i view last) (written : steps[i]? = some s)
    (listed : hops[i]? = some made) (asked : Asked cx st (steps.take i) s made.step)
    (missing : LinkOf cx.lookup view made.step last.scopes none)
    (text : made.step.text = s.text ↔ argumentText made.step = argumentText s) :
    StreamEnd cx st span ty steps ⟨span, ty, .stream steps⟩
      [.unresolvedStep made.step.text view.ty s.span]

/-- A stream reports what its parts report, in their order, and behind that nothing if all its steps have
links. Otherwise it stays as it was and reports one diagnostic, about the first step without a link, with
the region and, if the arguments are resolved to nodes of the same text, the text of that step. -/
theorem abandoned_stream {cx : Context} (span : Span) (ty : Option Ty) (steps : List (Step Node))
    (st : ResolveState) :
    let stream : Node := ⟨span, ty, .stream steps⟩
    (cx.navigators.AnswersTyped → (∀ m ∈ stream.nodes, m.kind ≠ .stream []) →
        ∃ n st', Yields (tree cx stream) st n st') ∧
      ∀ n st', Yields (tree cx stream) st n st' → ∃ own, StreamEnd cx st span ty steps n own ∧
        st'.diagnostics =
          st.diagnostics ++ (parts cx ⟨st, stream⟩).flatMap (Visit.reported cx) ++ own := by
  intro stream
  refine ⟨fun typed nonempty => tree_faultless typed stream nonempty st, fun n st' h => ?_⟩
  cases nodeRun h with
  | children listed => exact absurd (by simp [Kind.label]) listed
  | stream run =>
    obtain ⟨-, hops, mid, found, last, hh, hl, h⟩ := yields_stream.1 run
    obtain ⟨⟨ns, hns⟩, hps⟩ := hops_run hh
    have nested : st.diagnostics ++ (parts cx ⟨st, stream⟩).flatMap (Visit.reported cx) =
        mid.diagnostics ++
          (linkVisits cx.lookup {} mid hops).flatMap (Visit.reported cx) := by
      simp only [stream, parts, show ((steps.map (·.map (pending cx))).mapM hop).run st = _ from hh,
        hh.after, List.flatMap_append]
      rw [visits_reported hns, List.append_assoc]
    have stays : st'.diagnostics = last.diagnostics := by
      rcases h with ⟨-, rfl, -⟩ | ⟨_, _, _, -, -, rfl, -⟩ <;> rfl
    rw [nested, stays]
    rcases links_reported hps hl with ⟨some, ⟨view, reaches⟩, heq⟩ |
        ⟨rfl, i, made, view, before, listed, reaches, missing, heq⟩
    · have length := length_hops hh
      rw [List.length_map] at length
      rw [length] at reaches
      exact ⟨[], .linked hh reaches, by rw [heq, List.append_nil]⟩
    · obtain ⟨s, written, asked⟩ := hops_asked hh listed
      have span_eq : made.step.span = s.span := by rw [asked.step]
      rcases h with ⟨-, -, rfl⟩ | ⟨_, _, _, missed, -⟩
      · rw [pending_written]
        refine ⟨_, .missed hh reaches written listed asked missing asked.text_iff, ?_⟩
        rw [heq, span_eq]
      · cases missed

/-- A call that no scope answers, over an argument. -/
def missingOf (arg : Node) : List (Step Node) := [{ axis := .child, test := .call "missing" [arg] }]

/-- Of two calls without an answer, one the argument of the other, the inner one is reported first, and
both under the texts that they have. -/
theorem abandoned_stream_nested :
    let inner : Node := .ofKind (.stream (missingOf oneOf))
    let outer : Node := .ofKind (.stream (missingOf inner))
    bareContext.navigators.AnswersTyped ∧ (∀ m ∈ outer.nodes, m.kind ≠ .stream []) ∧
      (∃ n st', Yields (tree bareContext outer) {} n st') ∧
      ∃ st' own, Yields (tree bareContext outer) {} outer st' ∧
        StreamEnd bareContext {} .synthetic none (missingOf inner) outer own ∧
        own = [.unresolvedStep "child::missing((stream child::missing(1)))" none .synthetic] ∧
        st'.diagnostics = .unresolvedStep "child::missing(1)" none .synthetic :: own := by
  intro inner outer
  have typed : bareContext.navigators.AnswersTyped := (Registry.provided_standard _).answersTyped
  have nonempty : ∀ m ∈ outer.nodes, m.kind ≠ .stream [] := by
    intro m hm
    simp only [outer, inner, missingOf, oneOf, Node.ofKind, Node.ofLiteral, Node.nodes_mk, Kind.children,
      Step.children, Test.children, List.flatMap_cons, List.flatMap_nil, List.append_nil, List.mem_cons,
      List.not_mem_nil, or_false] at hm
    rcases hm with rfl | rfl | rfl <;> simp
  obtain ⟨total, ends⟩ := @abandoned_stream bareContext .synthetic none (missingOf inner) {}
  have run : Yields (tree bareContext outer) {} outer _ := rfl
  obtain ⟨own, last, heq⟩ := ends _ _ run
  have nested : (parts bareContext ⟨{}, outer⟩).flatMap (Visit.reported bareContext) =
      [.unresolvedStep "child::missing(1)" none .synthetic] := rfl
  rw [show (⟨.synthetic, none, .stream (missingOf inner)⟩ : Node) = outer from rfl, nested] at heq
  refine ⟨typed, nonempty, total typed nonempty, _, own, run, last, ?_, heq⟩
  exact (List.cons.inj heq).2.symm

/-- A name that a scope answers is no longer the name in the text that is reported. -/
theorem abandoned_stream_argument :
    let steps := missingOf (.ofKind (.name "x"))
    let stream : Node := .ofKind (.stream steps)
    ∃ st', Yields (tree bareContext stream) { scopes := [.method [("x", .prim .int)]] } stream st' ∧
      st'.diagnostics = [.unresolvedStep "child::missing(x)" none .synthetic] ∧
      steps.map (·.text) = ["child::missing((name x))"] :=
  ⟨_, rfl, rfl, rfl⟩

end Resolve

end NavScript
