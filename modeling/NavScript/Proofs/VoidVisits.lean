import NavScript.Proofs.Hereditary
import NavScript.Proofs.Kept
import NavScript.Proofs.Reached
import NavScript.Proofs.VoidLinks

/-!
# Void values in resolved trees

What a visit makes is made of what the visits make that it carries on (`visits_end`, `links_end`), and
an answer of the scopes converts nothing by itself. So a resolved script converts void exactly where
lowering boxes it, in the streams that are kept (`resolved_voided`).
-/

namespace NavScript

section

variable {typing : Node → Option Ty} {c : Conversion} {n : Node}

theorem Node.IsLeaf.label (h : n.IsLeaf) :
    n.label ∉ ["Stream", "Convert", "Binary", "Conditional", "MethodCall"] := by
  obtain ⟨span, ty, kind⟩ := n
  obtain ⟨glues, leaf⟩ := h
  cases kind <;> simp [Node.label, Kind.label, Kind.glues, Kind.children] at glues leaf ⊢

theorem Node.IsLeaf.not_mem_voided (h : n.IsLeaf) : c ∉ n.voided typing := by
  have label := h.label
  obtain ⟨span, ty, kind⟩ := n
  simp only [Node.label, List.mem_cons, not_or] at label
  exact not_mem_voided_leaf (by simp [label]) h.2 _ _

/-- The node makes no type of its own, and converts void in the given arguments only, as a call. -/
structure HandsOn (typing : Node → Option Ty) (args : List Node) (n : Node) : Prop where
  label : n.label ∉ ["Binary", "Conditional"]
  voided : ∀ c, c ∈ n.voided typing ↔ n.label = "MethodCall" ∧ ∃ a ∈ args, c ∈ a.voided typing

theorem Node.IsLeaf.handsOn (h : n.IsLeaf) (args : List Node) : HandsOn typing args n := by
  have label := h.label
  simp only [List.mem_cons, List.not_mem_nil, or_false, not_or] at label
  exact ⟨by simp [label], fun c => iff_of_false h.not_mem_voided fun ⟨call, _⟩ => label.2.2.2.2 call⟩

theorem Request.methodCall_handsOn (r : Request) (leaf : r.receiver.IsLeaf) (owner : Ty) (name : String)
    (ty : Ty) : HandsOn typing r.args (r.methodCall owner name ty) where
  label := by simp [Node.label, Request.methodCall, Kind.label]
  voided c := by
    rw [Request.methodCall, mem_voided_first (by simp [Kind.label]) rfl, or_iff_right leaf.not_mem_voided]
    exact (and_iff_right rfl).symm

theorem Answer.handsOn {r : Request} (h : Answer r n) (leaf : r.receiver.IsLeaf) :
    HandsOn typing r.args n := by
  cases h with
  | receiver => exact Node.IsLeaf.handsOn (n := r.receiver.withTy r.receiverTy) leaf _
  | property =>
    refine ⟨by simp [Node.label, Request.propertyRead, Kind.label], fun c => ?_⟩
    rw [Request.propertyRead, mem_voided_unary (by simp [Kind.label]) rfl]
    exact iff_of_false leaf.not_mem_voided (by simp [Node.label, Kind.label])
  | method => exact r.methodCall_handsOn leaf _ _ _

theorem ScopeAnswer.handsOn {classes : ClassTable} {step : Step Node} {scope : Scope}
    (h : ScopeAnswer classes step scope n)
    (subject : ∀ ty m, scope = .bound ty (.subject m) → m.IsLeaf) :
    HandsOn typing step.test.children n := by
  cases h with
  | imported | declared => exact Node.IsLeaf.handsOn ⟨rfl, rfl⟩ _
  | @own ty _ _ _ _ =>
    exact Request.methodCall_handsOn ⟨step, (Node.thisOf ty).withSpan step.span, ty, classes⟩ ⟨rfl, rfl⟩
      _ _ _
  | member answer | stacked answer => exact answer.handsOn ⟨rfl, rfl⟩
  | subject answer => exact answer.handsOn (subject _ _ rfl)

/-- Over leaves, an answer converts void in the arguments that it has. -/
theorem Scopes.answer_voided {cx : Lookup} (hp : cx.navigators.Provided)
    (slots : cx.navigators.CallSlots fun r n => r.Called n ∨ n.isRead = true) {scopes : Scopes}
    (leaves : ∀ scope ∈ scopes, ∀ ty m, scope = .bound ty (.subject m) → m.IsLeaf) {step : Step Node}
    {place : Place} (h : scopes.resolve cx step place = some n) :
    n.label ∉ ["Binary", "Conditional"] ∧ (c ∈ n.voided typing ↔
      n.isRead = false ∧ ∃ a ∈ step.test.children, c ∈ a.voided typing) := by
  obtain ⟨scope, hs, answered⟩ := Scopes.resolve_answer hp h
  obtain ⟨label, voided⟩ : HandsOn typing step.test.children n := answered.handsOn (leaves scope hs)
  refine ⟨label, (voided c).trans ⟨fun ⟨call, args⟩ => ⟨by simp [Node.isRead, call], args⟩, ?_⟩⟩
  rintro ⟨other, a, ha, hc⟩
  refine ⟨?_, a, ha, hc⟩
  have call : ∃ x args, step.test = .call x args := by
    by_contra none
    rw [Test.children_of_ne_call fun x args test => none ⟨x, args, test⟩] at ha
    cases ha
  obtain ⟨x, args, test⟩ := call
  obtain ⟨r, -, ⟨owner, name, ty, rfl⟩ | read⟩ := Scopes.resolve_call (fun _ _ => .inl) slots test h
  · rfl
  · rw [other] at read
    cases read

end

theorem Scopes.Over.subject {P : Node → Prop} {scopes : Scopes} (h : scopes.Over P) :
    ∀ scope ∈ scopes, ∀ ty m, scope = .bound ty (.subject m) → P m := by
  intro scope hs ty m heq
  obtain ⟨_, horigin, hm⟩ := h scope hs ty _ heq
  cases horigin
  exact hm

/-- The subjects of sound scopes are leaves. -/
theorem ResolveState.Sound.leaves {st : ResolveState} (h : st.Sound) : st.scopes.Over Node.IsLeaf := by
  intro scope mem t origin heq
  subst heq
  rcases h.bound mem with rfl | ⟨k, rfl⟩
  · exact ⟨_, rfl, rfl, rfl⟩
  · exact ⟨_, rfl, rfl, rfl⟩

namespace Resolve

/-- The visit makes a node with the property. -/
def EndsIn (cx : Context) (q : Node → Prop) (v : Visit) : Prop :=
  ∃ n st', Yields (tree cx v.node) v.state n st' ∧ q n

section

variable {cx : Context} {q : Node → Prop} {st st' : ResolveState}

theorem endsIn_iff {v : Visit} {n : Node} (h : Yields (tree cx v.node) v.state n st') :
    EndsIn cx q v ↔ q n := by
  refine ⟨fun ⟨m, last, run, hm⟩ => ?_, fun hn => ⟨n, st', h, hn⟩⟩
  rwa [← (run.unique h).1] at hm

theorem visits_end {ns ns' : List Node} (h : Yields (ns.mapM (tree cx)) st ns' st') :
    (∃ m ∈ ns', q m) ↔ ∃ w ∈ visits cx st ns, EndsIn cx q w := by
  induction ns generalizing ns' st with
  | nil =>
    obtain ⟨rfl, -⟩ := yields_mapM_nil.1 h
    simp [visits]
  | cons n rest ih =>
    obtain ⟨n', mid, rest', hn, hrest, rfl⟩ := yields_mapM_cons.1 h
    rw [visits, hn.after, List.exists_mem_cons_iff, List.exists_mem_cons_iff, ih hrest,
      endsIn_iff (v := ⟨st, n⟩) hn]

/-- The arguments of each step are made by its visits. -/
theorem argumentVisits_end {steps : List (Step Node)} {hops : List Hop}
    (h : Yields ((steps.map (·.map (pending cx))).mapM hop) st hops st') :
    ∀ pair ∈ (argumentVisits cx st steps).zip hops,
      (∃ a ∈ pair.2.step.test.children, q a) ↔ ∃ w ∈ pair.1, EndsIn cx q w := by
  induction steps generalizing hops st with
  | nil => exact fun pair hp => absurd hp List.not_mem_nil
  | cons s rest ih =>
    obtain ⟨test, mid, hops, -, hargs, hrest, rfl⟩ := yields_hops_cons h
    rw [argumentVisits, hargs.after, List.zip_cons_cons]
    intro pair hp
    rcases List.mem_cons.1 hp with rfl | hp
    · exact visits_end hargs
    · exact ih hrest pair hp

variable {Q : Link → Prop} (condition : ∀ x m t, Q (.predicate x m t) ↔ q m)
include condition

theorem conditionVisits_end {candidate : Ty} {ps : List Pending} {links : List Link}
    (hps : ∀ p ∈ ps, p.resolve = tree cx p.written)
    (h : Yields (ps.mapM (predicate candidate)) st links st') :
    (∃ l ∈ links, Q l) ↔ ∃ w ∈ conditionVisits candidate st ps, EndsIn cx q w := by
  induction ps generalizing links st with
  | nil =>
    obtain ⟨rfl, -⟩ := yields_mapM_nil.1 h
    simp [conditionVisits]
  | cons p rest ih =>
    obtain ⟨link, mid, links, hp, hrest, rfl⟩ := yields_mapM_cons.1 h
    have others := ih (fun q hq => hps q (List.mem_cons_of_mem _ hq)) hrest
    rw [conditionVisits, hp.after, List.exists_mem_cons_iff, List.exists_mem_cons_iff, others]
    obtain ⟨cond, inner, _, _, hrun, -, rfl, rfl⟩ := yields_predicate.1 hp
    rw [hps p (List.mem_cons_self ..)] at hrun
    rw [condition, endsIn_iff (v := ⟨candidateState candidate st, p.written⟩) hrun]

/-- Links are made of the arguments that they have and of the conditions. -/
theorem links_end {pairs : List (List Visit × Hop)} {view : View} {list : List Link}
    (answered : ∀ pair ∈ pairs, ∀ {view : View} {scopes : Scopes} {link : Link},
      scopes.Over Node.IsLeaf → LinkOf cx.lookup view pair.2.step scopes (some link) →
        (Q link ↔ readsOnly link = false ∧ ∃ a ∈ pair.2.step.test.children, q a))
    (hops : Hops cx (pairs.map Prod.snd)) (leaves : st.scopes.Over Node.IsLeaf)
    (args : ∀ pair ∈ pairs, (∃ a ∈ pair.2.step.test.children, q a) ↔ ∃ w ∈ pair.1, EndsIn cx q w)
    (h : Yields (links cx.lookup view (pairs.map Prod.snd)) st (some list) st') :
    (∃ l ∈ list, Q l) ↔ ∃ w ∈ linkArguments cx.lookup view st pairs ++
      linkVisits cx.lookup view st (pairs.map Prod.snd), EndsIn cx q w := by
  induction pairs generalizing view list st with
  | nil =>
    obtain ⟨heq, -⟩ := yields_links_nil.1 h
    cases heq
    simp [linkArguments, linkVisits]
  | cons pair rest ih =>
    obtain ⟨visits, hop⟩ := pair
    obtain ⟨link, cs, mid, list, hl, hc, ho, rfl⟩ := yields_links_some h
    have conditions := hops hop (List.mem_cons_self ..)
    have leading := hops.conditions hop (List.mem_cons_self ..)
    have later := (Leading.mapM (fun p hp => (leading p hp).predicate) hc).scopes.over leaves
    have others := ih (fun pair hp => answered pair (List.mem_cons_of_mem _ hp))
      (fun h hh => hops h (List.mem_cons_of_mem _ hh)) later
      (fun pair hp => args pair (List.mem_cons_of_mem _ hp)) ho
    have here : Q link ↔ ∃ w ∈ (if readsOnly link then [] else visits), EndsIn cx q w := by
      rw [answered _ (List.mem_cons_self ..) leaves hl, args _ (List.mem_cons_self ..)]
      cases readsOnly link <;> simp
    have middle := conditionVisits_end condition conditions hc
    simp only [List.map_cons, linkArguments, linkVisits, link?_run hl, hc.after]
    simp only [List.exists_mem_cons_iff, List.mem_append, or_and_right, exists_or] at others ⊢
    rw [here, middle, others]
    exact or_assoc.symm.trans or_or_or_comm

end

/-- The visit is of a stream of which lowering boxes a void link. -/
def BoxesVoid (cx : Context) (v : Visit) : Prop :=
  ∃ steps head t rest n st', v.node.kind = .stream steps ∧
    Navigates cx v.node.span (steps.map (·.map (pending cx))) v.state (.step head t :: rest) n st' ∧
    boxesVoid (!head.isThis) (.behind t rest) rest = true

section

variable {typing : Node → Option Ty} {c : Conversion} {cx : Context} {st st' : ResolveState}
  (keeps : KeepsTypes typing) (hp : cx.navigators.Provided)
  (slots : cx.navigators.CallSlots fun r n => r.Called n ∨ n.isRead = true)

section

include hp slots

/-- A link converts void in the arguments that it has. -/
theorem link_voided {view : View} {step : Step Node} {scopes : Scopes} {link : Link}
    (leaves : scopes.Over Node.IsLeaf) (h : LinkOf cx.lookup view step scopes (some link)) :
    c ∈ link.voided typing ↔
      readsOnly link = false ∧ ∃ a ∈ step.test.children, c ∈ a.voided typing := by
  generalize hsome : some link = l at h
  cases h with
  | @reduction r test =>
    obtain ⟨ty, rfl⟩ := reductionLink?_reduce hsome.symm
    rw [test]
    simp [Link.voided, Test.children]
  | missing => cases hsome
  | step _ answer =>
    cases hsome
    unfold viewed at answer
    split at answer
    · exact (Scopes.answer_voided hp slots leaves.subject answer).2
    · refine (Scopes.answer_voided hp slots (fun scope hs ty m heq => ?_) answer).2
      rcases List.mem_cons.1 hs with rfl | hs
      · cases heq
      · exact leaves.subject scope hs ty m heq

/-- A bare name or call converts void in its arguments, unless it is read as a property. -/
theorem bare_voided {span : Span} {ty : Option Ty} {kind : Kind Node} {test : Test Node} {n : Node}
    (subjects : ∀ scope ∈ st.scopes, ∀ t m, scope = .bound t (.subject m) → m.IsLeaf)
    (unanswered : c ∈ Node.voided typing ⟨span, ty, kind⟩ ↔ ∃ a ∈ test.children, c ∈ a.voided typing)
    (h : Yields (bare cx.lookup ⟨span, ty, kind⟩ test) st n st') : c ∈ n.voided typing ↔
      (st.scopes.resolve cx.lookup { span, axis := .child, test } .head).any Node.isRead = false ∧
        ∃ a ∈ test.children, c ∈ a.voided typing := by
  obtain ⟨-, ⟨none, rfl⟩ | ⟨found, answer, rfl⟩⟩ := yields_bare h
  · rw [show Scopes.resolve _ _ _ _ = _ from none, unanswered]
    exact (and_iff_right rfl).symm
  · rw [show Scopes.resolve _ _ _ _ = _ from answer, mem_voided_withSpan]
    exact (Scopes.answer_voided hp slots subjects answer).2

end

/-- Of all nodes but streams and bare calls the parts make the children. -/
theorem children_end {q : Node → Prop} {v : Visit} {n : Node}
    (h : Yields (tree cx v.node) v.state n st') (other : v.node.label ∉ ["Stream", "Name", "Call"]) :
    n.label = v.node.label ∧
      ((∃ m ∈ n.kind.children, q m) ↔ ∃ w ∈ parts cx v, EndsIn cx q w) := by
  obtain ⟨st, span, ty, kind⟩ := v
  cases nodeRun h with
  | stream | name | call => exact absurd (by simp [Node.label, Kind.label]) other
  | methodDecl run =>
    obtain ⟨mid, top, rest, hrun, -, -⟩ := yields_inScope.1 run
    exact ⟨rfl, visits_end hrun⟩
  | @localDecl x written value value' mid run =>
    refine ⟨rfl, ?_⟩
    simp only [parts, Kind.children, visits, List.exists_mem_cons_iff, List.not_mem_nil, false_and,
      exists_false, or_false]
    exact (endsIn_iff (v := ⟨st, value⟩) run).symm
  | script run =>
    rw [parts_of_children (by simp [Kind.label])]
    exact ⟨rfl, visits_end run⟩
  | children listed run =>
    obtain ⟨run, same⟩ := runs.runs_children run
    simp only [List.mem_cons, List.not_mem_nil, or_false, not_or] at listed
    rw [parts_of_children (by simp [listed])]
    exact ⟨same, visits_end run⟩

include keeps hp slots

/-- Unless a step is reported, a stream converts void in what it carries on, and where lowering boxes
it. -/
theorem stream_voided {span : Span} {ty : Option Ty} {steps : List (Step Node)} {n : Node}
    (leaves : st.scopes.Over Node.IsLeaf)
    (h : Yields (tree cx ⟨span, ty, .stream steps⟩) st n st')
    (silent : ∀ d ∈ st'.diagnostics, ¬ d.IsStep) : c ∈ n.voided typing ↔
      c = .box ∧ BoxesVoid cx ⟨st, span, ty, .stream steps⟩ ∨
        ∃ w ∈ carried cx ⟨st, span, ty, .stream steps⟩, EndsIn cx (c ∈ ·.voided typing) w := by
  rw [tree_mk] at h
  obtain ⟨nonempty, hops, mid, found, last, hh, hl, h⟩ := yields_stream.1 h
  rcases h with ⟨rfl, rfl, -⟩ | ⟨list, made, next, rfl, hmade, rfl, rfl⟩
  · obtain ⟨d, hd, step⟩ := links_missed hl
    exact absurd step (silent d hd)
  · obtain ⟨-, hps⟩ := hops_run hh
    obtain ⟨same, -, -⟩ := argumentVisits_ran hh
    have grown := (hops_lead hh).scopes.over leaves
    have leading := Hops.conditions hps
    obtain ⟨hop, -, head, t, rest, rfl, answer, typed, fit, -⟩ :=
      leading_links hp nonempty hh leading grown hl
    have navigates : Navigates cx span (steps.map (·.map (pending cx))) st (.step head t :: rest)
        (made.withSpan span) { last with nextFresh := next } := .lowered hh hl hmade
    have boxes : BoxesVoid cx ⟨st, span, ty, .stream steps⟩ ↔
        boxesVoid (!head.isThis) (.behind t rest) rest = true := by
      constructor
      · rintro ⟨_, head', t', rest', n', last', heq, navigates', boxes⟩
        cases heq
        cases navigates.unique navigates'
        exact boxes
      · exact fun boxes => ⟨steps, head, t, rest, _, _, rfl, navigates, boxes⟩
    -- the links are made of what is carried on
    have parts : (∃ l ∈ .step head t :: rest, c ∈ Link.voided typing l) ↔
        ∃ w ∈ carried cx ⟨st, span, ty, .stream steps⟩, EndsIn cx (c ∈ ·.voided typing) w := by
      simp only [carried, show ((steps.map (·.map (pending cx))).mapM Resolve.hop).run st = _ from hh,
        hh.after]
      rw [← same] at hl hps
      have made := links_end (Q := (c ∈ ·.voided typing)) (fun _ _ _ => Iff.rfl)
        (fun _ _ => link_voided hp slots) hps grown (argumentVisits_end hh) hl
      rwa [same] at made
    obtain ⟨label, -⟩ : head.label ∉ ["Binary", "Conditional"] ∧ (c ∈ head.voided typing ↔ _) :=
      Scopes.answer_voided hp slots grown.subject answer
    have firm : head.Firm typing t := keeps.firm typed label
    rw [mem_voided_withSpan, Lower.lowered_voided keeps firm fit hmade, boxes, ← parts,
      List.exists_mem_cons_iff, linksVoided, ← or_assoc, or_comm]
    rfl

/-- Unless a step is reported, what a visit makes converts void in what it carries on, and where
lowering boxes it. -/
theorem carried_end {v : Visit} {n : Node} (leaves : v.state.scopes.Over Node.IsLeaf)
    (h : Yields (tree cx v.node) v.state n st') (silent : ∀ d ∈ st'.diagnostics, ¬ d.IsStep)
    (plain : v.node.label ≠ "Convert") : c ∈ n.voided typing ↔
      c = .box ∧ BoxesVoid cx v ∨ ∃ w ∈ carried cx v, EndsIn cx (c ∈ ·.voided typing) w := by
  by_cases other : v.node.label ∉ ["Stream", "Name", "Call"]
  · obtain ⟨label, made⟩ := children_end (q := (c ∈ ·.voided typing)) h other
    have lowers : ¬ BoxesVoid cx v := by
      rintro ⟨_, _, _, _, _, _, kind, -⟩
      exact other (by simp [Node.label, kind, Kind.label])
    obtain ⟨st, span, ty, kind⟩ := v
    simp only [Node.label, List.mem_cons, List.not_mem_nil, or_false, not_or] at other plain label
    rw [carried_of_other (by simp [other]), ← made]
    obtain ⟨span', ty', kind'⟩ := n
    rw [mem_voided_mk (by simp only at label; simp [label, other, plain])]
    simp [lowers]
  obtain ⟨st, span, ty, kind⟩ := v
  have bareless : kind.label ≠ "Stream" → ¬ BoxesVoid cx ⟨st, span, ty, kind⟩ := by
    rintro label ⟨_, _, _, _, _, _, rfl, -⟩
    exact label rfl
  cases nodeRun h with
  | stream => exact stream_voided keeps hp slots leaves h silent
  | @name x n run =>
    have unanswered : c ∈ Node.voided typing ⟨span, ty, .name x⟩ ↔
        ∃ a ∈ (Test.name x : Test Node).children, c ∈ a.voided typing :=
      mem_voided_mk (by simp [Kind.label]) _ _
    rw [bare_voided hp slots leaves.subject unanswered run]
    simp [bareless (by simp [Kind.label]), Test.children, carried, parts, Kind.children, visits]
  | @call x args args' mid n hargs run =>
    have unanswered : c ∈ Node.voided typing ⟨span, ty, .call x args'⟩ ↔
        ∃ a ∈ (Test.call x args').children, c ∈ a.voided typing :=
      mem_voided_mk (by simp [Kind.label]) _ _
    have later := (Leading.mapM (fun c _ => tree_leads c) hargs).scopes.over leaves
    have answer : bareAnswer? cx ⟨st, span, ty, .call x args⟩ =
        mid.scopes.resolve cx.lookup { span, axis := .child, test := .call x args' } .head :=
      bareAnswer?_call hargs
    have arguments : (∃ a ∈ args', c ∈ a.voided typing) ↔
        ∃ w ∈ visits cx st args, EndsIn cx (c ∈ ·.voided typing) w := visits_end hargs
    rw [bare_voided hp slots later.subject unanswered run]
    simp only [carried, answer, bareless (by simp [Kind.label]), and_false, false_or, Test.children]
    rw [arguments]
    split
    · rename_i read
      simp [read]
    · rename_i other
      simp [other]
  | methodDecl | localDecl | script => exact absurd (by simp [Node.label, Kind.label]) other
  | children listed =>
    simp only [List.mem_cons, List.not_mem_nil, or_false, not_or] at listed
    exact absurd (by simp [Node.label, listed]) other

variable {root root' : Node} {last : ResolveState} (front : root.FrontEnd)
  (run : Yields (tree cx root) { scopes := initialScopes cx.env root } root' last)
  (silent : ∀ d ∈ last.diagnostics, ¬ d.IsStep)
include front run silent

theorem Kept.voided {v : Visit} (h : Kept cx root v) : EndsIn cx (c ∈ ·.voided typing) v ↔
    c = .box ∧ BoxesVoid cx v ∨ ∃ w ∈ carried cx v, EndsIn cx (c ∈ ·.voided typing) w := by
  have visited := h.visited run
  obtain ⟨n, mid, made, stays⟩ := visited.ran run
  obtain ⟨front, sound⟩ := visited.sound hp front run
  have plain : v.node.label ≠ "Convert" := by
    intro label
    have listed := front.kinds _ (Node.mem_nodes_self _)
    simp [label] at listed
  rw [endsIn_iff made]
  exact carried_end keeps hp slots sound.leaves made (fun d hd => silent d (stays hd)) plain

/-- Unless a step is reported, a resolved script converts void by boxing it alone, which lowering does in
a stream that is kept. -/
theorem resolved_voided :
    c ∈ root'.voided typing ↔ c = .box ∧ ∃ v, Kept cx root v ∧ BoxesVoid cx v := by
  have whole : EndsIn cx (c ∈ ·.voided typing) ⟨{ scopes := initialScopes cx.env root }, root⟩ ↔
      c ∈ root'.voided typing := endsIn_iff run
  rw [← whole]
  constructor
  · -- downwards along what is carried, by induction on the tree that is visited
    have below (m : Node) : ∀ v, Kept cx root v → v.node = m → EndsIn cx (c ∈ ·.voided typing) v →
        c = .box ∧ ∃ v, Kept cx root v ∧ BoxesVoid cx v := by
      induction m using Node.induct with
      | h span ty kind ih =>
        intro v kept heq hv
        rcases (kept.voided keeps hp slots front run silent).1 hv with ⟨box, boxes⟩ | ⟨w, hw, ends⟩
        · exact ⟨box, v, kept, boxes⟩
        · obtain ⟨n, mid, made, stays⟩ := (kept.visited run).ran run
          have child : w.node ∈ v.node.kind.children :=
            (parts_nodes made fun d hd => silent d (stays hd)).mem_iff.1
              (List.mem_map_of_mem ((carried_parts made).1 hw))
          rw [heq] at child
          exact ih _ child w (kept.part hw) rfl ends
    exact below root _ .root rfl
  · rintro ⟨rfl, v, kept, boxes⟩
    -- upwards, by induction on how the visit is kept
    have above {v : Visit} (kept : Kept cx root v) (hv : EndsIn cx (.box ∈ ·.voided typing) v) :
        EndsIn cx (.box ∈ ·.voided typing) ⟨{ scopes := initialScopes cx.env root }, root⟩ := by
      induction kept with
      | root => exact hv
      | part above mem ih =>
        exact ih ((above.voided keeps hp slots front run silent).2 (.inr ⟨_, mem, hv⟩))
    exact above kept ((kept.voided keeps hp slots front run silent).2 (.inl ⟨rfl, boxes⟩))

end

end Resolve

end NavScript
