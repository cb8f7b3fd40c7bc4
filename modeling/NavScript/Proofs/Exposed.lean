import NavScript.Proofs.Hereditary
import NavScript.Proofs.Visits
import NavScript.Returns

/-!
# Where nodes can be reported

A bare name, a bare call and an operator are reported where they stand, and the result of a method where
the last node of its body stands, or what that node unboxes. A resolution makes many nodes that stand
nowhere, but none of them is in such a place: all it exposes are regions of nodes of its tree
(`tree_standing`). What it reports itself is about steps of the tree (`tree_reports`).
-/

namespace NavScript

open Lower

/-- The regions that a node is written in: its own, and those of its steps. -/
def Node.spans (n : Node) : List Span :=
  n.span ::
    match n.kind with
    | .stream steps => steps.map (·.span)
    | _ => []

/-- The region of a node, and that of the node without an unboxing at its top. -/
def Node.shown (n : Node) : List Span := [n.span, (Returns.beforeUnbox n).span]

/-- The regions that a node is reported at when nothing gives it a meaning. -/
def Node.unmeant (n : Node) : List Span :=
  match n.kind with
  | .name _ | .call _ _ | .binary _ _ _ => [n.span]
  | _ => []

/-- The regions that a method is reported at when its result is rejected. -/
def Node.judged (n : Node) : List Span :=
  match n.kind with
  | .methodDecl d => n.span :: d.body.getLast?.toList.flatMap Node.shown
  | _ => []

/-- All regions that a node can be reported at. -/
def Node.exposed (n : Node) : List Span := n.unmeant ++ n.judged

/-- All regions that are found at the nodes of a tree are in `S`. -/
def Node.Sited (own : Node → List Span) (S : Span → Prop) (n : Node) : Prop :=
  ∀ m ∈ n.nodes, ∀ s ∈ own m, S s

section

variable {own : Node → List Span} {S : Span → Prop}

theorem sited_mk {span : Span} {ty : Option Ty} {kind : Kind Node} :
    Node.Sited own S ⟨span, ty, kind⟩ ↔
      (∀ s ∈ own ⟨span, ty, kind⟩, S s) ∧ ∀ c ∈ kind.children, c.Sited own S :=
  Node.forall_nodes_mk

theorem Node.Sited.mono {own' : Node → List Span} {n : Node} (h : n.Sited own S)
    (sub : ∀ n, own' n ⊆ own n) : n.Sited own' S := fun m hm s hs => h m hm s (sub m hs)

/-- What no made node has passes through the nodes that are made. -/
theorem sited_hereditary (quiet : ∀ n : Node, n.kind.glues = true → own n = []) :
    Hereditary (Node.Sited own S) where
  iff := by
    intro kind glues span ty
    rw [sited_mk, quiet ⟨span, ty, kind⟩ glues]
    exact and_iff_right fun _ hs => absurd hs List.not_mem_nil

theorem unmeant_quiet {n : Node} (h : n.kind.glues = true) : n.unmeant = [] := by
  obtain ⟨span, ty, kind⟩ := n
  cases kind <;> first | rfl | cases h

theorem exposed_quiet {n : Node} (h : n.kind.glues = true) : n.exposed = [] := by
  obtain ⟨span, ty, kind⟩ := n
  cases kind <;> first | rfl | cases h

theorem exposed_hereditary : Hereditary (Node.Sited Node.exposed S) :=
  sited_hereditary fun _ => exposed_quiet

theorem unmeant_hereditary : Hereditary (Node.Sited Node.unmeant S) :=
  sited_hereditary fun _ => unmeant_quiet

/-- Nodes expose the same over children that show the same. -/
theorem exposed_map {f : Node → Node} (keeps : ∀ n, (f n).shown = n.shown) (span : Span)
    (ty : Option Ty) (kind : Kind Node) :
    Node.exposed ⟨span, ty, kind.map f⟩ = Node.exposed ⟨span, ty, kind⟩ := by
  cases kind
  case methodDecl d =>
    simp only [Node.exposed, Node.unmeant, Node.judged, Kind.map, List.getLast?_map]
    cases d.body.getLast? with
    | none => rfl
    | some last => simp [keeps]
  all_goals rfl

/-- Of a node that is put somewhere else only its new region is exposed anew. -/
theorem sited_withSpan {n : Node} (h : n.Sited Node.exposed S) {span : Span} (hs : S span) :
    (n.withSpan span).Sited Node.exposed S := by
  obtain ⟨_, ty, kind⟩ := n
  obtain ⟨own, children⟩ := sited_mk.1 h
  refine sited_mk.2 ⟨fun s hmem => ?_, children⟩
  cases kind
  case name | call | binary => exact List.mem_singleton.1 hmem ▸ hs
  case methodDecl d =>
    rcases List.mem_cons.1 hmem with rfl | hmem
    · exact hs
    · exact own s (List.mem_cons_of_mem _ hmem)
  all_goals exact absurd hmem List.not_mem_nil

/-- All that can be reported of a tree is in `S`, also where it is the last of a body. -/
structure Node.Standing (S : Span → Prop) (n : Node) : Prop where
  sited : n.Sited Node.exposed S
  shown : ∀ s ∈ n.shown, S s

/-- A node stands where it is written if its children do. -/
theorem Node.Standing.mk_of {span : Span} (hs : S span) (ty : Option Ty) {kind : Kind Node}
    (children : ∀ c ∈ kind.children, c.Standing S) : Node.Standing S ⟨span, ty, kind⟩ := by
  have shown : ∀ s ∈ Node.shown ⟨span, ty, kind⟩, S s := by
    intro s hmem
    rcases List.mem_cons.1 hmem with rfl | hmem
    · exact hs
    · rw [List.mem_singleton.1 hmem]
      unfold Returns.beforeUnbox
      split
      · rename_i expr heq
        cases heq
        exact (children expr (List.mem_singleton.2 rfl)).shown _ (List.mem_cons_self ..)
      · exact hs
  refine ⟨sited_mk.2 ⟨fun s hmem => ?_, fun c hc => (children c hc).sited⟩, shown⟩
  cases kind
  case name | call | binary => exact List.mem_singleton.1 hmem ▸ hs
  case methodDecl d =>
    rcases List.mem_cons.1 hmem with rfl | hmem
    · exact hs
    · obtain ⟨last, hlast, hmem⟩ := List.mem_flatMap.1 hmem
      exact (children last (List.mem_of_getLast? (Option.mem_toList.1 hlast))).shown s hmem
  all_goals exact absurd hmem List.not_mem_nil

theorem standing_of_written (n : Node) (h : n.Sited Node.spans S) : n.Standing S := by
  induction n using Node.induct with
  | h span ty kind ih =>
    obtain ⟨own, children⟩ := sited_mk.1 h
    exact .mk_of (own span (List.mem_cons_self ..)) ty fun c hc => ih c hc (children c hc)

/-- The node is no conversion, so that it shows its own region only. -/
def Node.Plain (n : Node) : Prop :=
  match n.kind with
  | .convert _ _ => False
  | _ => True

theorem Node.Plain.beforeUnbox {n : Node} (h : n.Plain) : Returns.beforeUnbox n = n := by
  obtain ⟨span, ty, kind⟩ := n
  cases kind
  case convert => exact h.elim
  all_goals rfl

/-- What is put in the place of a written node stands there, if it is no conversion. -/
theorem Node.Plain.standing {n : Node} (h : n.Plain) (sited : n.Sited Node.exposed S) {span : Span}
    (hs : S span) : (n.withSpan span).Standing S := by
  refine ⟨sited_withSpan sited hs, fun s hmem => ?_⟩
  have plain : (n.withSpan span).Plain := h
  unfold Node.shown at hmem
  rw [plain.beforeUnbox] at hmem
  simp only [List.mem_cons, List.not_mem_nil, or_false, or_self] at hmem
  exact hmem ▸ hs

theorem Node.IsLeaf.plain {n : Node} (h : n.IsLeaf) : n.Plain := by
  obtain ⟨span, ty, kind⟩ := n
  cases kind
  case convert => cases h.2
  all_goals trivial

theorem Answer.plain {r : Request} {n : Node} (h : Answer r n) (receiver : r.receiver.Plain) :
    n.Plain := by
  cases h with
  | receiver => exact receiver
  | property | method => trivial

theorem Placed.plain {value n n' : Node} (h : Placed value n n') (hn : n.Plain)
    (hvalue : value.Plain) : n'.Plain := by
  cases h with
  | stacked => exact hvalue
  | _ => exact hn

/-- Lowering makes no conversion of a chain of other nodes. -/
theorem plain_lowers {b : Bool} : Lowers b Node.Plain fun _ => True where
  place := Placed.plain
  guardLink _ _ hmade := by
    obtain ⟨_, _, -, -, rfl⟩ := guardLink_ok.1 hmade
    unfold handed
    split
    · split <;> trivial
    · trivial
  keepIf _ _ _ := trivial
  element _ _ := trivial
  sequence _ _ := trivial
  flatten _ _ _ := trivial
  pipe _ _ _ _ _ := trivial
  filter _ _ _ _ := trivial
  collect _ _ := trivial

end

/-- The diagnostic is about a region in `S`. -/
def Diagnostic.At (S : Span → Prop) (d : Diagnostic) : Prop := ∃ span, d.span? = some span ∧ S span

namespace Resolve

variable {cx : Context} {S : Span → Prop}

/-- All that has been reported is about regions in `S`. -/
def Aimed (S : Span → Prop) (st : ResolveState) : Prop := ∀ d ∈ st.diagnostics, d.At S

/-- No answer at the head is a conversion. -/
theorem head_plain (hp : cx.navigators.Provided) {scopes : Scopes} {step : Step Node} {n : Node}
    (leaves : scopes.Over Node.IsLeaf) (answer : scopes.resolve cx.lookup step .head = some n) :
    n.Plain := by
  obtain ⟨_, hmem, answered⟩ := Scopes.resolve_answer hp answer
  cases answered with
  | imported | declared | own => trivial
  | member answer | stacked answer => exact answer.plain trivial
  | subject answer =>
    obtain ⟨_, origin, leaf⟩ := leaves _ hmem _ _ rfl
    cases origin
    exact answer.plain leaf.plain

theorem link_plain {good : ResolveState → Prop} {hops : List Hop} {link : Link}
    (origin : LinkOrigin cx.lookup good hops link) : link.Parts Node.Plain fun _ => True := by
  cases origin with
  | step mem answer => exact ⟨answer.plain trivial, answer.first⟩
  | condition | reduction => exact trivial

section

variable (hp : cx.navigators.Provided)
include hp

theorem StreamRun.standing {span : Span} {ty : Option Ty} {steps : List (Step Node)} {n : Node}
    (h : StreamRun cx (Node.Sited Node.exposed S) span ty steps n) (hs : S span)
    (written : Node.Standing S ⟨span, ty, .stream steps⟩) : n.Standing S := by
  cases h with
  | left => exact written
  | lowered leaves parts mem answer origins run =>
    have head := head_gives exposed_hereditary hp leaves (parts _ mem).1 answer
    have links := fun link hlink => link_gives exposed_hereditary leaves parts (origins link hlink)
    -- a conversion in the place of the stream would show the region of its operand
    have plain := plain_lowers.lowered (head_plain hp leaves answer)
      (fun link hlink => link_plain (origins link hlink)) run
    exact plain.standing (exposed_hereditary.lowers.lowered head links run) hs

/-- A bare name or call stands where it stood, whatever becomes of it. -/
theorem bare_standing {span : Span} {ty : Option Ty} {kind : Kind Node} {test : Test Node}
    {st st' : ResolveState} {n : Node} (leaves : st.scopes.Over Node.IsLeaf) (hs : S span)
    (args : ∀ a ∈ test.children, a.Standing S) (unanswered : Node.Standing S ⟨span, ty, kind⟩)
    (h : Yields (bare cx.lookup ⟨span, ty, kind⟩ test) st n st') : n.Standing S := by
  obtain ⟨-, ⟨-, rfl⟩ | ⟨found, answer, rfl⟩⟩ := yields_bare h
  · exact unanswered
  · have sited := head_gives exposed_hereditary hp leaves (fun a ha => (args a ha).sited) answer
    exact (head_plain hp leaves answer).standing sited hs

/-- What becomes of a tree stands where the tree is written. -/
theorem tree_standing (n : Node) (h : n.Sited Node.spans S) : Gives (Node.Standing S) (tree cx n) := by
  induction n using Node.induct with
  | h span ty kind ih =>
    have written := standing_of_written _ h
    obtain ⟨own, children⟩ := sited_mk.1 h
    have hs : S span := own span (List.mem_cons_self ..)
    have children : ∀ c ∈ kind.children, Gives (Node.Standing S) (tree cx c) :=
      fun c hc => ih c hc (children c hc)
    intro st n st' leaves hrun
    cases nodeRun hrun with
    | @stream steps n run =>
      have parts : ∀ c ∈ (Kind.stream steps).children, Gives (Node.Sited Node.exposed S) (tree cx c) :=
        fun c hc _ _ _ leaves run => (children c hc leaves run).sited
      exact (streamRun hp parts leaves run).standing hp hs written
    | name run => exact bare_standing hp leaves hs (fun _ ha => absurd ha List.not_mem_nil) written run
    | @call x args args' mid n hargs run =>
      have later := (Leading.mapM (fun c _ => tree_leads c) hargs).scopes.over leaves
      have given : ∀ a ∈ (Test.call x args').children, a.Standing S := mapM_gives children leaves hargs
      have unanswered : Node.Standing S ⟨span, ty, .call x args'⟩ := .mk_of hs ty given
      exact bare_standing hp later hs given unanswered run
    | methodDecl run =>
      obtain ⟨mid, _, _, hbody, -, -⟩ := yields_inScope.1 run
      exact .mk_of hs _ (mapM_gives children (leaves.cons (by nofun)) hbody)
    | localDecl run =>
      have value := children _ (List.mem_singleton.2 rfl) leaves run
      exact .mk_of hs _ fun _ hc => List.mem_singleton.1 hc ▸ value
    | script run => exact .mk_of hs _ (mapM_gives children leaves run)
    | children _ run => exact .mk_of hs _ (mapM_gives children leaves (runs.runs_children run).1)

end

theorem Aimed.inScope {α : Type} {scope : Scope} {x : Resolve α} (h : Keeping (Aimed S) x) :
    Keeping (Aimed S) (inScope scope x) := by
  intro st a st' run told
  obtain ⟨mid, _, _, inner, -, rfl⟩ := yields_inScope.1 run
  have last : Aimed S mid := h inner told
  exact last

theorem Aimed.predicate {candidate : Ty} {p : Pending} (h : Keeping (Aimed S) p.resolve) :
    Keeping (Aimed S) (predicate candidate p) := by
  intro st link st' run told
  obtain ⟨cond, mid, _, _, inner, -, rfl, -⟩ := yields_predicate.1 run
  have last : Aimed S mid := h inner told
  exact last

theorem stream_reports {span : Span} {ty : Option Ty} {steps : List (Step Node)}
    (parts : ∀ c ∈ (Kind.stream steps).children, Keeping (Aimed S) (tree cx c))
    (spans : ∀ s ∈ steps, S s.span) :
    Keeping (Aimed S) (stream cx span ty (steps.map (·.map (pending cx)))) := by
  intro st n st' run told
  obtain ⟨-, hops, mid, found, last, hh, hl, h⟩ := yields_stream.1 run
  obtain ⟨⟨args, hargs⟩, -⟩ := hops_run hh
  have started := Keeping.mapM (fun c hc => parts c (mem_children_of_argument hc)) hargs told
  have reports : ∀ h ∈ hops, S h.step.span := by
    intro h hmem
    obtain ⟨_, hstep, span, -⟩ := mem_hops hh h hmem
    obtain ⟨s, hs, rfl⟩ := List.mem_map.1 hstep
    rw [span]
    exact spans s hs
  have linked : Aimed S last := by
    refine Keeping.links (fun h hmem st inView told d hd => ?_) (fun h hmem p hp _ => ?_) hl started
    · rcases List.mem_append.1 hd with hd | hd
      · exact told d hd
      · rw [List.mem_singleton.1 hd]
        exact ⟨_, rfl, reports h hmem⟩
    · obtain ⟨c, hc, rfl⟩ := hops_pending hh h hmem p hp
      exact Aimed.predicate (parts c hc)
  rcases h with ⟨-, rfl, -⟩ | ⟨list, made, next, -, -, rfl, -⟩
  · exact linked
  · exact linked

/-- A resolution only reports steps of the tree. -/
theorem tree_reports (n : Node) (h : n.Sited Node.spans S) : Keeping (Aimed S) (tree cx n) := by
  induction n using Node.induct with
  | h span ty kind ih =>
    obtain ⟨own, children⟩ := sited_mk.1 h
    have children : ∀ c ∈ kind.children, Keeping (Aimed S) (tree cx c) := fun c hc => ih c hc (children c hc)
    intro st n st' hrun told
    cases nodeRun hrun with
    | @stream steps n run =>
      refine stream_reports children (fun s hs => own _ ?_) run told
      exact List.mem_cons_of_mem _ (List.mem_map_of_mem hs)
    | name run =>
      rw [(yields_bare run).1]
      exact told
    | call hargs run =>
      rw [(yields_bare run).1]
      exact Keeping.mapM children hargs told
    | methodDecl run => exact Aimed.inScope (Keeping.mapM children) run told
    | localDecl run last =>
      have value := children _ (List.mem_singleton.2 rfl) run told
      rw [last]
      unfold declared
      split <;> exact value
    | script run => exact Keeping.mapM children run told
    | children _ run => exact Keeping.mapM children (runs.runs_children run).1 told

end Resolve

end NavScript
