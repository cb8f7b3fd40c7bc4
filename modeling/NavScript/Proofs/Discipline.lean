import Mathlib.Data.List.Nodup
import NavScript.Proofs.Depth
import NavScript.Proofs.Emission
import NavScript.Proofs.Surveyed

/-!
# The discipline of an analysed tree

A tree of the front end that is analysed without a diagnostic leaves one value on the stack and takes
nothing that it has not put there. Each drawn name is bound by one node only, since a resolution binds
no number twice (`draws_ledger`), and is read under that node only (`survey_reads`).
-/

namespace NavScript

open Course Lower

/-- The name that a node binds. -/
def boundNames (n : Node) : List String :=
  match n.kind with
  | .pipe _ _ x _ | .letIn x _ _ => [x]
  | _ => []

theorem boundNames_outlined : Outlined boundNames where
  alike z f g span span' ty ty' := by cases z <;> rfl
  idle n h := by
    obtain ⟨span, ty, kind⟩ := n
    cases kind
    case pipe | letIn => simp [Node.label, Kind.label] at h
    all_goals rfl

theorem boundNames_carried : Carried boundNames fun x => [x] :=
  boundNames_outlined.carried (fun _ _ _ _ _ _ => rfl) fun _ _ _ _ _ => rfl

theorem boundNames_frontEnd {n : Node} (front : n.FrontEnd) : ∀ c ∈ n.nodes, boundNames c = [] := by
  intro c hc
  have kinds := front.kinds c hc
  obtain ⟨span, ty, kind⟩ := c
  cases kind
  case pipe | letIn => simp [Node.label, Kind.label] at kinds
  all_goals rfl

/-- The passes behind the navigation bind what it has bound. -/
theorem settle_boundNames (cx : Context) (n : Node) :
    Node.gather boundNames ((settle cx n).transform (returned cx.classes)) =
      n.gather boundNames :=
  boundNames_outlined.gather_passes cx n

namespace Lower

/-- Different names, each drawn with a number in between. -/
structure Draws (n m : Nat) (names : List String) : Prop where
  le : n ≤ m
  once : names.Nodup
  each : ∀ x ∈ names, ∃ k, n ≤ k ∧ k < m ∧ (x = freshName "e" k ∨ x = freshName "p" k)

variable {n mid m : Nat} {names names' : List String}

theorem Draws.nil (le : n ≤ m) : Draws n m [] :=
  ⟨le, List.nodup_nil, fun _ h => absurd h List.not_mem_nil⟩

theorem Draws.mono (h : Draws n m names) (sub : names'.Subperm names) : Draws n m names' := by
  obtain ⟨l, same, sub⟩ := sub
  refine ⟨h.le, same.nodup_iff.1 (h.once.sublist sub), fun x hx => h.each x ?_⟩
  exact sub.subset (same.mem_iff.2 hx)

theorem drawn_number {a b : Nat} {x : String} (h : x = freshName "e" a ∨ x = freshName "p" a)
    (h' : x = freshName "e" b ∨ x = freshName "p" b) : a = b := by
  rcases h with rfl | rfl <;> rcases h' with h' | h'
  · exact freshName_number h'
  · exact absurd h' (freshName_letter a b)
  · exact absurd h'.symm (freshName_letter b a)
  · exact freshName_number h'

theorem Draws.append (h : Draws n mid names) (h' : Draws mid m names') :
    Draws n m (names ++ names') := by
  have le := h.le
  have le' := h'.le
  refine ⟨Nat.le_trans le le', List.nodup_append'.2 ⟨h.once, h'.once, ?_⟩, fun x hx => ?_⟩
  · intro x hx hx'
    obtain ⟨a, -, before, ha⟩ := h.each x hx
    obtain ⟨b, after, -, hb⟩ := h'.each x hx'
    have same := drawn_number ha hb
    omega
  · rcases List.mem_append.1 hx with hx | hx
    · obtain ⟨k, lower, upper, hk⟩ := h.each x hx
      exact ⟨k, lower, by omega, hk⟩
    · obtain ⟨k, lower, upper, hk⟩ := h'.each x hx
      exact ⟨k, by omega, upper, hk⟩

theorem Draws.elements (le : n ≤ m) : Draws n m (elements (fun x => [x]) n m) := by
  have listed : Lower.elements (fun x => [x]) n m =
      (List.range' n (m - n)).map (freshName "e") := by
    unfold Lower.elements
    rw [← List.map_eq_flatMap]
  rw [listed]
  refine ⟨le, List.Nodup.map (fun _ _ h => freshName_number h) (List.nodup_range' ..), fun x hx => ?_⟩
  obtain ⟨k, hk, rfl⟩ := List.mem_map.1 hx
  have between := List.mem_range'_1.1 hk
  exact ⟨k, between.1, by omega, .inl rfl⟩

end Lower

/-- The names that are bound are drawn on the way. -/
theorem draws_ledger : Ledger boundNames (fun x => [x]) (fun _ => [])
    fun st st' names => Draws st.nextFresh st'.nextFresh names where
  toCarried := boundNames_carried
  bare n h := by
    obtain ⟨span, ty, kind⟩ := n
    cases kind
    case name | call => rfl
    all_goals simp [Node.label, Kind.label] at h
  stream span ty steps := rfl
  nothing leads := .nil leads.fresh
  append := .append
  mono := .mono
  scopes _ _ h := h
  missed := by
    intro st step inView span spans hspan
    exact .nil (Nat.le_refl _)
  candidate st t := by
    refine ⟨Nat.le_succ _, List.nodup_singleton _, fun x hx => ?_⟩
    exact ⟨st.nextFresh, Nat.le_refl _, Nat.lt_succ_self _, .inr (List.mem_singleton.1 hx)⟩
  elements st _ le := .elements le

/-- The names of locals that are read in a tree and not bound around. -/
def Node.openNames (n : Node) : List String :=
  n.fold fun _ _ kind =>
    match kind with
    | .localRef x => [x]
    | .pipe _ source x body => source ++ body.filter (· != x)
    | .letIn x value body => value ++ body.filter (· != x)
    | kind => kind.children.flatten

theorem openNames_localRef (span : Span) (ty : Option Ty) (x : String) :
    Node.openNames ⟨span, ty, .localRef x⟩ = [x] := by
  unfold Node.openNames
  rw [Node.fold_mk]
  rfl

theorem openNames_pipe (span : Span) (ty : Option Ty) (op : StageKind) (source : Node) (x : String)
    (body : Node) : Node.openNames ⟨span, ty, .pipe op source x body⟩ =
      source.openNames ++ body.openNames.filter (· != x) := by
  unfold Node.openNames
  rw [Node.fold_mk]
  rfl

theorem openNames_letIn (span : Span) (ty : Option Ty) (x : String) (value body : Node) :
    Node.openNames ⟨span, ty, .letIn x value body⟩ =
      value.openNames ++ body.openNames.filter (· != x) := by
  unfold Node.openNames
  rw [Node.fold_mk]
  rfl

theorem openNames_other {kind : Kind Node} (h : kind.label ∉ ["LocalRef", "Pipe", "Let"]) (span : Span)
    (ty : Option Ty) : Node.openNames ⟨span, ty, kind⟩ = kind.children.flatMap Node.openNames := by
  have step : Node.openNames ⟨span, ty, kind⟩ = (kind.map Node.openNames).children.flatten := by
    unfold Node.openNames
    rw [Node.fold_mk]
    cases kind
    case localRef | pipe | letIn => simp [Kind.label] at h
    all_goals rfl
  rw [step, Kind.children_map, List.flatMap_def]

section

variable {V : Type}

theorem Course.all_parts {fs : List (Course V)} {frame : List V} {r : List V × Bool}
    (run : all fs frame = some r) : ∀ f ∈ fs, ∃ frame r, f frame = some r := by
  induction fs generalizing frame r with
  | nil => exact fun _ h => absurd h List.not_mem_nil
  | cons f fs ih =>
    obtain ⟨mid, a, last, b, hf, hfs, rfl⟩ := andThen_some run
    intro g hg
    rcases List.mem_cons.1 hg with rfl | hg
    · exact ⟨_, _, hf⟩
    · exact ih hfs g hg

variable [DecidableEq V] {label : Option Ty → V}

/-- Where no name is bound the children have surveys in the same environment. -/
theorem survey_children {kind : Kind Node} {own : V} {env : List (String × V)} {frame : List V}
    {r : List V × Bool} (hkind : kind.label ∉ ["Stream", "Name", "Call", "LocalRef", "Pipe", "Let"])
    (run : surveyKind own (kind.map (Node.sheet label)) env frame = some r) :
    ∀ c ∈ kind.children, ∃ frame r, c.survey label env frame = some r := by
  have listed {items : List Node} (f : Sheet V → Course V)
      (part : ∀ {item : Node} {frame r}, f (item.sheet label) frame = some r →
        ∃ frame r, item.survey label env frame = some r) {frame : List V} {r : List V × Bool}
      (runs : all ((items.map (Node.sheet label)).map f) frame = some r) :
      ∀ c ∈ items, ∃ frame r, c.survey label env frame = some r := by
    intro c hc
    obtain ⟨_, _, hf⟩ := all_parts runs _ (List.mem_map_of_mem (List.mem_map_of_mem hc))
    exact part hf
  have lone {item : Node} {frame : List V} {r : List V × Bool}
      (run : alone ((item.sheet label).course env) frame = some r) :
      ∃ frame r, item.survey label env frame = some r := by
    obtain ⟨_, _, hf, -⟩ := alone_some run
    exact ⟨_, _, hf⟩
  have none : ∀ c ∈ ([] : List Node), ∃ frame r, c.survey label env frame = some r :=
    fun _ h => absurd h List.not_mem_nil
  cases kind
  case stream | name | call | localRef | pipe | letIn => simp [Kind.label] at hkind
  case literal | this | stacked | typeRef | stackOp => exact none
  case propertyRead e _ | convert _ e | toSequence e | collect e _ | isNull e | localDecl _ _ e =>
    obtain ⟨_, _, _, _, he, -, -⟩ := andThen_some run
    exact List.forall_mem_cons.2 ⟨⟨_, _, he⟩, none⟩
  case methodCall e owner name args =>
    obtain ⟨_, _, _, _, both, -, -⟩ := andThen_some run
    obtain ⟨_, _, _, _, he, hargs, -⟩ := andThen_some both
    exact List.forall_mem_cons.2 ⟨⟨_, _, he⟩, listed (fun arg => alone (arg.course env)) lone hargs⟩
  case binary op l r | operatorCall owner method l r =>
    obtain ⟨_, _, _, _, both, -, -⟩ := andThen_some run
    obtain ⟨_, _, _, _, hl, hr, -⟩ := andThen_some both
    exact List.forall_mem_cons.2 ⟨lone hl, List.forall_mem_cons.2 ⟨lone hr, none⟩⟩
  case conditional c t e =>
    obtain ⟨_, _, _, _, first, branches, -⟩ := andThen_some run
    obtain ⟨_, _, _, _, hc, -, -⟩ := andThen_some first
    obtain ⟨_, _, _, _, _, ht, he, -⟩ := either_some branches
    exact List.forall_mem_cons.2 ⟨⟨_, _, hc⟩,
      List.forall_mem_cons.2 ⟨⟨_, _, ht⟩, List.forall_mem_cons.2 ⟨⟨_, _, he⟩, none⟩⟩⟩
  case sequence items => exact listed (fun item => item.course env) (fun h => ⟨_, _, h⟩) run
  case script items =>
    obtain ⟨_, _, _, _, hitems, -, -⟩ := andThen_some run
    refine listed _ (fun {item frame r} hf => ?_) hitems
    split at hf
    · exact ⟨_, _, hf⟩
    · exact lone hf
  case methodDecl d => exact listed (fun item => alone (item.course env)) lone run

/-- What has a survey reads drawn names only that are bound around it. -/
theorem survey_reads (n : Node) : ∀ {env : List (String × V)} {frame : List V} {r : List V × Bool},
    (∀ c ∈ n.nodes, c.label ∉ ["Stream", "Name", "Call"]) → n.survey label env frame = some r →
      ∀ x ∈ n.openNames, isDrawn x = true → (env.lookup x).isSome := by
  induction n using Node.induct with
  | h span ty kind ih =>
    intro env frame r resolved run x hx drawn
    have part {c : Node} (hc : c ∈ kind.children) {env : List (String × V)}
        (run : ∃ frame r, c.survey label env frame = some r) (hx : x ∈ c.openNames) :
        (env.lookup x).isSome := by
      obtain ⟨frame, r, run⟩ := run
      exact ih c hc (fun d hd => resolved d (Node.mem_nodes_of_child hc hd)) run x hx drawn
    have bound {body : Node} (hbody : body ∈ kind.children) {y : String} {v : V}
        (run : ∃ frame r, body.survey label ((y, v) :: env) frame = some r)
        (hx : x ∈ body.openNames.filter (· != y)) : (env.lookup x).isSome := by
      obtain ⟨hx, other⟩ := List.mem_filter.1 hx
      have found := part hbody run hx
      rwa [List.lookup_cons, beq_eq_false_iff_ne.2 (bne_iff_ne.1 other)] at found
    have own := resolved _ (Node.mem_nodes_self _)
    rw [survey_mk] at run
    cases kind
    case stream | name | call => simp [Node.label, Kind.label] at own
    case localRef y =>
      rw [openNames_localRef, List.mem_singleton] at hx
      subst hx
      cases found : env.lookup x with
      | some v => rfl
      | none => simp [Kind.map, surveyKind, found, drawn] at run
    case pipe op source y body =>
      obtain ⟨_, _, _, _, both, -, -⟩ := andThen_some run
      obtain ⟨_, _, _, _, hsource, hbody, -⟩ := andThen_some both
      obtain ⟨_, _, hbody, -⟩ := alone_some hbody
      rw [openNames_pipe] at hx
      rcases List.mem_append.1 hx with hx | hx
      · exact part (by simp [Kind.children]) ⟨_, _, hsource⟩ hx
      · exact bound (by simp [Kind.children]) ⟨_, _, hbody⟩ hx
    case letIn y value body =>
      obtain ⟨_, _, _, _, both, -, -⟩ := andThen_some run
      obtain ⟨_, _, _, _, first, hbody, -⟩ := andThen_some both
      obtain ⟨_, _, _, _, hvalue, -, -⟩ := andThen_some first
      rw [openNames_letIn] at hx
      rcases List.mem_append.1 hx with hx | hx
      · exact part (by simp [Kind.children]) ⟨_, _, hvalue⟩ hx
      · exact bound (by simp [Kind.children]) ⟨_, _, hbody⟩ hx
    all_goals
      rw [openNames_other (by simp [Kind.label])] at hx
      obtain ⟨c, hc, hx⟩ := List.mem_flatMap.1 hx
      exact part hc (survey_children (by simp [Kind.label]) run c hc) hx

end

/-- The tree keeps to its own values on the stack, and to its own names. -/
structure Node.Disciplined (n : Node) : Prop where
  resolved : ∀ c ∈ n.nodes, c.label ∉ ["Stream", "Name", "Call"]
  /-- On each stack it leaves one value more, except that a method is only declared. -/
  depth : ∀ frame, (n.depth [] frame).map Prod.fst =
    some (if n.label == "MethodDecl" then frame else () :: frame)
  /-- No two nodes bind the same name. -/
  once : (n.nodes.flatMap boundNames).Nodup
  /-- Drawn names are only read where they are bound. -/
  enclosed : ∀ x ∈ n.openNames, isDrawn x = false

/-- Trees of the front end that are analysed without diagnostics are disciplined. -/
theorem analysis_disciplined {s : Setup} (hs : s.Installed) {operators : OperatorTable}
    {env : Environment} {root : Node} (front : root.FrontEnd) {a : Analysis}
    (h : analyze (s.context operators env) root = .ok a) (clean : a.diagnostics = []) :
    a.root.Disciplined := by
  have emits : a.canEmit = true := by
    unfold Analysis.canEmit
    rw [clean]
    rfl
  have resolved := analysis_resolved hs h emits
  have noStream : ∀ c ∈ a.root.visible, c.label ≠ "Stream" :=
    Analysis.no_stream (analysis_reported hs h) emits
  obtain ⟨navigated, ds, hnav, hroot, -⟩ := analyze_ok h
  obtain ⟨st', hrun, -⟩ := Resolve.resolveNavigation_ok hnav
  obtain ⟨-, -, ok, stands⟩ := Resolve.tree_surveys unlabelled hs.provided root front
    (Resolve.initialScopes_sound env root) hrun
  have drawn := Resolve.tree_tells draws_ledger hs.provided root
    (fun c hc _ => boundNames_frontEnd front c hc)
    (Resolve.initialScopes_plain boundNames_carried env root) hrun
  have same := depth_passes (s.context operators env) navigated
  rw [← hroot] at same
  have declares : (a.root.label == "MethodDecl") = (navigated.label == "MethodDecl") := by
    rw [← sheet_declares unlabelled a.root, same, sheet_declares]
  have surveyed (frame : List Unit) : a.root.depth [] frame =
      some (if a.root.label == "MethodDecl" then frame else () :: frame, ok) := by
    have run := stands [] (Resolve.initialScopes_within env root) frame
    unfold Node.survey at run
    rw [← same, ← declares] at run
    exact run
  have once : (a.root.nodes.flatMap boundNames).Nodup := by
    have bound := settle_boundNames (s.context operators env) navigated
    rw [← hroot] at bound
    rw [← Node.visible_eq_nodes noStream]
    show (a.root.gather boundNames).Nodup
    rw [bound]
    exact drawn.once
  refine ⟨resolved, fun frame => ?_, once, fun x hx => ?_⟩
  · rw [surveyed, Option.map_some]
  · rw [Bool.eq_false_iff]
    intro drawn
    have found := survey_reads a.root resolved (surveyed []) x hx drawn
    rw [List.lookup_nil] at found
    cases found

/-- The true elements of the bound list are a local that the script ends in. -/
def trueElements : Node :=
  .ofKind (.script [
    .ofKind (.localDecl "kept" none (.ofKind (.stream
      [{ axis := .self, test := .self,
         predicates := [.ofKind (.stream [{ axis := .self, test := .self }])] },
        { axis := .child, test := .reduction .array }]))),
    .ofKind (.name "kept")])

/-- The condition has a name of its own, the declared one is read as it was written. -/
theorem analysis_disciplined_trueElements :
    let cx := (Setup.ofConfig {}).context .standard { binding := .generic "List" .boolean }
    trueElements.FrontEnd ∧ ∃ a, analyze cx trueElements = .ok a ∧ a.diagnostics = [] ∧
      a.root.Disciplined := by
  intro cx
  have front : trueElements.FrontEnd := ⟨by decide, by decide, by decide⟩
  have analysed : ∃ a, analyze cx trueElements = .ok a ∧ a.diagnostics.isEmpty = true := by
    have found : (analyze cx trueElements).toOption.any (·.diagnostics.isEmpty) = true := by
      decide +kernel
    cases h : analyze cx trueElements with
    | error e =>
      rw [h] at found
      cases found
    | ok a =>
      rw [h] at found
      exact ⟨a, rfl, found⟩
  obtain ⟨a, ok, clean⟩ := analysed
  have clean := List.isEmpty_iff.1 clean
  exact ⟨front, a, ok, clean, analysis_disciplined (.ofConfig {}) front ok clean⟩

end NavScript
