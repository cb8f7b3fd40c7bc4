import NavScript.Proofs.Emission
import NavScript.Proofs.Kept

/-!
# What no scope answers

A bare name or call that no scope answers stays in the tree it is in, and the passes behind the navigation
keep it there, so it is reported in the end, unless a stream around it is given up, which is reported too.
The one way out is through the arguments of a call that is read as a property: they are resolved, but no
tree has them. So the reports are complete for all visits that are kept (`analysis_accountable`).
-/

namespace NavScript

open Resolve

/-- A bare name, or a bare call with so many arguments. -/
inductive Bare where
  | name (x : String)
  | call (x : String) (arity : Nat)

/-- The diagnostic is about such a name or call. -/
def Bare.Told : Bare → Diagnostic → Prop
  | name x, d => ∃ span, d = .unresolvedName x span
  | call x arity, d => ∃ span, d = .unresolvedMethod x arity span

namespace Node

/-- A bare name or call by itself. -/
def bare? (n : Node) : Option Bare :=
  match n.kind with
  | .name x => some (.name x)
  | .call x args => some (.call x args.length)
  | _ => none

def bareOwn (n : Node) : List Bare := n.bare?.toList

end Node

theorem bareOwn_outlined : Outlined Node.bareOwn where
  alike z f g span span' ty ty' := by
    cases z
    case call x args => simp [Node.bareOwn, Node.bare?, Kind.map]
    all_goals rfl
  idle n h := by
    obtain ⟨span, ty, kind⟩ := n
    cases kind
    case name | call => simp [Node.label, Kind.label] at h
    all_goals rfl

theorem bareOwn_carried : Carried Node.bareOwn fun _ => [] :=
  bareOwn_outlined.carried (fun _ _ _ _ _ _ => rfl) fun _ _ _ _ _ => rfl

/-- Each bare name or call that is visible in an analysed tree is told. -/
theorem bare_told {cx : Context} {root : Node} {a : Analysis} (h : analyze cx root = .ok a) {b : Bare}
    (hb : b ∈ a.root.gather Node.bareOwn) : ∃ d ∈ a.diagnostics, d.isError = true ∧ b.Told d := by
  obtain ⟨n, hn, own⟩ := List.mem_flatMap.1 hb
  have told {d : Diagnostic} (hd : d ∈ Leftover.own n) : d ∈ a.diagnostics := analysis_told h hn hd
  obtain ⟨span, ty, kind⟩ := n
  cases kind
  case name x =>
    rw [List.mem_singleton.1 own]
    exact ⟨_, told (List.mem_singleton.2 rfl), rfl, span, rfl⟩
  case call x args =>
    rw [List.mem_singleton.1 own]
    exact ⟨_, told (List.mem_singleton.2 rfl), rfl, span, rfl⟩
  all_goals exact absurd own List.not_mem_nil

theorem length_of_yields_mapM {f : Node → Resolve Node} {ns ns' : List Node} {st st' : ResolveState}
    (h : Yields (ns.mapM f) st ns' st') : ns'.length = ns.length := by
  obtain ⟨zs, rfl, rfl, -⟩ := runs.runs_mapM.1 h
  rw [List.length_map, List.length_map]

/-- A bare name or call that no scope answers stays. -/
theorem unanswered_stays {cx : Context} {v : Visit} {n : Node} {st' : ResolveState}
    (h : Yields (tree cx v.node) v.state n st') {b : Bare} (hb : v.node.bare? = some b)
    (unanswered : bareAnswer? cx v = none) : b ∈ n.gather Node.bareOwn := by
  obtain ⟨st, span, ty, kind⟩ := v
  cases nodeRun h with
  | @name x n run =>
    cases hb
    obtain ⟨rfl, ⟨-, rfl⟩ | ⟨found, answered, -⟩⟩ := yields_bare run
    · rw [gather_mk (by simp [Kind.label])]
      exact List.mem_append_left _ (List.mem_singleton.2 rfl)
    · exact absurd (answered.symm.trans unanswered) (Option.some_ne_none found)
  | @call x args args' mid n hargs run =>
    cases hb
    rw [bareAnswer?_call hargs] at unanswered
    obtain ⟨rfl, ⟨-, rfl⟩ | ⟨found, answered, -⟩⟩ := yields_bare run
    · rw [gather_mk (by simp [Kind.label]), ← length_of_yields_mapM hargs]
      exact List.mem_append_left _ (List.mem_singleton.2 rfl)
    · exact absurd (answered.symm.trans unanswered) (Option.some_ne_none found)
  | stream | methodDecl | localDecl | script => cases hb
  | children listed =>
    simp only [List.mem_cons, List.not_mem_nil, or_false, not_or] at listed
    cases kind
    case name | call => simp [Kind.label] at listed
    all_goals cases hb

/-- What an analysis has to say about the bare names and calls of a script. -/
structure Analysis.Accountable (cx : Context) (root : Node) (a : Analysis) : Prop where
  /-- Of what is kept an error tells if no scope answers it: one about it, or one about a step. -/
  told : ∀ v, Kept cx root v → ∀ b, v.node.bare? = some b → bareAnswer? cx v = none →
    ∃ d ∈ a.diagnostics, d.isError = true ∧ (b.Told d ∨ d.IsStep)
  /-- Where code can be made each child of what is visited is visited once. -/
  visited : a.canEmit = true → ∀ v, Visited cx root v →
    ((parts cx v).map (·.node)).Perm v.node.kind.children
  /-- So each bare name or call of the script is, and is answered if it is kept. -/
  answered : a.canEmit = true → ∀ n ∈ root.nodes, n.bare?.isSome →
    ∃ v, Visited cx root v ∧ v.node = n ∧ (Kept cx root v → (bareAnswer? cx v).isSome)
  /-- Where methods alone are filed under calls, everything is kept. -/
  kept : cx.navigators.CallSlots Request.Called → ∀ v, Visited cx root v → Kept cx root v

/-- Where each child of what is visited is visited, each node is. -/
theorem visited_nodes {cx : Context} {root : Node} (all : ∀ v, Visited cx root v →
    ((parts cx v).map (·.node)).Perm v.node.kind.children) :
    ∀ n ∈ root.nodes, ∃ v, Visited cx root v ∧ v.node = n := by
  have below (m : Node) : ∀ v, Visited cx root v → v.node = m →
      ∀ n ∈ m.nodes, ∃ w, Visited cx root w ∧ w.node = n := by
    induction m using Node.induct with
    | h span ty kind ih =>
      intro v hv heq n hn
      rw [Node.nodes_mk] at hn
      rcases List.mem_cons.1 hn with rfl | hn
      · exact ⟨v, hv, heq⟩
      · obtain ⟨c, hc, hn⟩ := List.mem_flatMap.1 hn
        have child : c ∈ (parts cx v).map (·.node) := by
          rw [(all v hv).mem_iff, heq]
          exact hc
        obtain ⟨w, hw, rfl⟩ := List.mem_map.1 child
        exact ih _ hc w (hv.part hw) rfl n hn
  exact below root _ .root rfl

/-- Every analysis with the standard navigators and those of manifests accounts for the bare names and
calls that it keeps. -/
theorem analysis_accountable {s : Setup} (hs : s.Installed) {operators : OperatorTable}
    {env : Environment} {root : Node} {a : Analysis}
    (h : analyze (s.context operators env) root = .ok a) :
    a.Accountable (s.context operators env) root := by
  obtain ⟨navigated, ds, hnav, hroot, new, -, hds⟩ := analyze_ok h
  obtain ⟨last, run, rfl⟩ := Resolve.resolveNavigation_ok hnav
  have reports : last.diagnostics ⊆ a.diagnostics := by
    rw [hds, List.append_assoc]
    exact List.subset_append_left ..
  have told : ∀ v, Kept (s.context operators env) root v → ∀ b, v.node.bare? = some b →
      bareAnswer? (s.context operators env) v = none →
      ∃ d ∈ a.diagnostics, d.isError = true ∧ (b.Told d ∨ d.IsStep) := by
    intro v hv b hb unanswered
    obtain ⟨n, ⟨mid, hn, -⟩, up⟩ := hv.ran run bareOwn_carried hs.callSlots
    have stays := unanswered_stays hn hb unanswered
    rcases up with up | ⟨d, hd, step⟩
    · have visible : b ∈ a.root.gather Node.bareOwn := by
        rw [hroot, bareOwn_outlined.gather_passes]
        exact up stays
      obtain ⟨d, hd, error, told⟩ := bare_told h visible
      exact ⟨d, hd, error, .inl told⟩
    · refine ⟨d, reports hd, ?_, .inr step⟩
      obtain ⟨_, _, _, rfl⟩ := step
      rfl
  have visited : a.canEmit = true → ∀ v, Visited (s.context operators env) root v →
      ((parts (s.context operators env) v).map (·.node)).Perm v.node.kind.children := by
    intro emits v hv
    obtain ⟨n, mid, hn, stays⟩ := hv.ran run
    refine parts_nodes hn fun d hd step => ?_
    refine Analysis.no_error emits (reports (stays hd)) ?_
    obtain ⟨_, _, _, rfl⟩ := step
    rfl
  refine ⟨told, visited, fun emits n hn bare => ?_, fun slots v hv => hv.kept run slots⟩
  obtain ⟨v, hv, rfl⟩ := visited_nodes (visited emits) n hn
  refine ⟨v, hv, rfl, fun kept => ?_⟩
  obtain ⟨b, hb⟩ := Option.isSome_iff_exists.1 bare
  rw [Option.isSome_iff_ne_none]
  intro unanswered
  obtain ⟨d, hd, error, -⟩ := told v kept b hb unanswered
  exact Analysis.no_error emits hd error

/-- A call and a name that no scope knows. -/
def unknownCall : Node := .ofKind (.call "f" [.ofKind (.name "x")])

/-- Both are told, and nothing is lost. -/
theorem analysis_accountable_unknown :
    let cx := (Setup.ofConfig {}).context .standard {}
    let a : Analysis :=
      ⟨unknownCall, [.unresolvedMethod "f" 1 .synthetic, .unresolvedName "x" .synthetic]⟩
    (analyze cx unknownCall = .ok a ∧ a.Accountable cx unknownCall) ∧
      ∀ v, Visited cx unknownCall v → Kept cx unknownCall v := by
  intro cx a
  have h : analyze cx unknownCall = .ok a := rfl
  have accountable : a.Accountable cx unknownCall := analysis_accountable (.ofConfig {}) h
  exact ⟨⟨h, accountable⟩, accountable.kept (Registry.callSlots_standard _ fun _ _ => id)⟩

/-- A manifest that files a property under calls. -/
def showText : String :=
  "[[class]]\nname = \"Person\"\nproperties = \x7b name = \"String\" \x7d\n\n" ++
    "[[navigator]]\ntype = \"Person\"\ntests = [\"show()\"]\nproperty = \"name\"\n"

/-- A call that is read as that property, over a name that no scope knows. -/
def showCall : Node := .ofKind (.call "show" [.ofKind (.name "missing")])

def showContext (m : Manifest) : Context :=
  ((Setup.ofConfig {}).install m).context .standard { binding := .ofClass "Person" }

/-- The visit of the name. -/
def missingVisit (m : Manifest) : Visit :=
  ⟨{ scopes := initialScopes (showContext m).env showCall }, .ofKind (.name "missing")⟩

def emits (cx : Context) (root : Node) : Bool :=
  match analyze cx root with
  | .ok a => a.canEmit
  | .error _ => false

/-- Code is made, although no scope answers the name. -/
theorem analysis_silent_show :
    ∃ m, Manifest.read "model" showText = .ok m ∧ ((Setup.ofConfig {}).install m).Installed ∧
      ∃ a, analyze (showContext m) showCall = .ok a ∧ a.canEmit = true ∧
        ∃ v, Visited (showContext m) showCall v ∧ v.node.bare? = some (.name "missing") ∧
          bareAnswer? (showContext m) v = none := by
  have computed : (Manifest.read "model" showText).toOption.any (fun m =>
      emits (showContext m) showCall && (bareAnswer? (showContext m) (missingVisit m)).isNone) = true := by
    decide +kernel
  cases read : Manifest.read "model" showText with
  | error e =>
    rw [read] at computed
    cases computed
  | ok m =>
    rw [read] at computed
    obtain ⟨made, unanswered⟩ := (Bool.and_eq_true ..).mp computed
    refine ⟨m, rfl, .install (.ofConfig {}) read, ?_⟩
    cases run : analyze (showContext m) showCall with
    | error fault => simp [emits, run] at made
    | ok a =>
      refine ⟨a, rfl, by simpa [emits, run] using made, missingVisit m, .part .root ?_, rfl,
        Option.isNone_iff_eq_none.1 unanswered⟩
      exact List.mem_singleton.2 rfl

end NavScript
