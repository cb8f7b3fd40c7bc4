import NavScript.Proofs.Ledger

/-!
# What is left is reported

Whatever an analysis leaves open is told. A name or a call outside streams has one diagnostic, and
each outermost stream has one about a step of its own, which the navigation reports when it gives
the stream up (`tree_accounts`). So a tree without errors has no open node at any depth, and code can
be made from it.
-/

namespace NavScript

/-- The regions of the steps of a stream. -/
def streamSpans (n : Node) : List (List Span) :=
  match n.kind with
  | .stream steps => [steps.map (·.span)]
  | _ => []

/-- The outermost streams of a tree, each by the regions of its steps. -/
def Node.abandoned (n : Node) : List (List Span) := n.gather streamSpans

theorem streamSpans_outlined : Outlined streamSpans where
  alike z f g span span' ty ty' := by
    cases z
    case stream steps =>
      simp only [streamSpans, Kind.map, List.map_map]
      rfl
    all_goals rfl
  idle n h := by
    obtain ⟨span, ty, kind⟩ := n
    cases kind
    case stream => simp [Node.label, Kind.label] at h
    all_goals rfl

theorem streamSpans_carried : Carried streamSpans fun _ => [] :=
  streamSpans_outlined.carried (fun _ _ _ _ _ _ => rfl) fun _ _ _ _ _ => rfl

/-- The passes behind the navigation keep the streams that it has left. -/
theorem settle_abandoned (cx : Context) (n : Node) :
    ((settle cx n).transform (returned cx.classes)).abandoned = n.abandoned :=
  streamSpans_outlined.gather_passes cx n

/-- Each of the streams has a diagnostic of its own, about one of its steps. -/
def Reported (streams : List (List Span)) (ds : List Diagnostic) : Prop :=
  ∃ pairs : List (List Span × Diagnostic), streams.Subperm (pairs.map Prod.fst) ∧
    (pairs.map Prod.snd).Subperm ds ∧
    ∀ p ∈ pairs, ∃ step inView, ∃ span ∈ p.1, p.2 = .unresolvedStep step inView span

theorem Reported.nil (ds : List Diagnostic) : Reported [] ds :=
  ⟨[], .refl _, List.nil_subperm, nofun⟩

theorem Reported.append {streams streams' : List (List Span)} {ds ds' : List Diagnostic}
    (h : Reported streams ds) (h' : Reported streams' ds') :
    Reported (streams ++ streams') (ds ++ ds') := by
  obtain ⟨pairs, hs, hd, hp⟩ := h
  obtain ⟨pairs', hs', hd', hp'⟩ := h'
  refine ⟨pairs ++ pairs', ?_, ?_, ?_⟩
  · rw [List.map_append]
    exact hs.append hs'
  · rw [List.map_append]
    exact hd.append hd'
  · intro p hmem
    rcases List.mem_append.1 hmem with hmem | hmem
    · exact hp p hmem
    · exact hp' p hmem

theorem Reported.mono {streams streams' : List (List Span)} {ds ds' : List Diagnostic}
    (h : Reported streams ds) (hs : streams'.Subperm streams) (hd : ds.Subperm ds') :
    Reported streams' ds' := by
  obtain ⟨pairs, hs', hd', hp⟩ := h
  exact ⟨pairs, hs.trans hs', hd'.trans hd, hp⟩

theorem Reported.singleton {spans : List Span} {ds : List Diagnostic} {step : String}
    {inView : Option Ty} {span : Span} (hspan : span ∈ spans)
    (hmem : .unresolvedStep step inView span ∈ ds) : Reported [spans] ds := by
  refine ⟨[(spans, .unresolvedStep step inView span)], .refl _, ?_, fun p hp => ?_⟩
  · exact List.singleton_subperm_iff.2 hmem
  · rw [List.mem_singleton.1 hp]
    exact ⟨step, inView, span, hspan, rfl⟩

/-- No stream goes without. -/
theorem Reported.exists {streams : List (List Span)} {ds : List Diagnostic}
    (h : Reported streams ds) {spans : List Span} (hmem : spans ∈ streams) :
    ∃ step inView, ∃ span ∈ spans, .unresolvedStep step inView span ∈ ds := by
  obtain ⟨pairs, hs, hd, hp⟩ := h
  obtain ⟨p, hpair, rfl⟩ := List.mem_map.1 (hs.subset hmem)
  obtain ⟨step, inView, span, hspan, heq⟩ := hp p hpair
  refine ⟨step, inView, span, hspan, hd.subset ?_⟩
  rw [← heq]
  exact List.mem_map_of_mem hpair

namespace ResolveState

/-- The streams are reported between the two states. -/
def Accounts (st st' : ResolveState) (streams : List (List Span)) : Prop :=
  ∃ new, st'.diagnostics = st.diagnostics ++ new ∧ Reported streams new

theorem Accounts.nil {st st' : ResolveState} (h : Leads st st') : Accounts st st' [] := by
  obtain ⟨new, hnew, -⟩ := h.diagnostics
  exact ⟨new, hnew, .nil new⟩

theorem Accounts.append {a b c : ResolveState} {streams streams' : List (List Span)}
    (h : Accounts a b streams) (h' : Accounts b c streams') :
    Accounts a c (streams ++ streams') := by
  obtain ⟨new, hb, hr⟩ := h
  obtain ⟨new', hc, hr'⟩ := h'
  exact ⟨new ++ new', by rw [hc, hb, List.append_assoc], hr.append hr'⟩

theorem Accounts.mono {st st' : ResolveState} {streams streams' : List (List Span)}
    (h : Accounts st st' streams) (hs : streams'.Subperm streams) : Accounts st st' streams' := by
  obtain ⟨new, hnew, hr⟩ := h
  exact ⟨new, hnew, hr.mono hs (.refl _)⟩

end ResolveState

theorem accounts_ledger :
    Ledger streamSpans (fun _ => []) (fun spans => [spans]) ResolveState.Accounts where
  toCarried := streamSpans_carried
  bare n h := by
    obtain ⟨span, ty, kind⟩ := n
    cases kind
    case name | call => rfl
    all_goals simp [Node.label, Kind.label] at h
  stream span ty steps := rfl
  nothing := ResolveState.Accounts.nil
  append := ResolveState.Accounts.append
  mono := ResolveState.Accounts.mono
  scopes _ _ h := h
  missed := by
    intro st step inView span spans hspan
    exact ⟨[_], rfl, .singleton hspan (List.mem_cons_self ..)⟩
  candidate st t := ⟨[], (List.append_nil _).symm, .nil []⟩
  elements st m hm := by
    have none : Lower.elements (fun _ => ([] : List (List Span))) st.nextFresh m = [] := by
      simp [Lower.elements]
    rw [none]
    exact ⟨[], (List.append_nil _).symm, .nil []⟩

/-- What a resolution leaves of streams is reported while it runs. -/
theorem tree_accounts {cx : Context} (hp : cx.navigators.Provided) (n : Node) :
    Resolve.Telling streamSpans ResolveState.Accounts (Resolve.tree cx n) := by
  refine Resolve.tree_tells accounts_ledger hp n fun c _ hlabel => ?_
  obtain ⟨span, ty, kind⟩ := c
  cases kind
  case pipe | letIn | localDecl => rfl
  all_goals simp [Node.label, Kind.label] at hlabel

/-- The report of a bare name or call. -/
def bareReport (n : Node) : List Diagnostic :=
  match n.kind with
  | .name x => [.unresolvedName x n.span]
  | .call x args => [.unresolvedMethod x args.length n.span]
  | _ => []

/-- Whether the diagnostic is about a bare name or call. -/
def Diagnostic.isBare : Diagnostic → Bool
  | .unresolvedName _ _ | .unresolvedMethod _ _ _ => true
  | _ => false

theorem own_isBare (n : Node) : (Leftover.own n).filter (·.isBare) = bareReport n := by
  obtain ⟨span, ty, kind⟩ := n
  cases kind
  case binary op lhs rhs =>
    simp only [Leftover.own, bareReport]
    split <;> rfl
  all_goals rfl

theorem filter_isBare_of_isStep {ds : List Diagnostic} (h : ∀ d ∈ ds, d.IsStep) :
    ds.filter (·.isBare) = [] := by
  rw [List.filter_eq_nil_iff]
  intro d hd
  obtain ⟨_, _, _, rfl⟩ := h d hd
  simp [Diagnostic.isBare]

theorem filter_isBare_of_isReturn {ds : List Diagnostic} (h : ∀ d ∈ ds, d.IsReturn) :
    ds.filter (·.isBare) = [] := by
  rw [List.filter_eq_nil_iff]
  intro d hd
  rcases h d hd with ⟨_, _, _, _, rfl⟩ | ⟨_, _, _, rfl⟩ <;> simp [Diagnostic.isBare]

/-- An error keeps code from being made. -/
theorem Analysis.not_canEmit {a : Analysis} {d : Diagnostic} (hd : d ∈ a.diagnostics)
    (he : d.isError = true) : a.canEmit = false := by
  unfold canEmit
  rw [Bool.not_eq_false']
  exact List.any_eq_true.2 ⟨d, hd, he⟩

theorem mem_visible_stream {n m : Node} (hm : m ∈ n.visible) (hs : m.label = "Stream") :
    ∃ spans, spans ∈ n.abandoned := by
  obtain ⟨span, ty, kind⟩ := m
  cases kind
  case stream steps =>
    exact ⟨steps.map (·.span), List.mem_flatMap.2 ⟨_, hm, List.mem_singleton.2 rfl⟩⟩
  all_goals simp [Node.label, Kind.label] at hs

/-- Nothing that an analysis leaves open goes untold. -/
structure Analysis.Candid (a : Analysis) : Prop where
  /-- Code is only made from a tree that is resolved at every depth. -/
  emission : a.canEmit = true → ∀ n ∈ a.root.nodes, n.label ∉ ["Stream", "Name", "Call"] ∧
    ∀ op lhs rhs, n.kind = .binary op lhs rhs → lhs.ty.isSome → rhs.ty.isSome → n.ty.isSome
  /-- Each bare name and call outside streams is reported once, in order. -/
  bare : a.diagnostics.filter (·.isBare) = a.root.visible.flatMap bareReport
  /-- Each outermost stream has a report of its own. -/
  streams : Reported a.root.abandoned a.diagnostics

/-- Each stream that an analysis leaves is reported. -/
theorem analysis_reported {s : Setup} (hs : s.Installed) {operators : OperatorTable}
    {env : Environment} {root : Node} {a : Analysis}
    (h : analyze (s.context operators env) root = .ok a) :
    Reported a.root.abandoned a.diagnostics := by
  obtain ⟨navigated, ds, hnav, hroot, new, hnew, hds⟩ := analyze_ok h
  obtain ⟨st', hrun, hst⟩ := Resolve.resolveNavigation_ok hnav
  have hplain := Resolve.initialScopes_plain streamSpans_carried env root
  obtain ⟨found, hfound, hr⟩ := tree_accounts hs.provided root hplain hrun
  rw [hroot, settle_abandoned]
  refine hr.mono (.refl _) ?_
  rw [hds, hst, hfound]
  simpa using (List.sublist_append_left found _).subperm

theorem Analysis.no_error {a : Analysis} (emits : a.canEmit = true) {d : Diagnostic}
    (hd : d ∈ a.diagnostics) : d.isError ≠ true := by
  intro he
  rw [Analysis.not_canEmit hd he] at emits
  cases emits

/-- Where code can be made no stream is left. -/
theorem Analysis.no_stream {a : Analysis} (reported : Reported a.root.abandoned a.diagnostics)
    (emits : a.canEmit = true) : ∀ n ∈ a.root.visible, n.label ≠ "Stream" := by
  intro n hn hstream
  obtain ⟨spans, hspans⟩ := mem_visible_stream hn hstream
  obtain ⟨step, inView, span, -, hd⟩ := reported.exists hspans
  exact Analysis.no_error emits hd rfl

/-- What a visible node is left open for is told. -/
theorem analysis_told {cx : Context} {root : Node} {a : Analysis} (h : analyze cx root = .ok a)
    {n : Node} (hn : n ∈ a.root.visible) {d : Diagnostic} (hd : d ∈ Leftover.own n) :
    d ∈ a.diagnostics := by
  obtain ⟨navigated, ds, -, -, new, -, hds⟩ := analyze_ok h
  rw [hds]
  refine List.mem_append_right _ ?_
  rw [leftovers_eq]
  exact List.mem_flatMap.2 ⟨n, hn, hd⟩

/-- A tree that code can be made from is resolved at every depth. -/
theorem analysis_resolved {s : Setup} (hs : s.Installed) {operators : OperatorTable}
    {env : Environment} {root : Node} {a : Analysis}
    (h : analyze (s.context operators env) root = .ok a) (emits : a.canEmit = true) :
    ∀ n ∈ a.root.nodes, n.label ∉ ["Stream", "Name", "Call"] := by
  have noStream := Analysis.no_stream (analysis_reported hs h) emits
  rw [← Node.visible_eq_nodes noStream]
  intro n hn hlabel
  have noError {d : Diagnostic} (hd : d ∈ Leftover.own n) : d.isError ≠ true :=
    Analysis.no_error emits (analysis_told h hn hd)
  have hstream := noStream n hn
  obtain ⟨span, ty, kind⟩ := n
  simp only [List.mem_cons, List.not_mem_nil, or_false] at hlabel
  rcases hlabel with hlabel | hlabel | hlabel
  · exact hstream hlabel
  · cases kind
    case name x => exact noError (List.mem_singleton.2 rfl) rfl
    all_goals simp [Node.label, Kind.label] at hlabel
  · cases kind
    case call x args => exact noError (List.mem_singleton.2 rfl) rfl
    all_goals simp [Node.label, Kind.label] at hlabel

/-- Every analysis with the standard navigators and those of manifests is candid. -/
theorem analysis_candid {s : Setup} (hs : s.Installed) {operators : OperatorTable}
    {env : Environment} {root : Node} {a : Analysis}
    (h : analyze (s.context operators env) root = .ok a) : a.Candid := by
  obtain ⟨navigated, ds, hnav, hroot, new, hnew, hds⟩ := analyze_ok h
  have hreported := analysis_reported hs h
  refine ⟨fun hemit => ?_, ?_, hreported⟩
  · have noStream := Analysis.no_stream hreported hemit
    intro n hn
    refine ⟨analysis_resolved hs h hemit n hn, ?_⟩
    rw [← Node.visible_eq_nodes noStream] at hn
    obtain ⟨span, ty, kind⟩ := n
    rintro op lhs rhs rfl hl hr
    obtain ⟨left, hl⟩ := Option.isSome_iff_exists.1 hl
    obtain ⟨right, hr⟩ := Option.isSome_iff_exists.1 hr
    cases ty with
    | some ty => rfl
    | none =>
      have told : .unresolvedOperator op left right span ∈ a.diagnostics :=
        analysis_told h hn (by simp [Leftover.own, hl, hr])
      exact absurd rfl (Analysis.no_error hemit told)
  · rw [hds, List.filter_append, List.filter_append,
      filter_isBare_of_isStep (Resolve.resolveNavigation_steps hnav),
      filter_isBare_of_isReturn hnew, leftovers_eq]
    unfold Node.gather
    rw [List.filter_flatMap]
    simp only [own_isBare, List.nil_append]

/-- A stream and a name that no scope knows. -/
def unknownScript : Node :=
  .ofKind (.script [.ofKind (.stream [{ axis := .child, test := .name "x" }]), .ofKind (.name "y")])

/-- Both are left, and both are reported. -/
theorem analysis_candid_unknown :
    let a : Analysis :=
      ⟨unknownScript,
        [.unresolvedStep "child::x" none .synthetic, .unresolvedName "y" .synthetic]⟩
    analyze ((Setup.ofConfig {}).context .standard {}) unknownScript = .ok a ∧ a.Candid := by
  intro a
  have h : analyze ((Setup.ofConfig {}).context .standard {}) unknownScript = .ok a := rfl
  exact ⟨h, analysis_candid (.ofConfig {}) h⟩

end NavScript
