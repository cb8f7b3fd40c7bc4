import NavScript.Proofs.Reached
import NavScript.Proofs.Surroundings

/-!
# Navigations give what they read as

A navigation over expressions that is lowered gives on the machine what its links read as, in every world
of typed values, and it has a value if its arguments have values and its conditions decide
(`navigation_performs`). The exception is a condition on elements that can be null although their type is
primitive: lowering takes such elements for values of that type, and asks the condition of null too.
-/

namespace NavScript

open Machine Lower

variable {isA : Ty → Value → Prop} {W : World} {locals : List (String × Value)}

/-- The node does on the machine what the links say. -/
structure Performs (isA : Ty → Value → Prop) (classes : ClassTable) (W : World)
    (locals : List (String × Value)) (links : List Link) (n : Node) : Prop where
  gives : Gives W locals n [] (performance W locals links)
  reads (seen : overlooked links = false) : Gives W locals n [] (reading W locals links)
  done (seen : overlooked links = false)
    (decided : ∀ link ∈ links, link.Decided isA classes W locals) : ∃ v, v ∈ reading W locals links

theorem Performs.withSpan {classes : ClassTable} {links : List Link} {n : Node}
    (h : Performs isA classes W locals links n) (span : Span) :
    Performs isA classes W locals links (n.withSpan span) := by
  have same (o : Attempt Access Value) (gives : Gives W locals n [] o) :
      Gives W locals (n.withSpan span) [] o := by
    unfold Gives
    rw [exec_withSpan]
    exact gives
  exact ⟨same _ h.gives, fun seen => same _ (h.reads seen), h.done⟩

namespace Resolve

variable {cx : Context} {span : Span} {ty : Option Ty} {steps : List (Step Node)} {scopes : Scopes}
  {st st' : ResolveState}

section

variable {first : Step Node} {expr : Node} {t : Ty} {rest : List Link}

/-- The answer at the head is one that a navigation can start with. -/
theorem Parts.head (h : Parts cx scopes first expr t rest) (hp : cx.navigators.Provided) {next : Nat}
    (sound : scopes.Sound next) (hW : W.WellTyped isA cx.classes) (hold : scopes.Hold isA W locals) :
    Head isA W locals expr t ∧ ((∀ a ∈ expr.arguments, ∃ v, v ∈ W.evaluate locals a) →
      ∃ v, v ∈ W.evaluate locals expr) := by
  obtain ⟨o, gives, typed, done⟩ :=
    hold.head hW hp sound (fun a ha => ((h.args a ha).closed locals).1) h.answer h.typed
  obtain rfl := gives.evaluate
  exact ⟨⟨h.typed, gives, typed⟩, done⟩

theorem Parts.performs (h : Parts cx scopes first expr t rest) (hp : cx.navigators.Provided)
    {next : Nat} (sound : scopes.Sound next) {b : Bool} {made : Node} {i m : Nat}
    (makes : Makes (scalar b [] (.step expr t :: rest)) i made m) (hW : W.WellTyped isA cx.classes)
    (hold : scopes.Hold isA W locals) :
    Performs isA cx.classes W locals (.step expr t :: rest) made := by
  obtain ⟨head, valued⟩ := h.head hp sound hW hold
  have ready : Ready cx.classes W locals (.behind t rest) rest :=
    ⟨h.fit, fun l hl => (h.standalone l hl).closed W locals⟩
  obtain ⟨made', m', makes', gives⟩ := lowering_performs (b := b) hW head ready i
  obtain ⟨rfl, -⟩ := Prod.mk.inj (Except.ok.inj (makes.symm.trans makes'))
  refine ⟨gives, fun seen => ?_, fun seen decided => ?_⟩
  · rw [← performance_eq seen]
    exact gives
  · obtain ⟨args, others⟩ := List.forall_mem_cons.1 decided
    obtain ⟨v, hv⟩ := valued args
    exact reading_done hW head h.fit hv others seen

end

/-- In a sound state a stream stays for a link that is missed, or it becomes what performs its links. -/
theorem stream_performs (hp : cx.navigators.Provided) {n : Node}
    (written : Node.Written ⟨span, ty, .stream steps⟩) (sound : st.Sound)
    (h : Yields (tree cx ⟨span, ty, .stream steps⟩) st n st') :
    (n.label = "Stream" ∧ Misses cx (steps.map (·.map (pending cx))) st st') ∨
      ∃ links, Navigates cx span (steps.map (·.map (pending cx))) st links n st' ∧
        ∀ {isA W locals}, W.WellTyped isA cx.classes → st.scopes.Hold isA W locals →
          Performs isA cx.classes W locals links n := by
  have each : ∀ c ∈ (Kind.stream steps).children, Standalone cx c := fun c hc =>
    tree_standalone hp c (written.child hc)
  rw [tree_mk] at h
  obtain ⟨-, stays | ⟨head, expr, t, rest, navigates, parts⟩⟩ := stream_parts hp each sound h
  · exact .inl stays
  · refine .inr ⟨_, navigates, fun hW hold => ?_⟩
    cases navigates with
    | lowered _ _ makes => exact (parts.performs hp sound makes hW hold).withSpan span

theorem Standalone.keeps {c : Node} (h : Standalone cx c) :
    Keeping (SoundIn scopes) (tree cx c) := by
  rintro st n st' run ⟨rfl, sound⟩
  obtain ⟨same, -⟩ := h sound run
  exact ⟨same, ResolveState.Sound.later sound same (tree_leads c run).fresh⟩

/-- What is around a part of a navigation: what is around the whole, and the candidate of the condition
that it is. -/
theorem stream_parts_hold (hp : cx.navigators.Provided) {n : Node}
    (written : Node.Written ⟨span, ty, .stream steps⟩) (sound : st.Sound)
    (h : Yields (tree cx ⟨span, ty, .stream steps⟩) st n st') (hold : st.scopes.Hold isA W locals) :
    ∀ w ∈ parts cx ⟨st, span, ty, .stream steps⟩, w.state.scopes.Hold isA W locals ∨
      ∃ k t, ∀ v, (t.isPrimitive = false → Typed isA t v ∧ v.isNull = false) →
        w.state.scopes.Hold isA W ((freshName "p" k, v) :: locals) := by
  intro w hw
  have keeps : ∀ c ∈ (Kind.stream steps).children, Keeping (SoundIn st.scopes) (tree cx c) ∧
      ∀ candidate, Keeping (SoundIn st.scopes) (predicate candidate (pending cx c)) := fun c hc =>
    have standalone := tree_standalone hp c (written.child hc)
    ⟨standalone.keeps, predicate_soundIn standalone _⟩
  obtain ⟨-, ⟨same, -⟩ | ⟨t, mid, ⟨same, midSound⟩, heq⟩⟩ :=
    stream_parts_good keeps ⟨rfl, sound⟩ h w hw
  · rw [same]
    exact .inl hold
  · refine .inr ⟨mid.nextFresh, t, fun v typed => ?_⟩
    rw [heq]
    rw [← same] at hold
    exact hold.candidate midSound typed

/-- In a script of the front end every navigation over expressions that is visited stays, for a link that
is missed, or it becomes what performs its links wherever values are as the scopes take them to be. Its
arguments and conditions are in such surroundings again. -/
theorem navigation_performs {s : Setup} (hs : s.Installed) {operators : OperatorTable} {env : Environment}
    {root root' : Node} {ds : List Diagnostic} (front : root.FrontEnd)
    (h : resolveNavigation (s.context operators env) root = (.ok root', ds)) {v : Visit}
    (visited : Visited (s.context operators env) root v) {steps : List (Step Node)}
    (navigation : v.node.kind = .stream steps) (written : v.node.Written) :
    let cx := s.context operators env
    let pendings := steps.map (·.map (pending cx))
    ∃ n last, Yields (tree cx v.node) v.state n last ∧
      ((n.label = "Stream" ∧ Misses cx pendings v.state last) ∨
      ∃ links, Navigates cx v.node.span pendings v.state links n last ∧
        ∀ {isA W locals}, W.WellTyped isA s.classes → v.state.scopes.Hold isA W locals →
          Performs isA s.classes W locals links n ∧
          ∀ w ∈ parts cx v, w.state.scopes.Hold isA W locals ∨
            ∃ k t, ∀ u, (t.isPrimitive = false → Typed isA t u ∧ u.isNull = false) →
              w.state.scopes.Hold isA W ((freshName "p" k, u) :: locals)) := by
  intro cx pendings
  obtain ⟨last, hroot, -⟩ := resolveNavigation_ok h
  obtain ⟨⟨n, last, run⟩, -⟩ := visited.run hroot
  have sound : v.state.Sound := (visited.sound hs.provided front hroot).2
  obtain ⟨st, span, ty, kind⟩ := v
  obtain rfl : kind = .stream steps := navigation
  refine ⟨n, last, run, ?_⟩
  rcases stream_performs hs.provided written sound run with stays | ⟨links, navigates, performs⟩
  · exact .inl stays
  · refine .inr ⟨links, navigates, fun hW hold => ⟨performs hW hold, ?_⟩⟩
    exact stream_parts_hold hs.provided written sound run hold

/-- A world around a list, in which each member holds nothing. -/
def listWorld (items : List Value) : World where
  this := .list items
  read _ _ := some (.list [])
  call _ _ _ := some (.list [])
  operate _ _ _ := none
  compute _ _ _ := none

/-- Where all values are of all classes, nothing is of every type. -/
theorem typed_nothing (t : Ty) : Typed (fun _ _ => True) t (.list []) := by
  cases he : t.element? with
  | none => exact .single rfl he trivial
  | some elem => exact .multi he rfl fun _ hi => absurd hi List.not_mem_nil

theorem listWorld_wellTyped (items : List Value) (classes : ClassTable) :
    (listWorld items).WellTyped (fun _ _ => True) classes where
  this_nonNull := rfl
  boxes _ := trivial
  types _ := trivial
  reads _ _ _ := ⟨_, rfl, typed_nothing _⟩
  calls _ _ _ := ⟨_, rfl, typed_nothing _⟩

def textsContext : Context :=
  (Setup.ofConfig {}).context .standard { binding := .generic "List" .string }

/-- What is around a script over texts. -/
theorem texts_hold (items : List Value) (root : Node) :
    (initialScopes textsContext.env root).Hold (fun _ _ => True) (listWorld items) [] := by
  refine initialScopes_hold rfl (.multi rfl rfl fun i _ => ?_) (fun _ ht => by cases ht)
    fun _ => ⟨_, rfl, typed_nothing _⟩
  cases hi : i.isNull with
  | true =>
    rw [Value.eq_null hi]
    exact .null rfl
  | false => exact .single hi rfl trivial

/-- The navigation over texts has the links, and becomes the node. -/
def Textual (steps : List (Step Node)) (links : List Link) (n : Node) : Prop :=
  resolveNavigation textsContext (.ofKind (.stream steps)) = (.ok n, []) ∧
    ∃ last, Navigates textsContext .synthetic (steps.map (·.map (pending textsContext)))
      { scopes := initialScopes textsContext.env (.ofKind (.stream steps)) } links n last

theorem Textual.performs {steps : List (Step Node)} {links : List Link} {n : Node}
    (h : Textual steps links n) (written : Node.Written (.ofKind (.stream steps)))
    (items : List Value) :
    Performs (fun _ _ => True) textsContext.classes (listWorld items) [] links n := by
  obtain ⟨run, last, navigates⟩ := h
  obtain ⟨_, hroot, -⟩ := resolveNavigation_ok run
  have provided := (Setup.Installed.ofConfig {}).provided
  rcases stream_performs provided written (initialScopes_sound ..) hroot with
    ⟨-, missed⟩ | ⟨links', navigates', performs⟩
  · exact absurd missed navigates.not_misses
  · obtain rfl := navigates.unique navigates'
    exact performs (listWorld_wellTyped _ _) (texts_hold _ _)

/-- The lengths of the texts of which a condition holds. -/
def textLengths : List (Step Node) :=
  [{ axis := .self, test := .self, predicates := [.ofLiteral (.bool true)] },
   { axis := .child, test := .call "length" [] }]

/-- Of a text and null the length of the text is asked for. -/
theorem navigation_performs_texts : ∃ links n, Textual textLengths links n ∧
    Performs (fun _ _ => True) textsContext.classes (listWorld [.lit (.string "a"), .null]) [] links n ∧
    overlooked links = false ∧
    reading (listWorld [.lit (.string "a"), .null]) [] links =
      .done (.seq [.list []]) {⟨.lit (.string "a"), "length()"⟩} := by
  have computed : ∃ links n, Textual textLengths links n ∧
      overlooked links = false ∧ reading (listWorld [.lit (.string "a"), .null]) [] links =
        .done (.seq [.list []]) {⟨.lit (.string "a"), "length()"⟩} :=
    ⟨_, _, ⟨rfl, _, .lowered rfl rfl rfl⟩, rfl, rfl⟩
  obtain ⟨links, n, ⟨h, last, navigates⟩, seen, value⟩ := computed
  refine ⟨links, n, ⟨h, last, navigates⟩, ?_, seen, value⟩
  have front : Node.FrontEnd (.ofKind (.stream textLengths)) := ⟨by decide, by decide, by decide⟩
  have written : Node.Written (.ofKind (.stream textLengths)) := by
    unfold Node.Written
    decide
  obtain ⟨n', last', run, other⟩ := navigation_performs (.ofConfig {}) front h .root rfl written
  obtain ⟨_, hroot, -⟩ := resolveNavigation_ok h
  obtain ⟨rfl, rfl⟩ := hroot.unique run
  rcases other with ⟨-, missed⟩ | ⟨links', navigates', performs⟩
  · exact absurd missed navigates.not_misses
  · obtain rfl := navigates.unique navigates'
    exact (performs (listWorld_wellTyped _ _) (texts_hold _ _)).1

/-- The lengths of texts, collected, and of these the ones of which a condition holds. -/
def collectedLengths : List (Step Node) :=
  [{ axis := .self, test := .self }, { axis := .child, test := .call "length" [] },
   { axis := .child, test := .reduction .array },
   { axis := .self, test := .self, predicates := [.ofLiteral (.bool true)] }]

/-- The length of a null text is null. It passes the condition on the machine, although a condition keeps
elements that are not null. -/
theorem navigation_misreads_lengths :
    Node.FrontEnd (.ofKind (.stream collectedLengths)) ∧
      Node.Written (.ofKind (.stream collectedLengths)) ∧
      (listWorld [.null]).WellTyped (fun _ _ => True) textsContext.classes ∧
      (initialScopes textsContext.env (.ofKind (.stream collectedLengths))).Hold (fun _ _ => True)
        (listWorld [.null]) [] ∧
      ∃ links n, Textual collectedLengths links n ∧
        (listWorld [.null]).evaluate [] n = pure (.seq [.null]) ∧
        reading (listWorld [.null]) [] links = pure (.seq []) := by
  have front : Node.FrontEnd (.ofKind (.stream collectedLengths)) := ⟨by decide, by decide, by decide⟩
  have written : Node.Written (.ofKind (.stream collectedLengths)) := by
    unfold Node.Written
    decide
  have computed : ∃ links n, Textual collectedLengths links n ∧
      performance (listWorld [.null]) [] links = pure (.seq [.null]) ∧
      reading (listWorld [.null]) [] links = pure (.seq []) :=
    ⟨_, _, ⟨rfl, _, .lowered rfl rfl rfl⟩, rfl, rfl⟩
  obtain ⟨links, n, textual, performed, read⟩ := computed
  have performs := textual.performs written [.null]
  exact ⟨front, written, listWorld_wellTyped _ _, texts_hold _ _, links, n, textual,
    performs.gives.evaluate.trans performed, read⟩

end Resolve

end NavScript
