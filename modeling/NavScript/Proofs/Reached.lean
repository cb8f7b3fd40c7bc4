import NavScript.Proofs.Surveyed
import NavScript.Proofs.Visits

/-!
# The states of visits

What the resolution of each node keeps of a state is so at each visit of a node below (`visits_good`,
`linkVisits_good`); a condition is visited with its candidate in scope. So every visit in the resolution of
a tree of the front end starts in a sound state (`Visited.sound`).
-/

namespace NavScript

namespace Resolve

variable {cx : Context} {good : ResolveState → Prop} {st st' : ResolveState}

theorem visits_good {ns ns' : List Node} (keeps : ∀ n ∈ ns, Keeping good (tree cx n)) (start : good st)
    (h : Yields (ns.mapM (tree cx)) st ns' st') :
    ∀ w ∈ visits cx st ns, w.node ∈ ns ∧ good w.state := by
  induction ns generalizing ns' st with
  | nil => exact fun w hw => absurd hw List.not_mem_nil
  | cons n rest ih =>
    obtain ⟨n', mid, rest', hn, hrest, -⟩ := yields_mapM_cons.1 h
    intro w hw
    rw [visits, hn.after] at hw
    rcases List.mem_cons.1 hw with rfl | hw
    · exact ⟨List.mem_cons_self .., start⟩
    · have later := keeps n (List.mem_cons_self ..) hn start
      obtain ⟨mem, hgood⟩ := ih (fun m hm => keeps m (List.mem_cons_of_mem _ hm)) later hrest w hw
      exact ⟨List.mem_cons_of_mem _ mem, hgood⟩

/-- The visit is of a condition, with the candidate in scope of a good state. -/
def Conditioned (good : ResolveState → Prop) (conditions : List Pending) (w : Visit) : Prop :=
  (∃ p ∈ conditions, w.node = p.written) ∧ ∃ t st, good st ∧ w.state = candidateState t st

theorem Conditioned.among {conditions others : List Pending} {w : Visit}
    (h : Conditioned good conditions w) (sub : conditions ⊆ others) : Conditioned good others w := by
  obtain ⟨⟨p, mem, heq⟩, reached⟩ := h
  exact ⟨⟨p, sub mem, heq⟩, reached⟩

theorem conditionVisits_good {candidate : Ty} {ps : List Pending} {links : List Link}
    (keeps : ∀ p ∈ ps, Keeping good (predicate candidate p)) (start : good st)
    (h : Yields (ps.mapM (predicate candidate)) st links st') :
    ∀ w ∈ conditionVisits candidate st ps, Conditioned good ps w := by
  induction ps generalizing links st with
  | nil => exact fun w hw => absurd hw List.not_mem_nil
  | cons p rest ih =>
    obtain ⟨link, mid, links, hp, hrest, -⟩ := yields_mapM_cons.1 h
    intro w hw
    rw [conditionVisits, hp.after] at hw
    rcases List.mem_cons.1 hw with rfl | hw
    · exact ⟨⟨p, List.mem_cons_self .., rfl⟩, candidate, st, start, rfl⟩
    · have later := keeps p (List.mem_cons_self ..) hp start
      exact (ih (fun q hq => keeps q (List.mem_cons_of_mem _ hq)) later hrest w hw).among
        (List.subset_cons_self ..)

theorem linkVisits_good {hops : List Hop} {view : View} {found : Option (List Link)}
    (keeps : ∀ h ∈ hops, ∀ p ∈ h.predicates, ∀ candidate, Keeping good (predicate candidate p))
    (start : good st) (h : Yields (links cx.lookup view hops) st found st') :
    ∀ w ∈ linkVisits cx.lookup view st hops, Conditioned good (hops.flatMap (·.predicates)) w := by
  induction hops generalizing view found st with
  | nil => exact fun w hw => absurd hw List.not_mem_nil
  | cons hop rest ih =>
    intro w hw
    rw [linkVisits] at hw
    rcases yields_links_cons.1 h with ⟨hl, -, -⟩ | ⟨link, cs, mid, others, hl, hc, ho, -⟩
    · rw [link?_run hl] at hw
      exact absurd hw List.not_mem_nil
    · simp only [link?_run hl, hc.after] at hw
      have here := keeps hop (List.mem_cons_self ..)
      rw [List.flatMap_cons]
      rcases List.mem_append.1 hw with hw | hw
      · exact (conditionVisits_good (fun p hp => here p hp _) start hc w hw).among
          (List.subset_append_left ..)
      · have later := Keeping.mapM (fun p hp => here p hp _) hc start
        exact (ih (fun h hh => keeps h (List.mem_cons_of_mem _ hh)) later ho w hw).among
          (List.subset_append_right ..)

variable {span : Span} {ty : Option Ty} {steps : List (Step Node)}

/-- The arguments of a stream are visited in good states, and its conditions with a candidate in scope. -/
theorem stream_parts_good {n : Node}
    (keeps : ∀ c ∈ (Kind.stream steps).children,
      Keeping good (tree cx c) ∧ ∀ candidate, Keeping good (predicate candidate (pending cx c)))
    (start : good st) (h : Yields (tree cx ⟨span, ty, .stream steps⟩) st n st') :
    ∀ w ∈ parts cx ⟨st, span, ty, .stream steps⟩, w.node ∈ (Kind.stream steps).children ∧
      (good w.state ∨ ∃ t mid, good mid ∧ w.state = candidateState t mid) := by
  rw [tree_mk] at h
  obtain ⟨-, hops, mid, found, last, hh, hl, -⟩ := yields_stream.1 h
  obtain ⟨⟨args, hargs⟩, -⟩ := hops_run hh
  have arguments : ∀ c ∈ steps.flatMap (·.test.children), c ∈ (Kind.stream steps).children :=
    fun c hc => mem_children_of_argument hc
  have conditions := hops_pending hh
  intro w hw
  simp only [parts] at hw
  rw [show ((steps.map (·.map (pending cx))).mapM hop).run st = _ from hh, hh.after] at hw
  rcases List.mem_append.1 hw with hw | hw
  · obtain ⟨mem, reached⟩ := visits_good (fun c hc => (keeps c (arguments c hc)).1) start hargs w hw
    exact ⟨arguments _ mem, .inl reached⟩
  · have midGood : good mid := Keeping.mapM (fun c hc => (keeps c (arguments c hc)).1) hargs start
    obtain ⟨⟨p, hp, heq⟩, reached⟩ := linkVisits_good (fun h hmem p hp candidate => by
      obtain ⟨c, hc, rfl⟩ := conditions h hmem p hp
      exact (keeps c hc).2 candidate) midGood hl w hw
    obtain ⟨h, hmem, hp⟩ := List.mem_flatMap.1 hp
    obtain ⟨c, hc, rfl⟩ := conditions h hmem p hp
    rw [heq]
    exact ⟨hc, .inr reached⟩

/-- The parts of a visit are its children, visited in states that are good if that of the visit is. -/
theorem parts_good {v : Visit} {n : Node}
    (keeps : ∀ c ∈ v.node.kind.children,
      Keeping good (tree cx c) ∧ ∀ candidate, Keeping good (predicate candidate (pending cx c)))
    (start : good v.state) (body : ∀ d, v.node.kind = .methodDecl d → good (bodyState d.params v.state))
    (candidate : ∀ t st, good st → good (candidateState t st))
    (h : Yields (tree cx v.node) v.state n st') :
    ∀ w ∈ parts cx v, w.node ∈ v.node.kind.children ∧ good w.state := by
  obtain ⟨st, span, ty, kind⟩ := v
  have listed {a b : ResolveState} {ns : List Node} (start : good a)
      (run : Yields (kind.children.mapM (tree cx)) a ns b) :
      ∀ w ∈ visits cx a kind.children, w.node ∈ kind.children ∧ good w.state :=
    visits_good (fun c hc => (keeps c hc).1) start run
  cases nodeRun h with
  | stream =>
    intro w hw
    obtain ⟨mem, reached⟩ := stream_parts_good keeps start h w hw
    refine ⟨mem, ?_⟩
    rcases reached with reached | ⟨t, mid, reached, heq⟩
    · exact reached
    · rw [heq]
      exact candidate t mid reached
  | name => exact fun w hw => absurd hw List.not_mem_nil
  | call hargs => exact listed start hargs
  | methodDecl run =>
    obtain ⟨mid, top, rest, hbody, -, -⟩ := yields_inScope.1 run
    exact listed (body _ rfl) hbody
  | localDecl =>
    intro w hw
    rw [List.mem_singleton.1 hw]
    exact ⟨List.mem_singleton.2 rfl, start⟩
  | script run => exact listed start run
  | children other run =>
    simp only [List.mem_cons, List.not_mem_nil, or_false, not_or] at other
    rw [parts_of_children (by simp [other])]
    exact listed start (runs.runs_children run).1

theorem tree_keeps_sound (hp : cx.navigators.Provided) {n : Node} (front : n.FrontEnd) :
    Keeping ResolveState.Sound (tree cx n) := fun _ _ _ h sound => (tree_surveys id hp n front sound h).1

theorem predicate_keeps_sound (hp : cx.navigators.Provided) {n : Node} (front : n.FrontEnd)
    (candidate : Ty) : Keeping ResolveState.Sound (predicate candidate (pending cx n)) :=
  fun st _ _ h sound =>
    (predicate_keeps (tree_surveys id hp n front) st.scopes candidate h ⟨sound, .refl _⟩).1

theorem parts_sound (hp : cx.navigators.Provided) {v : Visit} {n : Node} (front : v.node.FrontEnd)
    (sound : v.state.Sound) (h : Yields (tree cx v.node) v.state n st') :
    ∀ w ∈ parts cx v, w.node ∈ v.node.kind.children ∧ w.state.Sound := by
  obtain ⟨st, span, ty, kind⟩ := v
  have keeps : ∀ c ∈ kind.children, Keeping ResolveState.Sound (tree cx c) ∧
      ∀ candidate, Keeping ResolveState.Sound (predicate candidate (pending cx c)) := fun c hc =>
    ⟨tree_keeps_sound hp (front.child hc), predicate_keeps_sound hp (front.child hc)⟩
  refine parts_good keeps sound ?_ (fun t _ good => good.candidate t) h
  rintro d rfl
  refine Scopes.Sound.method (fun l hl => ?_) sound
  obtain ⟨p, hp, rfl⟩ := List.mem_map.1 (List.mem_reverse.1 hl)
  exact front.names _ (Node.mem_nodes_self _) p.name (List.mem_map_of_mem hp)

/-- In the resolution of a tree of the front end each node is visited in a sound state. -/
theorem Visited.sound (hp : cx.navigators.Provided) {root root' : Node} (front : root.FrontEnd)
    (hroot : Yields (tree cx root) { scopes := initialScopes cx.env root } root' st') {v : Visit}
    (h : Visited cx root v) : v.node.FrontEnd ∧ v.state.Sound := by
  induction h with
  | root => exact ⟨front, initialScopes_sound ..⟩
  | @part v w above mem ih =>
    obtain ⟨⟨n, last, run⟩, -⟩ := above.run hroot
    obtain ⟨child, sound⟩ := parts_sound hp ih.1 ih.2 run w mem
    obtain ⟨st, span, ty, kind⟩ := v
    exact ⟨ih.1.child child, sound⟩

end Resolve

end NavScript
