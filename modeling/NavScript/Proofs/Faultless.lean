import NavScript.Proofs.Chains
import NavScript.Proofs.Passes
import NavScript.Proofs.Views

/-!
# No analysis ends in a fault

The forward phase and the lowering decide apart from each other where a value is multi-valued, and
the lowering ends in a fault where it finds less than the forward phase has promised. It never does:
links that go on from what is in view are lowered (`lowering_makes`), since the chain so far ends
multi-valued wherever the type in view is. So a tree whose streams have steps is resolved
(`tree_faultless`), if what navigators answer is typed, and the other passes have no faults.
-/

namespace NavScript

open Lower

/-- A step that has the type of its link. -/
def Stepping (_receiver : Ty) (expr : Node) (ty : Ty) : Prop := expr.ty = some ty

section

variable {b : Bool} {s : Sight} {rest : List Link}

/-- Behind a chain that ends multi-valued where the type in view is, the links are lowered. -/
def ScalarMakes (b : Bool) (links : List Link) : Prop :=
  ∀ (s : Sight) (chain : List Node) (ty : Ty) (n : Nat), s.streaming = false → Chained chain ty →
    (s.ty.isMultiValued = true → ty.isMultiValued = true) → Fit Stepping s links →
    ∃ made m, Makes (scalar b chain links) n made m ∧ made.ty.isSome

/-- Over a sequence the links are lowered. -/
def StreamMakes (b : Bool) (links : List Link) : Prop :=
  ∀ (s : Sight) (source : Source) (run : List Node) (n : Nat), s.streaming = true →
    source.node.ty.isSome → (∀ c ∈ run, c.ty.isSome) → Fit Stepping s links →
    ∃ made m, Makes (stream b source run links) n made m ∧ made.ty.isSome

theorem snoc_typed {chain : List Node} {expr : Node} (h : ∀ c ∈ chain, c.ty.isSome)
    (hexpr : expr.ty.isSome) : ∀ c ∈ chain ++ [expr], c.ty.isSome := by
  intro c hc
  rcases List.mem_append.1 hc with hc | hc
  · exact h c hc
  · rw [List.mem_singleton.1 hc]
    exact hexpr

/-- A tail behind a typed chain is closed with it. -/
theorem close_tail {chain : List Node} {tail : Node} (h : ∀ c ∈ chain, c.ty.isSome)
    (htail : tail.ty.isSome) : ∃ made, close b (chain ++ [tail]) = .ok made ∧ made.ty.isSome := by
  obtain ⟨tailTy, htail⟩ := Option.isSome_iff_exists.1 htail
  exact close_chained (Chained.snoc h htail)

theorem makes_flush_typed {source : Source} {run : List Node} (hsource : source.node.ty.isSome)
    (hrun : ∀ c ∈ run, c.ty.isSome) (n : Nat) :
    ∃ next m, Makes (flush b source run) n next m ∧ next.node.ty.isSome := by
  by_cases hne : run = []
  · exact ⟨source, n, makes_flush.2 (.inl ⟨hne, rfl, rfl⟩), hsource⟩
  · obtain ⟨ty, hty⟩ := Chained.of_typed hne hrun
    obtain ⟨body, hbody, htyped⟩ := guardLinks_chained (b := b)
      (hty.cons (n := .localOf (freshName "e" n) source.elem) rfl)
    obtain ⟨bodyTy, hbodyTy⟩ : ∃ bodyTy, body.ty = some bodyTy := by
      rcases htyped with h | h <;> exact ⟨_, h⟩
    exact ⟨_, _, makes_flush.2 (.inr ⟨hne, makes_stage.2 ⟨body, bodyTy, hbody, hbodyTy, rfl, rfl⟩⟩),
      rfl⟩

/-- A run that ends multi-valued is flattened. -/
theorem makes_flatMap_typed {run : List Node} {expr : Node} {ty : Ty}
    (hrun : ∀ c ∈ run, c.ty.isSome) (hty : expr.ty = some ty) (hmulti : ty.isMultiValued = true)
    (source : Source) (n : Nat) :
    ∃ next, Makes (stage b source (run ++ [expr]) true) n next (n + 1) ∧ next.node.ty.isSome := by
  obtain ⟨elem, helem⟩ := Option.isSome_iff_exists.1 hmulti
  obtain ⟨body, hbody, htyped⟩ := guardLinks_chained (b := b)
    ((Chained.snoc hrun hty).cons (n := .localOf (freshName "e" n) source.elem) rfl)
  rw [Ty.boxed_of_reference (Sight.reference_of_element helem), or_self] at htyped
  exact ⟨_, makes_stage.2 ⟨body, ty, hbody, htyped, rfl, elem, helem, rfl⟩, rfl⟩

/-- Behind a step the links go on over its elements or over its value. -/
theorem makes_step (scalarMakes : ScalarMakes b rest) (streamMakes : StreamMakes b rest)
    {chain : List Node} {expr : Node} (n : Nat) (hscalar : s.streaming = false)
    (htyped : ∀ c ∈ chain, c.ty.isSome) (hty : expr.ty = some s.ty)
    (fit : Fit Stepping (s.entered (!rest.isEmpty)) rest) :
    ∃ made m, Makes (scalar b chain (.step expr s.ty :: rest)) n made m ∧ made.ty.isSome := by
  have chained : Chained (chain ++ [expr]) s.ty := .snoc htyped hty
  unfold Sight.entered at fit
  cases he : s.ty.element? with
  | none =>
    rw [he] at fit
    obtain ⟨made, m, hmade, hmadeTy⟩ := scalarMakes s _ _ n hscalar chained id fit
    refine ⟨made, m, makes_scalar_step.2 ?_, hmadeTy⟩
    rw [if_neg (by simp [Ty.isMultiValued, he])]
    exact hmade
  | some elem =>
    rw [he] at fit
    cases hrest : rest.isEmpty with
    | true =>
      rw [hrest] at fit
      obtain ⟨made, m, hmade, hmadeTy⟩ := scalarMakes s _ _ n hscalar chained id fit
      refine ⟨made, m, makes_scalar_step.2 ?_, hmadeTy⟩
      rw [hrest, if_neg (by simp)]
      exact hmade
    | false =>
      rw [hrest] at fit
      obtain ⟨tail, m, htail, htailTy⟩ :=
        streamMakes _ ⟨stackedSequence s.ty elem, elem⟩ [] n rfl rfl
          (fun _ hc => absurd hc List.not_mem_nil) fit
      obtain ⟨made, hmade, hmadeTy⟩ := close_tail (b := b) chained.typed htailTy
      refine ⟨made, m, makes_scalar_step.2 ?_, hmadeTy⟩
      rw [hrest, if_pos (by simp [Ty.isMultiValued, he])]
      rw [List.append_assoc] at hmade
      exact ⟨elem, tail, he, htail, hmade⟩

theorem isMultiValued_collectionTy (r : Reduction) (elem : Ty) :
    (r.collectionTy elem).isMultiValued = true := by
  cases r <;> rfl

/-- What is collected goes on in scalar context. -/
theorem makes_collected (scalarMakes : ScalarMakes b rest) {ty : Ty}
    (fit : Fit Stepping (s.reduced ty) rest) (source : Source) (r : Reduction) (n : Nat) :
    ∃ made m, Makes (scalar b [collectInto source r] rest) n made m ∧ made.ty.isSome :=
  scalarMakes (s.reduced ty) _ (r.collectionTy source.elem) n rfl (.single rfl)
    (fun _ => isMultiValued_collectionTy r _) fit

section

variable {expr cond : Node} {ty : Ty} {x : String} {r : Reduction}

theorem scalarMakes_nil : ScalarMakes b [] := by
  intro s chain ty n _ chained _ _
  obtain ⟨made, hmade, hmadeTy⟩ := close_chained (b := b) chained
  exact ⟨made, n, makes_scalar_nil.2 ⟨hmade, rfl⟩, hmadeTy⟩

theorem streamMakes_nil : StreamMakes b [] := by
  intro s source run n _ hsource hrun _
  obtain ⟨next, m, hnext, hnextTy⟩ := makes_flush_typed (b := b) hsource hrun n
  exact ⟨next.node, m, makes_stream_nil.2 ⟨next, hnext, rfl⟩, hnextTy⟩

theorem scalarMakes_step (scalarMakes : ScalarMakes b rest) (streamMakes : StreamMakes b rest) :
    ScalarMakes b (.step expr ty :: rest) := by
  intro s chain chainTy n hscalar chained _ ⟨here, next⟩
  have seen : s.after (.step expr ty) (!rest.isEmpty) =
      Sight.entered ⟨ty, false, if expr.isStacked then s.gaps else .none⟩ (!rest.isEmpty) :=
    Sight.stepped_scalar hscalar ..
  rw [seen] at next
  exact makes_step (s := ⟨ty, false, _⟩) scalarMakes streamMakes n rfl chained.typed
    (linkFit_step.1 here) next

theorem scalarMakes_predicate (scalarMakes : ScalarMakes b rest) :
    ScalarMakes b (.predicate x cond ty :: rest) := by
  intro s chain chainTy n hscalar chained _ ⟨here, next⟩
  obtain rfl := linkFit_predicate.1 here
  rw [Sight.after_predicate_scalar hscalar] at next
  have multi : s.ty.isMultiValued = true → s.ty.boxed.isMultiValued = true := by
    cases s.ty <;> exact id
  obtain ⟨made, m, hmade, hmadeTy⟩ :=
    scalarMakes s (chain ++ [keepIf x cond s.ty]) s.ty.boxed n hscalar (.snoc chained.typed rfl) multi
      next
  exact ⟨made, m, makes_scalar_predicate.2 hmade, hmadeTy⟩

theorem scalarMakes_reduce (scalarMakes : ScalarMakes b rest) :
    ScalarMakes b (.reduce r ty :: rest) := by
  intro s chain chainTy n hscalar chained hmulti ⟨here, next⟩
  obtain ⟨elem, -, helem⟩ := linkFit_reduce.1 here
  rw [hscalar, if_neg (by decide)] at helem
  -- the chain ends multi-valued, as what is in view does
  obtain ⟨low, hlow⟩ := Option.isSome_iff_exists.1 (hmulti (by simp [Ty.isMultiValued, helem]))
  have hend : multiValuedEnd chain = .ok chainTy := by
    unfold multiValuedEnd
    rw [chained.last]
    simp [Ty.isMultiValued, hlow]
  obtain ⟨tail, m, htail, htailTy⟩ :=
    makes_collected scalarMakes next ⟨stackedSequence chainTy low, low⟩ r n
  obtain ⟨made, hmade, hmadeTy⟩ := close_tail (b := b) chained.typed htailTy
  exact ⟨made, m, makes_scalar_reduce.2 ⟨chainTy, low, tail, hend, hlow, htail, hmade⟩, hmadeTy⟩

theorem streamMakes_step (streamMakes : StreamMakes b rest) :
    StreamMakes b (.step expr ty :: rest) := by
  intro s source run n hstream hsource hrun ⟨here, next⟩
  have hty : expr.ty = some ty := linkFit_step.1 here
  have streaming : (s.after (.step expr ty) (!rest.isEmpty)).streaming = true := by
    unfold Sight.after Sight.stepped Sight.entered
    simp only [hstream, Bool.true_or, if_true]
    split <;> rfl
  by_cases hmulti : ty.isMultiValued = true
  · obtain ⟨source', hstage, hsource'⟩ := makes_flatMap_typed (b := b) hrun hty hmulti source n
    obtain ⟨made, m, hmade, hmadeTy⟩ := streamMakes _ source' [] (n + 1) streaming hsource'
      (fun _ hc => absurd hc List.not_mem_nil) next
    refine ⟨made, m, makes_stream_step.2 ?_, hmadeTy⟩
    rw [if_pos hmulti]
    exact ⟨source', n + 1, hstage, hmade⟩
  · obtain ⟨made, m, hmade, hmadeTy⟩ := streamMakes _ source (run ++ [expr]) n streaming hsource
      (snoc_typed hrun (Option.isSome_iff_exists.2 ⟨ty, hty⟩)) next
    refine ⟨made, m, makes_stream_step.2 ?_, hmadeTy⟩
    rw [if_neg hmulti]
    exact hmade

theorem streamMakes_predicate (streamMakes : StreamMakes b rest) :
    StreamMakes b (.predicate x cond ty :: rest) := by
  intro s source run n hstream hsource hrun ⟨_, next⟩
  have streaming : (s.after (.predicate x cond ty) (!rest.isEmpty)).streaming = true :=
    (s.after_predicate_streaming ..).trans hstream
  obtain ⟨source', mid, hflush, -⟩ := makes_flush_typed (b := b) hsource hrun n
  obtain ⟨made, m, hmade, hmadeTy⟩ := streamMakes _
    ⟨pipeOf .filter source'.node x (nullSafe x cond source'.elem) source'.elem, source'.elem⟩ []
    mid streaming rfl (fun _ hc => absurd hc List.not_mem_nil) next
  exact ⟨made, m, makes_stream_predicate.2 ⟨source', mid, hflush, hmade⟩, hmadeTy⟩

theorem streamMakes_reduce (scalarMakes : ScalarMakes b rest) :
    StreamMakes b (.reduce r ty :: rest) := by
  intro s source run n _ hsource hrun ⟨_, next⟩
  obtain ⟨source', mid, hflush, -⟩ := makes_flush_typed (b := b) hsource hrun n
  obtain ⟨made, m, hmade, hmadeTy⟩ := makes_collected scalarMakes next source' r mid
  exact ⟨made, m, makes_stream_reduce.2 ⟨source', mid, hflush, hmade⟩, hmadeTy⟩

end

/-- Links that go on from what is in view are lowered, in both contexts. -/
theorem lowering_makes (b : Bool) (links : List Link) :
    ScalarMakes b links ∧ StreamMakes b links := by
  induction links with
  | nil => exact ⟨scalarMakes_nil, streamMakes_nil⟩
  | cons link rest ih =>
    obtain ⟨scalarMakes, streamMakes⟩ := ih
    cases link with
    | step => exact ⟨scalarMakes_step scalarMakes streamMakes, streamMakes_step streamMakes⟩
    | predicate => exact ⟨scalarMakes_predicate scalarMakes, streamMakes_predicate streamMakes⟩
    | reduce => exact ⟨scalarMakes_reduce scalarMakes, streamMakes_reduce scalarMakes⟩

end

/-- What navigators answer is typed. -/
def Registry.AnswersTyped (r : Registry) : Prop :=
  ∀ slot ∈ r.slots, ∀ request n, slot.2.apply request = some n → n.ty.isSome

theorem Registry.Provided.answersTyped {r : Registry} (h : r.Provided) : r.AnswersTyped := by
  intro slot hs request n hn
  cases (h slot hs).answer hn <;> rfl

theorem Request.readProperty?_typed {r : Request} {name : String} {n : Node}
    (h : r.readProperty? name = some n) : n.ty.isSome := by
  obtain ⟨found, -, rfl⟩ := Option.map_eq_some_iff.1 h
  rfl

theorem Request.callMethod?_typed {r : Request} {name : String} {n : Node}
    (h : r.callMethod? name = some n) : n.ty.isSome := by
  obtain ⟨found, -, rfl⟩ := Option.map_eq_some_iff.1 h
  rfl

theorem Scope.resolve_typed {cx : Lookup} (typed : cx.navigators.AnswersTyped) {scope : Scope}
    {step : Step Node} {place : Place} {n : Node} (h : scope.resolve cx step place = some n) :
    n.ty.isSome := by
  have answered {ty : Ty} {receiver : Node} (h : resolveFrom cx ty receiver step = some n) :
      n.ty.isSome := by
    obtain ⟨navigator, hmem, hn⟩ := List.exists_of_findSome?_eq_some h
    obtain ⟨slot, hs, rfl, -⟩ := Registry.mem_lookup hmem
    exact typed slot hs _ n hn
  unfold resolve at h
  split at h
  · obtain ⟨name, -, h⟩ := Option.bind_eq_some_iff.1 h
    obtain ⟨c, -, h⟩ := Option.bind_eq_some_iff.1 h
    cases h
    rfl
  · obtain ⟨name, -, h⟩ := Option.bind_eq_some_iff.1 h
    obtain ⟨ty, -, h⟩ := Option.bind_eq_some_iff.1 h
    cases h
    rfl
  · unfold resolveMember at h
    simp only at h
    split at h
    · exact Request.readProperty?_typed h
    · split at h
      · cases h
        rfl
      · exact Request.callMethod?_typed h
    · cases h
  · exact answered h
  · exact answered h
  · cases h

theorem Scopes.resolve_typed {cx : Lookup} (typed : cx.navigators.AnswersTyped) {scopes : Scopes}
    {step : Step Node} {place : Place} {n : Node} (h : scopes.resolve cx step place = some n) :
    n.ty.isSome := by
  obtain ⟨scope, -, h⟩ := List.exists_of_findSome?_eq_some h
  exact Scope.resolve_typed typed h

namespace Resolve

variable {α β : Type}

/-- The action ends in a value, from whichever state it starts. -/
def Faultless (x : Resolve α) : Prop := ∀ st, ∃ a st', Yields x st a st'

theorem Faultless.pure (a : α) : Faultless (pure a : Resolve α) :=
  fun st => ⟨a, st, yields_pure.2 ⟨rfl, rfl⟩⟩

theorem Faultless.bind {x : Resolve α} {f : α → Resolve β} (hx : Faultless x)
    (hf : ∀ a, Faultless (f a)) : Faultless (x >>= f) := by
  intro st
  obtain ⟨a, mid, ha⟩ := hx st
  obtain ⟨b, st', hb⟩ := hf a mid
  exact ⟨b, st', yields_bind.2 ⟨a, mid, ha, hb⟩⟩

theorem Faultless.mapM {f : α → Resolve β} :
    ∀ {as : List α}, (∀ a ∈ as, Faultless (f a)) → Faultless (as.mapM f)
  | [], _ => by
    rw [List.mapM_nil]
    exact .pure []
  | a :: as, hf => by
    rw [List.mapM_cons]
    refine .bind (hf a (List.mem_cons_self ..)) fun b => ?_
    exact .bind (Faultless.mapM fun a ha => hf a (List.mem_cons_of_mem _ ha)) fun bs => .pure _

theorem Faultless.testMapM {f : α → Resolve β} {t : Test α} (hf : ∀ a ∈ t.children, Faultless (f a)) :
    Faultless (t.mapM f) := by
  cases t with
  | call n args => exact .bind (.mapM hf) fun _ => .pure _
  | name | wildcard | self | reduction => exact .pure _

/-- The children of a node run as a list does. -/
theorem Faultless.kindMapM {f : α → Resolve β} {kind : Kind α} (hf : ∀ a ∈ kind.children, Faultless (f a)) :
    Faultless (kind.mapM f) := by
  intro st
  obtain ⟨bs, st', hbs⟩ := Faultless.mapM hf st
  have made : Yields (kind.fill <$> kind.children.mapM f) st (kind.fill bs) st' :=
    yields_map.2 ⟨bs, hbs, rfl⟩
  rw [kind.fill_mapM] at made
  obtain ⟨kind', hkind, -⟩ := yields_map.1 made
  exact ⟨kind', st', hkind⟩

theorem Faultless.inScope {scope : Scope} {x : Resolve α} (hx : Faultless x) (leading : Leading x) :
    Faultless (inScope scope x) := by
  intro st
  obtain ⟨a, mid, ha⟩ := hx { st with scopes := scope :: st.scopes }
  obtain ⟨top, rest, hmid, -⟩ := (leading ha).scopes.tail
  exact ⟨a, _, yields_inScope.2 ⟨mid, top, rest, ha, hmid, rfl⟩⟩

variable {cx : Lookup}

theorem Faultless.answer? (typed : cx.navigators.AnswersTyped) {step : Step Node} {place : Place} :
    Faultless (answer? cx step place) := by
  intro st
  cases hr : st.scopes.resolve cx step place with
  | none => exact ⟨none, st, yields_answer?.2 ⟨rfl, .inl ⟨rfl, hr⟩⟩⟩
  | some found =>
    obtain ⟨ty, hty⟩ := Option.isSome_iff_exists.1 (Scopes.resolve_typed typed hr)
    exact ⟨some (found, ty), st, yields_answer?.2 ⟨rfl, .inr ⟨found, ty, rfl, hty, hr⟩⟩⟩

theorem Faultless.bare (typed : cx.navigators.AnswersTyped) {n : Node} {test : Test Node} :
    Faultless (bare cx n test) := by
  refine .bind (.answer? typed) fun answer => ?_
  cases answer <;> exact .pure _

theorem Faultless.hop {s : Step Pending} (hs : ∀ p ∈ s.test.children, Faultless p.resolve) :
    Faultless (hop s) :=
  .bind (.testMapM hs) fun _ => .pure _

theorem Faultless.predicate {candidate : Ty} {p : Pending} (hp : Faultless p.resolve)
    (leading : Leading p.resolve) : Faultless (predicate candidate p) := by
  intro st
  obtain ⟨cond, mid, hcond⟩ := hp (candidateState candidate st)
  obtain ⟨top, rest, hmid, -⟩ := (leading hcond).scopes.tail
  exact ⟨_, _, yields_predicate.2 ⟨cond, mid, top, rest, hcond, hmid, rfl, rfl⟩⟩

theorem Faultless.link? (typed : cx.navigators.AnswersTyped) {view : View} {step : Step Node} :
    Faultless (link? cx view step) := by
  unfold Resolve.link?
  split
  · exact .pure _
  · cases view.ty with
    | none => exact .bind (.answer? typed) fun found => .pure _
    | some ty => exact .bind (.inScope (.answer? typed) .answer?) fun found => .pure _

theorem Faultless.links (typed : cx.navigators.AnswersTyped) :
    ∀ {hops : List Hop} {view : View},
      (∀ h ∈ hops, ∀ p ∈ h.predicates, Faultless p.resolve ∧ Leading p.resolve) →
        Faultless (links cx view hops)
  | [], view, _ => by
    rw [Resolve.links]
    exact .pure _
  | h :: rest, view, hops => by
    rw [Resolve.links]
    refine .bind (.link? typed) fun link => ?_
    cases link with
    | none => exact .bind (fun st => ⟨(), _, yields_report.2 rfl⟩) fun _ => .pure _
    | some link =>
      refine .bind (.mapM fun p hp => ?_) fun conditions => ?_
      · obtain ⟨faultless, leading⟩ := hops h (List.mem_cons_self ..) p hp
        exact faultless.predicate leading
      · refine .bind (Faultless.links typed fun h hh => hops h (List.mem_cons_of_mem _ hh))
          fun others => ?_
        cases others <;> exact .pure _

/-- The links of a navigation are lowered. -/
theorem links_lowered {hops : List Hop} {found : List Link} {st st' : ResolveState}
    (hne : hops ≠ []) (leading : ∀ h ∈ hops, ∀ p ∈ h.predicates, Leading p.resolve)
    (hrun : Yields (links cx {} hops) st (some found) st') (b : Bool) (n : Nat) :
    ∃ made m, (Lower.scalar b [] found).Makes n made m := by
  obtain ⟨h, rest, rfl⟩ := List.exists_cons_of_ne_nil hne
  have going : Going Stepping cx st.scopes := fun _ _ _ typed => typed
  obtain ⟨expr, ty, others, rfl, -, hty, fit⟩ := links_head leading going hrun
  obtain ⟨scalarMakes, streamMakes⟩ := lowering_makes b others
  have start : ∀ c ∈ ([] : List Node), c.ty.isSome := fun _ hc => absurd hc List.not_mem_nil
  have lowered : ∃ made m, Makes (scalar b [] (.step expr ty :: others)) n made m ∧ made.ty.isSome :=
    makes_step scalarMakes streamMakes n rfl start hty fit
  obtain ⟨made, m, hmade, -⟩ := lowered
  exact ⟨made, m, hmade⟩

theorem Faultless.stream {cx : Context} (typed : cx.navigators.AnswersTyped) {span : Span}
    {ty : Option Ty} {steps : List (Step Pending)} (hne : steps ≠ [])
    (hsteps : ∀ s ∈ steps, ∀ p ∈ s.children, Faultless p.resolve ∧ Leading p.resolve) :
    Faultless (stream cx span ty steps) := by
  intro st
  have args : Faultless (steps.mapM Resolve.hop) := Faultless.mapM fun s hs => Faultless.hop fun p hp =>
    (hsteps s hs p (List.mem_append_left _ hp)).1
  obtain ⟨hops, mid, hhops⟩ := args st
  have predicates : ∀ h ∈ hops, ∀ p ∈ h.predicates, Faultless p.resolve ∧ Leading p.resolve := by
    intro h hmem p hp
    obtain ⟨s, hs, -, heq⟩ := mem_hops hhops h hmem
    exact hsteps s hs p (List.mem_append_right _ (heq ▸ hp))
  have hopsNe : hops ≠ [] := by
    have same := length_hops hhops
    rw [← List.length_pos_iff] at hne ⊢
    omega
  have linked : Faultless (Resolve.links cx.lookup {} hops) := Faultless.links typed predicates
  obtain ⟨found, last, hlinks⟩ := linked mid
  cases found with
  | none =>
    exact ⟨_, last, yields_stream.2 ⟨hne, hops, mid, none, last, hhops, hlinks, .inl ⟨rfl, rfl, rfl⟩⟩⟩
  | some list =>
    obtain ⟨made, next, hmade⟩ := links_lowered hopsNe (fun h hh p hp => (predicates h hh p hp).2)
      hlinks cx.config.boxPrimitiveGuards last.nextFresh
    exact ⟨_, _, yields_stream.2 ⟨hne, hops, mid, some list, last, hhops, hlinks,
      .inr ⟨list, made, next, rfl, hmade, rfl, rfl⟩⟩⟩

/-- A tree whose streams have steps is resolved from every state. -/
theorem tree_faultless {cx : Context} (typed : cx.navigators.AnswersTyped) (n : Node) :
    (∀ m ∈ n.nodes, m.kind ≠ .stream []) → Faultless (tree cx n) := by
  induction n using Node.induct with
  | h span ty kind ih =>
    intro steps
    have children : ∀ c ∈ kind.children, Faultless (tree cx c) := fun c hc =>
      ih c hc fun m hm => steps m (Node.mem_nodes_of_child hc hm)
    have pendings : ∀ p ∈ (kind.map (pending cx)).children,
        Faultless p.resolve ∧ Leading p.resolve := by
      intro p hp
      rw [Kind.children_map] at hp
      obtain ⟨c, hc, rfl⟩ := List.mem_map.1 hp
      exact ⟨children c hc, tree_leads c⟩
    rw [tree_mk]
    have plain : ∀ p ∈ (kind.map (pending cx)).children, Faultless p.resolve :=
      fun p hp => (pendings p hp).1
    cases kind
    case stream written =>
      refine .stream typed ?_ fun s hs p hp => pendings p (List.mem_flatMap.2 ⟨s, hs, hp⟩)
      intro hnil
      refine steps _ (Node.mem_nodes_self _) ?_
      rw [List.map_eq_nil_iff.1 hnil]
    case name x => exact .bare typed
    case call x args => exact .bind (.mapM plain) fun _ => .bare typed
    case methodDecl d =>
      refine .bind (.inScope (.mapM plain) ?_) fun _ => .pure _
      exact .mapM fun p hp => (pendings p hp).2
    case localDecl x written value =>
      refine .bind (plain _ (List.mem_singleton.2 rfl)) fun value' => ?_
      cases written <|> value'.ty with
      | none => exact .pure _
      | some ty => exact .bind (fun st => ⟨(), _, yields_declare.2 rfl⟩) fun _ => .pure _
    case script items => exact .bind (.mapM plain) fun _ => .pure _
    all_goals exact .bind (.kindMapM plain) fun _ => .pure _

end Resolve

/-- Where all streams have steps and navigators answer typed nodes, the analysis of a tree ends in a
tree, whatever the classes, the configuration and the environment are. -/
theorem analyze_faultless {cx : Context} (typed : cx.navigators.AnswersTyped) {root : Node}
    (steps : ∀ n ∈ root.nodes, n.kind ≠ .stream []) : ∃ a, analyze cx root = .ok a := by
  obtain ⟨navigated, st, hrun⟩ :=
    Resolve.tree_faultless typed root steps { scopes := Resolve.initialScopes cx.env root }
  have navigation : resolveNavigation cx root = (.ok navigated, st.diagnostics) := by
    unfold resolveNavigation
    rw [show (Resolve.tree cx root).run { scopes := Resolve.initialScopes cx.env root } = _ from hrun]
  unfold analyze Pass.standard
  simp only [runPasses, Pass.run, navigation]
  exact ⟨_, rfl⟩

/-- The true elements of the bound list, as an array. -/
def elementsScript : Node :=
  .ofKind (.stream
    [{ axis := .self, test := .self, predicates := [.ofKind (.stream [{ axis := .self, test := .self }])] },
      { axis := .child, test := .reduction .array }])

/-- A list of booleans is filtered and collected. -/
theorem analyze_faultless_elements :
    let cx := (Setup.ofConfig {}).context .standard { binding := .generic "List" .boolean }
    cx.navigators.AnswersTyped ∧ (∀ n ∈ elementsScript.nodes, n.kind ≠ .stream []) ∧
      ∃ a, analyze cx elementsScript = .ok a := by
  intro cx
  have typed : cx.navigators.AnswersTyped := (Registry.provided_standard _).answersTyped
  have steps : ∀ n ∈ elementsScript.nodes, n.kind ≠ .stream [] := by
    intro n hn
    simp only [elementsScript, Node.ofKind, Node.nodes_mk, Kind.children, Step.children, Test.children,
      List.flatMap_cons, List.flatMap_nil, List.append_nil, List.nil_append, List.mem_cons,
      List.not_mem_nil, or_false] at hn
    rcases hn with rfl | rfl <;> simp
  exact ⟨typed, steps, analyze_faultless typed steps⟩

end NavScript
