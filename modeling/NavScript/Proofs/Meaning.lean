import NavScript.Proofs.Stages

/-!
# Lowering keeps the meaning

Lowering succeeds on links that go on from each other, and what it makes gives on the machine what the
links read as: in scalar context behind a chain (`ScalarSound`), over a sequence behind a source and a
run (`StreamSound`), and from the head (`lowering_sound`). Both contexts lead to each other, so one
induction over the links shows both.
-/

namespace NavScript

open Machine Lower

variable {isA : Ty → Value → Prop} {classes : ClassTable} {W : World}
  {locals : List (String × Value)} {b : Bool} {s : Sight} {link : Link} {rest : List Link}

/-- Links that go on from what is in view, over closed arguments and conditions. -/
structure Ready (classes : ClassTable) (W : World) (locals : List (String × Value)) (s : Sight)
    (links : List Link) : Prop where
  fit : Fit (Movable classes) s links
  closed : ∀ link ∈ links, link.Closed W locals

theorem Ready.next (h : Ready classes W locals s (link :: rest)) :
    Ready classes W locals (s.after link (!rest.isEmpty)) rest :=
  ⟨h.fit.2, fun l hl => h.closed l (List.mem_cons_of_mem _ hl)⟩

/-- What a reduction would collect again of a chain are the elements in view, or boxes of them. -/
def Matching (s : Sight) (ty : Ty) : Prop :=
  ∀ elem, s.ty.element? = some elem → ∃ low, ty.element? = some low ∧ (low = elem ∨ low = elem.boxed)

/-- Lowering in scalar context behind a chain. -/
def ScalarSound (isA : Ty → Value → Prop) (classes : ClassTable) (W : World)
    (locals : List (String × Value)) (b : Bool) (links : List Link) : Prop :=
  ∀ (s : Sight) (chain : List Node) (ty : Ty) (n : Nat), s.streaming = false → s.gaps ≠ .boxed →
    Chained chain ty → Matching s ty → Ready classes W locals s links →
    ∃ made m, Makes (scalar b chain links) n made m ∧ made.ty.isSome ∧
      ∀ top o, Leads W locals b chain s.ty top o → (∀ v ∈ o, Focus.Held isA s (.one v)) →
        Gives W locals made top (o >>= fun v => perform W locals s (.one v) links)

/-- Lowering over a sequence behind a source and a run. -/
def StreamSound (isA : Ty → Value → Prop) (classes : ClassTable) (W : World)
    (locals : List (String × Value)) (b : Bool) (links : List Link) : Prop :=
  ∀ (s : Sight) (source : Source) (run : List Node) (n : Nat), s.streaming = true →
    Drawn s source run → source.node.ty.isSome → Ready classes W locals s links →
    ∃ made m, Makes (stream b source run links) n made m ∧ made.ty.isSome ∧
      ∀ v os, Flows isA W locals b source s.ty v run os →
        (∀ items ∈ os, Focus.Held isA s (.many items)) →
        Gives W locals made [v] (os >>= fun items => perform W locals s (.many items) links)

/-! ## Scalar context -/

theorem Sight.entered_other {more : Bool} (h : (s.ty.isMultiValued && more) = false) :
    s.entered more = s := by
  unfold entered
  unfold Ty.isMultiValued at h
  cases he : s.ty.element? with
  | none => rfl
  | some elem =>
    rw [he] at h
    cases more with
    | false => rfl
    | true => cases h

theorem Focus.of_null {byElement : Bool} {v : Value} (h : v.isNull = true) :
    of byElement v = one .null := by
  rw [Value.eq_null h]
  unfold of
  simp [Value.isNull, Value.null]

theorem Focus.Held.items {v : Value} {elem : Ty} (h : Held isA s (.one v))
    (he : s.ty.element? = some elem) : v.isNull = true ∨ v.items?.isSome := by
  cases hv : v.isNull with
  | true => exact .inl rfl
  | false =>
    cases h with
    | null => cases hv
    | one _ _ typed => exact .inr (by rw [typed.items he hv]; rfl)
    | hollow _ _ _ held _ => exact .inr (by rw [held]; rfl)

theorem streams_stacked {multi elem : Ty} {v : Value} (h : v.isNull = true ∨ v.items?.isSome) :
    Streams W locals (stackedSequence multi elem) [v] (pure v.elements) := by
  have stacked : Gives W locals (.stackedOf multi) [v] (pure v) := gives_stacked v
  have sequence : Streams W locals (stackedSequence multi elem) [v] (Value.elements <$> pure v) :=
    streams_toSequence stacked fun u hu => by
      rw [Attempt.mem_pure.1 hu]
      exact h
  rw [map_pure] at sequence
  exact sequence

/-- A tail that is added to a chain. -/
theorem Leads.tail {chain : List Node} {view : Ty} {top : List Value} {o : Attempt Access Value}
    {k : Value → Attempt Access Value} {n made : Node} (h : Leads W locals b chain view top o)
    (typed : n.ty.isSome) {multi : Ty} (opening : Opening multi n)
    (hn : ∀ v ∈ o, v.isNull = false → Gives W locals n [v] (k v))
    (hmade : close b (chain ++ [n]) = .ok made) : Gives W locals made top (o >>= unlessNull k) := by
  refine h [n] k made ⟨fun c hc => ?_, fun c hc => ?_⟩ (fun v hv hnull made hmade => ?_) hmade
  · rw [List.mem_singleton.1 hc]
    exact typed
  · cases hc
    refine ⟨opening.first, fun hs => ?_⟩
    rw [opening.more] at hs
    cases hs
  · cases hmade
    exact hn v hv hnull

/-- Behind a step that is done links go on over its elements or over its value. -/
theorem lowering_behind (scalarSound : ScalarSound isA classes W locals b rest)
    (streamSound : StreamSound isA classes W locals b rest) {chain : List Node} {expr : Node}
    (n : Nat) (hscalar : s.streaming = false) (hgaps : s.gaps ≠ .boxed)
    (htyped : ∀ c ∈ chain, c.ty.isSome) (hty : expr.ty = some s.ty)
    (ready : Ready classes W locals (s.entered (!rest.isEmpty)) rest) :
    ∃ made m, Makes (scalar b chain (.step expr s.ty :: rest)) n made m ∧ made.ty.isSome ∧
      ∀ top o, Leads W locals b (chain ++ [expr]) s.ty top o →
        (∀ v ∈ o, Focus.Held isA s (.one v)) →
        Gives W locals made top
          (o >>= fun v => perform W locals (s.entered (!rest.isEmpty))
            (.of (s.ty.isMultiValued && !rest.isEmpty) v) rest) := by
  have chained : Chained (chain ++ [expr]) s.ty := .snoc htyped hty
  cases hmore : s.ty.isMultiValued && !rest.isEmpty with
  | false =>
    rw [Sight.entered_other hmore] at ready
    obtain ⟨made, m, hmade, typed, gives⟩ :=
      scalarSound s (chain ++ [expr]) s.ty n hscalar hgaps chained
        (fun elem he => ⟨elem, he, .inl rfl⟩) ready
    refine ⟨made, m, ?_, typed, fun top o leads held => ?_⟩
    · rw [makes_scalar_step, hmore]
      exact hmade
    · rw [Sight.entered_other hmore]
      exact gives top o leads held
  | true =>
    obtain ⟨hmulti, hrest⟩ := Bool.and_eq_true_iff.1 hmore
    obtain ⟨elem, he⟩ := Option.isSome_iff_exists.1 hmulti
    rw [hrest] at ready
    have entered : s.entered true = { s with ty := elem, streaming := true } := by
      unfold Sight.entered
      rw [he]
      rfl
    have drawn : Drawn (s.entered true) ⟨stackedSequence s.ty elem, elem⟩ [] := by
      rw [entered]
      exact .flushed (.inl rfl) (fun h => absurd h hgaps) fun _ => rfl
    have streaming : (s.entered true).streaming = true := by
      rw [entered]
    obtain ⟨tail, m, htail, typed, gives⟩ :=
      streamSound (s.entered true) _ [] n streaming drawn rfl ready
    obtain ⟨tailTy, htailTy⟩ := Option.isSome_iff_exists.1 typed
    obtain ⟨made, hmade, hmadeTy⟩ := close_chained (b := b) (Chained.snoc chained.typed htailTy)
    refine ⟨made, m, ?_, hmadeTy, fun top o leads held => ?_⟩
    · rw [makes_scalar_step, hmore, if_pos rfl]
      rw [List.append_assoc] at hmade
      exact ⟨elem, tail, he, htail, hmade⟩
    · have onward : o >>= (fun v => perform W locals (s.entered true) (.of true v) rest) =
          o >>= unlessNull fun v => perform W locals (s.entered true) (.many v.elements) rest := by
        refine Attempt.bind_congr fun v _ => ?_
        cases hnull : v.isNull with
        | true =>
          rw [Focus.of_null hnull, perform_null, Value.eq_null hnull]
          rfl
        | false =>
          rw [unlessNull_of hnull]
          unfold Focus.of
          rw [hnull]
          rfl
      rw [hrest, onward]
      have opening := stream_opening rest htail (opening_stacked _ _)
      refine leads.tail typed opening (fun v hv hnull => ?_) hmade
      have elements := Focus.held_of (held v hv) true
      have many : Focus.of (s.ty.isMultiValued && true) v = .many v.elements := by
        unfold Focus.of
        rw [hmulti, hnull]
        rfl
      rw [many] at elements
      have given := gives v (pure v.elements) (.flushed (streams_stacked ((held v hv).items he)))
        fun items hi => by
          rw [Attempt.mem_pure.1 hi]
          exact elements
      rw [pure_bind] at given
      exact given

theorem scalar_nil : ScalarSound isA classes W locals b [] := by
  intro s chain ty n _ _ chained _ _
  obtain ⟨made, hmade, typed⟩ := close_chained (b := b) chained
  refine ⟨made, n, makes_scalar_nil.2 ⟨hmade, rfl⟩, typed, fun top o leads _ => ?_⟩
  have same : (o >>= fun v => perform W locals s (.one v) []) = o := bind_pure o
  rw [same]
  exact leads.gives hmade

theorem scalar_step (hW : W.WellTyped isA classes)
    (scalarSound : ScalarSound isA classes W locals b rest)
    (streamSound : StreamSound isA classes W locals b rest) {expr : Node} {ty : Ty} :
    ScalarSound isA classes W locals b (.step expr ty :: rest) := by
  intro s chain chainTy n hscalar hgaps chained _ ready
  have hmove := linkFit_step.1 ready.fit.1
  have closed := ready.closed _ (List.mem_cons_self ..)
  have next := ready.next
  have seen : s.after (.step expr ty) (!rest.isEmpty) =
      Sight.entered ⟨ty, false, if expr.isStacked then s.gaps else .none⟩ (!rest.isEmpty) :=
    Sight.stepped_scalar hscalar ..
  rw [seen] at next
  have gaps : (if expr.isStacked then s.gaps else .none) ≠ .boxed := by
    split
    · exact hgaps
    · exact nofun
  obtain ⟨made, m, hmade, typed, gives⟩ :=
    lowering_behind (s := ⟨ty, false, if expr.isStacked then s.gaps else .none⟩) scalarSound
      streamSound n rfl gaps chained.typed hmove.typed next
  refine ⟨made, m, hmade, typed, fun top o leads held => ?_⟩
  · have leads' : Leads W locals b (chain ++ [expr]) ty top
        (o >>= unlessNull (W.step locals expr)) := by
      refine leads.snoc hmove.typed hmove.first hmove.stacked (fun v _ _ => ?_)
        fun hprim v hv hnull u hu => ?_
      · exact hmove.gives fun a ha => (closed a ha).1
      · obtain ⟨t, typed, same⟩ := (held v hv).typed hW hnull
        exact hmove.nonNull hW typed same hnull hprim hu
    have held' : ∀ u ∈ o >>= unlessNull (W.step locals expr), Focus.Held isA
        ⟨ty, false, if expr.isStacked then s.gaps else .none⟩ (.one u) := by
      intro u hu
      obtain rfl | ⟨v, hv, hnull, hu⟩ := mem_bind_unlessNull hu
      · exact .null
      · have stepped := Focus.held_step hW hmove false (held v hv) hnull hu
        rw [Sight.stepped_scalar hscalar, Sight.entered_other (Bool.and_false _)] at stepped
        rw [Bool.and_false] at stepped
        exact stepped
    have onward : (o >>= fun v => perform W locals s (.one v) (.step expr ty :: rest)) =
        o >>= unlessNull (W.step locals expr) >>= fun u =>
          perform W locals (s.after (.step expr ty) (!rest.isEmpty))
            (.of (ty.isMultiValued && !rest.isEmpty) u) rest := by
      rw [bind_assoc]
      refine Attempt.bind_congr fun v _ => ?_
      cases hnull : v.isNull with
      | true =>
        rw [Value.eq_null hnull, perform_null, unlessNull_null, pure_bind, Focus.of_null rfl,
          perform_null]
      | false =>
        rw [unlessNull_of hnull]
        show Focus.advance W locals _ _ _ (.one v) >>= _ = _
        rw [Focus.advance_step hnull, bind_map_left]
    rw [onward, seen]
    exact gives top _ leads' held'

theorem scalar_predicate (scalarSound : ScalarSound isA classes W locals b rest) {x : String}
    {cond : Node} {ty : Ty} : ScalarSound isA classes W locals b (.predicate x cond ty :: rest) := by
  intro s chain chainTy n hscalar hgaps chained _ ready
  obtain rfl := linkFit_predicate.1 ready.fit.1
  have closed := ready.closed _ (List.mem_cons_self ..)
  have next := ready.next
  have seen : s.after (.predicate x cond s.ty) (!rest.isEmpty) = s :=
    Sight.after_predicate_scalar hscalar ..
  rw [seen] at next
  have matching : Matching s s.ty.boxed := by
    intro elem he
    rw [Ty.boxed_of_reference (Sight.reference_of_element he)]
    exact ⟨elem, he, .inl rfl⟩
  obtain ⟨made, m, hmade, typed, gives⟩ :=
    scalarSound s (chain ++ [keepIf x cond s.ty]) s.ty.boxed n hscalar hgaps
      (.snoc chained.typed rfl) matching next
  refine ⟨made, m, makes_scalar_predicate.2 hmade, typed, fun top o leads held => ?_⟩
  · have leads' : Leads W locals b (chain ++ [keepIf x cond s.ty]) s.ty top
        (o >>= unlessNull fun v => W.evaluate ((x, v) :: locals) cond >>= Focus.keep v) :=
      leads.snoc rfl ((ReceiverFirst.stacked _ _).letIn ..)
      (fun hs => by cases hs) (fun v _ _ => gives_keepIf (closed v))
      (fun hprim => by
        rw [s.ty.boxed_reference] at hprim
        cases hprim)
    have onward : (o >>= fun v => perform W locals s (.one v) (.predicate x cond s.ty :: rest)) =
        o >>= unlessNull (fun v => W.evaluate ((x, v) :: locals) cond >>= Focus.keep v) >>=
          fun u => perform W locals s (.one u) rest := by
      rw [bind_assoc]
      refine Attempt.bind_congr fun v _ => ?_
      cases hnull : v.isNull with
      | true => rw [Value.eq_null hnull, perform_null, unlessNull_null, pure_bind, perform_null]
      | false =>
        rw [unlessNull_of hnull]
        show Focus.advance W locals _ _ _ (.one v) >>= (fun next =>
          perform W locals (s.after (.predicate x cond s.ty) (!rest.isEmpty)) next rest) = _
        rw [Focus.advance_predicate hnull, bind_map_left, seen]
    rw [onward]
    refine gives top _ leads' fun u hu => ?_
    obtain rfl | ⟨v, hv, -, hu⟩ := mem_bind_unlessNull hu
    · exact .null
    · obtain ⟨verdict, -, hu⟩ := Attempt.mem_bind.1 hu
      unfold Focus.keep at hu
      split at hu
      · rw [Attempt.mem_pure.1 hu]
        exact held v hv
      · rw [Attempt.mem_pure.1 hu]
        exact .null
      · exact absurd hu Attempt.not_mem_failed

theorem multiValuedEnd_of {chain : List Node} {ty elem : Ty} (h : Chained chain ty)
    (he : ty.element? = some elem) : multiValuedEnd chain = .ok ty := by
  unfold multiValuedEnd
  rw [h.last]
  simp [Ty.isMultiValued, he]

/-- A collection of boxes matches one of their values. -/
theorem matching_collected (s : Sight) (r : Reduction) {elem low : Ty}
    (h : low = elem ∨ low = elem.boxed) :
    Matching (s.reduced (r.collectionTy elem)) (r.collectionTy low) := by
  intro seen hseen
  have hseen : (r.collectionTy elem).element? = some seen := hseen
  rw [Focus.Ty.element?_collectionTy] at hseen
  cases hseen
  refine ⟨_, Focus.Ty.element?_collectionTy r low, ?_⟩
  split
  · exact h
  · rcases h with rfl | rfl
    · exact .inl rfl
    · exact .inl elem.boxed_boxed

theorem collectionTy_reference (r : Reduction) (elem : Ty) :
    (r.collectionTy elem).isPrimitive = false := by
  cases r <;> rfl

theorem leads_collect {source : Source} {r : Reduction} {view : Ty} {top : List Value}
    {os : Attempt Access (List Value)} (h : Streams W locals source.node top os) :
    Leads W locals b [collectInto source r] view top (Value.collected r <$> os) :=
  .single rfl rfl (gives_collect h r) fun hprim => by
    rw [collectionTy_reference] at hprim
    cases hprim

/-- What is collected goes on in scalar context. -/
theorem lowering_collected (source : Source)
    (scalarSound : ScalarSound isA classes W locals b rest) {r : Reduction} {elem : Ty} (n : Nat)
    (hsource : source.elem = elem ∨ source.elem = elem.boxed)
    (ready : Ready classes W locals (s.reduced (r.collectionTy elem)) rest) :
    ∃ made m, Makes (scalar b [collectInto source r] rest) n made m ∧ made.ty.isSome ∧
      ∀ v os, Streams W locals source.node [v] os →
        (∀ items ∈ os, Focus.Held isA (s.reduced (r.collectionTy elem))
          (.one (.collected r items))) →
        Gives W locals made [v]
          (os >>= fun items => perform W locals (s.reduced (r.collectionTy elem))
            (.one (.collected r items)) rest) := by
  have gaps : (s.reduced (r.collectionTy elem)).gaps ≠ .boxed := by
    unfold Sight.reduced
    simp only
    split <;> exact nofun
  obtain ⟨made, m, hmade, typed, gives⟩ :=
    scalarSound (s.reduced (r.collectionTy elem)) [collectInto source r]
      (r.collectionTy source.elem) n rfl gaps (.single rfl) (matching_collected s r hsource) ready
  refine ⟨made, m, hmade, typed, fun v os hs held => ?_⟩
  · have given := gives [v] _ (leads_collect hs) fun u hu => by
      obtain ⟨items, hi, rfl⟩ := Attempt.mem_map.1 hu
      exact held items hi
    rw [bind_map_left] at given
    exact given

theorem scalar_reduce (hW : W.WellTyped isA classes)
    (scalarSound : ScalarSound isA classes W locals b rest) {r : Reduction} {ty : Ty} :
    ScalarSound isA classes W locals b (.reduce r ty :: rest) := by
  intro s chain chainTy n hscalar _ chained matching ready
  obtain ⟨elem, rfl, helem⟩ := linkFit_reduce.1 ready.fit.1
  rw [hscalar, if_neg (by decide)] at helem
  have next := ready.next
  obtain ⟨low, hlow, hmatch⟩ := matching elem helem
  obtain ⟨tail, m, htail, typed, gives⟩ :=
    lowering_collected ⟨stackedSequence chainTy low, low⟩ scalarSound n hmatch next
  obtain ⟨tailTy, htailTy⟩ := Option.isSome_iff_exists.1 typed
  obtain ⟨made, hmade, hmadeTy⟩ := close_chained (b := b) (Chained.snoc chained.typed htailTy)
  refine ⟨made, m, ?_, hmadeTy, fun top o leads held => ?_⟩
  · exact makes_scalar_reduce.2 ⟨chainTy, low, tail, multiValuedEnd_of chained hlow, hlow, htail,
      hmade⟩
  · have onward : (o >>= fun v =>
        perform W locals s (.one v) (.reduce r (r.collectionTy elem) :: rest)) =
          o >>= unlessNull fun v => perform W locals (s.reduced (r.collectionTy elem))
            (.one (.collected r v.elements)) rest := by
      refine Attempt.bind_congr fun v _ => ?_
      cases hnull : v.isNull with
      | true =>
        rw [Value.eq_null hnull, perform_null]
        rfl
      | false =>
        rw [unlessNull_of hnull]
        show Focus.advance W locals _ _ _ (.one v) >>= _ = _
        rw [Focus.advance_reduce hnull, pure_bind]
        rfl
    rw [onward]
    have opening := scalar_opening rest htail
      ⟨List.cons_ne_nil _ _, opening_collect (opening_stacked chainTy low) r⟩
    refine leads.tail typed opening (fun v hv hnull => ?_) hmade
    have given := gives v (pure v.elements) (streams_stacked ((held v hv).items helem))
      fun items hi => by
        rw [Attempt.mem_pure.1 hi]
        exact Focus.held_reduce hW (held v hv) hnull helem
    rw [pure_bind] at given
    exact given

/-! ## Sequences -/

variable (isA W locals b) in
/-- The run is done before what is not a step. -/
theorem makes_flushed {source : Source} {run : List Node} (drawn : Drawn s source run)
    (typed : source.node.ty.isSome) (n : Nat) :
    ∃ next m, Makes (flush b source run) n next m ∧ Drawn s next [] ∧ next.node.ty.isSome ∧
      ∀ v os, Flows isA W locals b source s.ty v run os → Streams W locals next.node [v] os := by
  by_cases hrun : run = []
  · subst hrun
    refine ⟨source, n, makes_flush.2 (.inl ⟨rfl, rfl, rfl⟩), drawn, typed, fun v os h => ?_⟩
    cases h with
    | flushed h => exact h
    | running some => exact absurd rfl some
  · obtain ⟨next, m, hstage, helem, typed, streams⟩ :=
      makes_map W locals b isA drawn hrun n
    have hidden : s.gaps ≠ .hidden := by
      cases drawn with
      | flushed => exact absurd rfl hrun
      | running _ _ hidden => exact hidden
    refine ⟨next, m, makes_flush.2 (.inr ⟨hrun, hstage⟩),
      .flushed (.inr helem) (fun _ => ?_) fun h => absurd h hidden, typed, streams⟩
    rw [helem, s.ty.boxed_reference]

theorem stream_nil : StreamSound isA classes W locals b [] := by
  intro s source run n _ drawn typed _
  obtain ⟨next, m, hflush, -, typed, streams⟩ :=
    makes_flushed isA W locals b drawn typed n
  refine ⟨next.node, m, makes_stream_nil.2 ⟨next, hflush, rfl⟩, typed, fun v os flows _ => ?_⟩
  have same : (os >>= fun items => perform W locals s (.many items) []) = .seq <$> os :=
    bind_pure_comp ..
  rw [same]
  exact streams_iff.2 (streams v os flows)

/-- A step over elements goes on from each of them, and to the elements of what it leads to. -/
theorem perform_steps {s : Sight} {expr : Node} {ty : Ty} (os : Attempt Access (List Value)) :
    (os >>= fun items => perform W locals s (.many items) (.step expr ty :: rest)) =
      (fun found => if ty.isMultiValued then found.flatMap Value.elements else found) <$>
        (os >>= fun items => items.mapM (unlessNull (W.step locals expr))) >>=
          fun items => perform W locals (s.stepped expr ty (!rest.isEmpty)) (.many items) rest := by
  rw [map_bind, bind_assoc]
  refine Attempt.bind_congr fun items _ => ?_
  show (_ <$> _) >>= _ = _
  rw [bind_map_left, bind_map_left]
  rfl

variable (locals) in
theorem held_performed (hW : W.WellTyped isA classes) {s : Sight} {expr : Node} {ty : Ty}
    (hmove : Movable classes s.ty expr ty) (more : Bool) {os : Attempt Access (List Value)}
    (held : ∀ items ∈ os, Focus.Held isA s (.many items)) :
    ∀ items ∈ (fun found => if ty.isMultiValued then found.flatMap Value.elements else found) <$>
      (os >>= fun items => items.mapM (unlessNull (W.step locals expr))),
      Focus.Held isA (s.stepped expr ty more) (.many items) := by
  intro items hi
  obtain ⟨found, hfound, rfl⟩ := Attempt.mem_map.1 hi
  obtain ⟨before, hb, hfound⟩ := Attempt.mem_bind.1 hfound
  exact Focus.held_steps hW hmove more (held before hb) hfound

theorem stream_step (hW : W.WellTyped isA classes)
    (streamSound : StreamSound isA classes W locals b rest) {expr : Node} {ty : Ty} :
    StreamSound isA classes W locals b (.step expr ty :: rest) := by
  intro s source run n hstreaming drawn typed ready
  have hmove := linkFit_step.1 ready.fit.1
  have closed := ready.closed _ (List.mem_cons_self ..)
  have next := ready.next
  have typedRun : ∀ c ∈ run, c.ty.isSome := by
    cases drawn with
    | flushed => exact fun c hc => absurd hc List.not_mem_nil
    | running _ chained _ => exact chained.typed
  have reference := drawn.reference hmove.reference
  have chained : Chained (run ++ [expr]) ty := .snoc typedRun hmove.typed
  cases he : ty.element? with
  | none =>
    have multi : ty.isMultiValued = false := by
      unfold Ty.isMultiValued
      rw [he]
      rfl
    have seen := Sight.stepped_single hstreaming expr he (!rest.isEmpty)
    have hidden : (if ty.isPrimitive then Gaps.boxed else .none) ≠ .hidden := by
      split <;> exact nofun
    rw [show s.after (.step expr ty) (!rest.isEmpty) = _ from seen] at next
    obtain ⟨made, m, hmade, typed, gives⟩ :=
      streamSound _ source (run ++ [expr]) n rfl (.running reference chained hidden) typed next
    refine ⟨made, m, ?_, typed, fun v os flows held => ?_⟩
    · rw [makes_stream_step, multi, if_neg (by decide)]
      exact hmade
    · have held' := held_performed locals hW hmove (!rest.isEmpty) held
      rw [perform_steps]
      simp only [multi, Bool.false_eq_true, if_false, id_map'] at held' ⊢
      rw [seen] at held' ⊢
      exact gives v _ (flows.step drawn hW held hmove closed) held'
  | some elem =>
    have multi : ty.isMultiValued = true := by
      unfold Ty.isMultiValued
      rw [he]
      rfl
    have seen := Sight.stepped_multi hstreaming expr he (!rest.isEmpty)
    rw [show s.after (.step expr ty) (!rest.isEmpty) = _ from seen] at next
    obtain ⟨staged, mid, hstage, helem, typedStage, streams⟩ :=
      makes_flatMap W locals b isA reference chained he n
    obtain ⟨made, m, hmade, typed, gives⟩ :=
      streamSound ⟨elem, true, .none⟩ staged [] mid rfl (.flushed (.inl helem) nofun nofun) typedStage
        next
    refine ⟨made, m, ?_, typed, fun v os flows held => ?_⟩
    · rw [makes_stream_step, multi, if_pos rfl]
      exact ⟨staged, mid, hstage, hmade⟩
    · have held' := held_performed locals hW hmove (!rest.isEmpty) held
      rw [perform_steps]
      simp only [multi, if_true] at held' ⊢
      rw [seen] at held' ⊢
      exact gives v _ (.flushed (streams v _ (flows.step drawn hW held hmove closed) (by simp))) held'

theorem stream_predicate (streamSound : StreamSound isA classes W locals b rest) {x : String}
    {cond : Node} {ty : Ty} : StreamSound isA classes W locals b (.predicate x cond ty :: rest) := by
  intro s source run n hstreaming drawn typed ready
  have closed := ready.closed _ (List.mem_cons_self ..)
  have next := ready.next
  obtain ⟨flushed, mid, hflush, drawn', -, streams⟩ :=
    makes_flushed isA W locals b drawn typed n
  obtain ⟨elems, boxed, hidden⟩ := drawn'.elem
  have streaming : (s.after (.predicate x cond ty) (!rest.isEmpty)).streaming = true :=
    (s.after_predicate_streaming ..).trans hstreaming
  have filtered : Drawn (s.after (.predicate x cond ty) (!rest.isEmpty))
      ⟨pipeOf .filter flushed.node x (nullSafe x cond flushed.elem) flushed.elem, flushed.elem⟩ [] := by
    unfold Sight.after
    simp only
    split
    · exact .flushed elems nofun nofun
    · exact .flushed elems boxed hidden
  obtain ⟨made, m, hmade, typed, gives⟩ := streamSound _ _ [] mid streaming filtered rfl next
  refine ⟨made, m, makes_stream_predicate.2 ⟨flushed, mid, hflush, hmade⟩, typed,
    fun v os flows held => ?_⟩
  · have blind : ∀ items ∈ os, ∀ i ∈ items, i.isNull = true →
        s.overlooks (.predicate x cond ty) = flushed.elem.isPrimitive := by
      intro items hi i hm hnull
      unfold Sight.overlooks
      rw [hstreaming, Bool.true_and]
      cases held items hi with
      | many _ _ nonNull primitive =>
        cases hgaps : s.gaps with
        | none =>
          refine (Bool.eq_false_iff.2 fun hprim => ?_).symm
          have prim : s.ty.isPrimitive = true := by
            rcases elems with h | h
            · rw [← h]
              exact hprim
            · rw [h, s.ty.boxed_reference] at hprim
              cases hprim
          rw [nonNull hgaps prim i hm] at hnull
          cases hnull
        | boxed =>
          rw [boxed hgaps]
          rfl
        | hidden =>
          rw [hidden hgaps, primitive (by rw [hgaps]; exact nofun)]
          rfl
    have filtered := streams_filter (x := x) (streams v os flows) closed blind
    have onward : (os >>= fun items => perform W locals s (.many items) (.predicate x cond ty :: rest)) =
        (os >>= fun items => List.flatten <$> items.mapM fun v =>
          if v.isNull && !s.overlooks (.predicate x cond ty) then pure []
          else
            (fun verdict => if verdict.bool? = some true then [v] else []) <$>
              W.evaluate ((x, v) :: locals) cond) >>=
          fun items => perform W locals (s.after (.predicate x cond ty) (!rest.isEmpty)) (.many items)
            rest := by
      rw [bind_assoc]
      refine Attempt.bind_congr fun items _ => ?_
      show (_ <$> _) >>= _ = _
      rw [bind_map_left, bind_map_left]
    rw [onward]
    refine gives v _ (.flushed filtered) fun items hi => ?_
    obtain ⟨before, hb, hkept⟩ := Attempt.mem_bind.1 hi
    obtain ⟨kept, hmem, rfl⟩ := Attempt.mem_map.1 hkept
    exact Focus.held_kept (held before hb) hmem _

theorem stream_reduce (hW : W.WellTyped isA classes)
    (scalarSound : ScalarSound isA classes W locals b rest) {r : Reduction} {ty : Ty} :
    StreamSound isA classes W locals b (.reduce r ty :: rest) := by
  intro s source run n hstreaming drawn typed ready
  obtain ⟨_, rfl, elem⟩ := linkFit_reduce.1 ready.fit.1
  rw [hstreaming, if_pos rfl] at elem
  subst elem
  have next := ready.next
  obtain ⟨flushed, mid, hflush, drawn', -, streams⟩ :=
    makes_flushed isA W locals b drawn typed n
  obtain ⟨made, m, hmade, typed, gives⟩ :=
    lowering_collected flushed scalarSound mid drawn'.elem.1 next
  refine ⟨made, m, makes_stream_reduce.2 ⟨flushed, mid, hflush, hmade⟩, typed,
    fun v os flows held => ?_⟩
  have onward : (os >>= fun items =>
      perform W locals s (.many items) (.reduce r (r.collectionTy s.ty) :: rest)) =
        os >>= fun items => perform W locals (s.reduced (r.collectionTy s.ty))
          (.one (.collected r items)) rest := by
    refine Attempt.bind_congr fun items _ => ?_
    show pure _ >>= _ = _
    rw [pure_bind]
    rfl
  rw [onward]
  refine gives v os (streams v os flows) fun items hi => ?_
  cases held items hi with
  | many _ all nonNull primitive => exact Focus.held_collected hW all nonNull primitive

variable (locals b) in
theorem lowering_sound (hW : W.WellTyped isA classes) (links : List Link) :
    ScalarSound isA classes W locals b links ∧ StreamSound isA classes W locals b links := by
  induction links with
  | nil => exact ⟨scalar_nil, stream_nil⟩
  | cons link rest ih =>
    obtain ⟨scalarSound, streamSound⟩ := ih
    cases link with
    | step expr ty =>
      exact ⟨scalar_step hW scalarSound streamSound, stream_step hW streamSound⟩
    | predicate x cond ty => exact ⟨scalar_predicate scalarSound, stream_predicate streamSound⟩
    | reduce r ty => exact ⟨scalar_reduce hW scalarSound, stream_reduce hW scalarSound⟩

/-- Evaluation finds what a node gives. -/
theorem Gives.evaluate {n : Node} {o : Attempt Access Value} (h : Gives W locals n [] o) :
    W.evaluate locals n = o := by
  have run := h [] []
  unfold World.evaluate
  cases o with
  | failed =>
    obtain ⟨crash, hrun⟩ := run
    have hrun : exec W n { locals } = .error crash := hrun
    rw [hrun]
  | done v log =>
    obtain ⟨log', hlog, hrun⟩ := run
    have hrun : exec W n { locals } = .ok ⟨[v], locals, log'⟩ := hrun
    rw [hrun]
    show Attempt.done v (log' : Multiset Access) = _
    rw [hlog]
    exact congrArg (Attempt.done v) (Multiset.zero_add log)

/-- An expression that a navigation can start with. -/
structure Head (isA : Ty → Value → Prop) (W : World) (locals : List (String × Value)) (expr : Node)
    (ty : Ty) : Prop where
  typed : expr.ty = some ty
  closed : Closed W locals expr
  holds : ∀ v ∈ W.evaluate locals expr, Typed isA ty v

theorem Head.leads {expr : Node} {ty : Ty} (h : Head isA W locals expr ty)
    (hthis : W.this.isNull = false) : Leads W locals b [expr] ty [] (W.evaluate locals expr) := by
  cases hexpr : expr.isThis with
  | true =>
    have this : W.evaluate locals expr = pure W.this := by
      obtain ⟨span, ty', kind⟩ := expr
      cases kind
      case this => exact gives_this.evaluate
      all_goals cases hexpr
    rw [this]
    exact .this hthis h.typed hexpr
  | false => exact .single h.typed hexpr h.closed fun hprim v hv => (h.holds v hv).nonNull hprim

/-- Some condition is on elements of which some can be null and lowering does not see it. -/
def overlooked : List Link → Bool
  | .step _ ty :: rest => (Sight.behind ty rest).overlooked rest
  | _ => false

/-- The value of a navigation if conditions on overlooked elements are asked of null too. -/
def performance (W : World) (locals : List (String × Value)) : List Link → Attempt Access Value
  | .step expr ty :: rest =>
    W.evaluate locals expr >>= fun v =>
      perform W locals (.behind ty rest) (.of (ty.isMultiValued && !rest.isEmpty) v) rest
  | _ => .failed

theorem performance_eq {links : List Link} (h : overlooked links = false) :
    performance W locals links = reading W locals links := by
  cases links with
  | nil => rfl
  | cons link rest =>
    cases link with
    | step expr ty => exact Attempt.bind_congr fun v _ => perform_eq h
    | predicate | reduce => rfl

/-- Links from a head are lowered, and the machine performs them. -/
theorem lowering_performs (hW : W.WellTyped isA classes) {expr : Node} {ty : Ty}
    (head : Head isA W locals expr ty) (ready : Ready classes W locals (.behind ty rest) rest)
    (n : Nat) :
    ∃ made m, Makes (scalar b [] (.step expr ty :: rest)) n made m ∧
      Gives W locals made [] (performance W locals (.step expr ty :: rest)) := by
  obtain ⟨scalarSound, streamSound⟩ := lowering_sound locals b hW rest
  obtain ⟨made, m, hmade, -, gives⟩ :=
    lowering_behind (s := { ty }) scalarSound streamSound n rfl nofun
      (fun (c : Node) (hc : c ∈ []) => absurd hc List.not_mem_nil) head.typed ready
  exact ⟨made, m, hmade, gives [] _ (head.leads hW.this_nonNull) fun v hv =>
    .one rfl rfl (head.holds v hv)⟩

/-- The arguments of a step have values, and a condition decides about what it is asked. -/
def Link.Decided (isA : Ty → Value → Prop) (classes : ClassTable) (W : World)
    (locals : List (String × Value)) : Link → Prop
  | step expr _ => ∀ a ∈ expr.arguments, ∃ v, v ∈ W.evaluate locals a
  | predicate x cond ty => ∀ (v : Value) (t : Ty), Typed isA t v → SameMembers classes t ty →
      v.isNull = false → ∃ verdict, .ofBool verdict ∈ W.evaluate ((x, v) :: locals) cond
  | reduce _ _ => True

theorem Movable.done {receiver ty t : Ty} {expr : Node} {v : Value}
    (h : Movable classes receiver expr ty) (hW : W.WellTyped isA classes) (hv : Typed isA t v)
    (ht : SameMembers classes t receiver) (hnull : v.isNull = false)
    (decided : (Link.step expr ty).Decided isA classes W locals) :
    ∃ u, u ∈ W.step locals expr v := by
  obtain ⟨-, -, step, answer⟩ := h
  cases answer with
  | receiver => exact ⟨v, Attempt.mem_pure.2 rfl⟩
  | @property name found has =>
    rw [← ht.1] at has
    obtain ⟨u, hread, -⟩ := hW.reads has hv hnull
    refine ⟨u, {⟨v, name⟩}, ?_⟩
    show W.reads v name = _
    unfold World.reads
    rw [hnull, hread]
    rfl
  | @method name found has =>
    rw [← ht.2] at has
    obtain ⟨args, hargs⟩ := Attempt.exists_mem_mapM decided
    have arity : args.length =
        (Request.args ⟨step, .stackedOf receiver, receiver, classes⟩).length :=
      Attempt.length_of_mem_mapM hargs
    rw [← arity] at has
    obtain ⟨u, hcall, -⟩ := hW.calls has hv hnull
    refine ⟨u, Attempt.mem_bind.2 ⟨args, hargs, {⟨v, name ++ "()"⟩}, ?_⟩⟩
    unfold World.calls
    rw [hnull, hcall]
    rfl

theorem advance_done (hW : W.WellTyped isA classes) (fit : LinkFit (Movable classes) s link)
    (decided : link.Decided isA classes W locals) (seen : s.overlooks link = false) {f : Focus}
    (held : Focus.Held isA s f) (more : Bool) :
    ∃ f', f' ∈ f.advance W locals link more (s.overlooks link) := by
  rw [seen]
  cases f with
  | one v =>
    cases hnull : v.isNull with
    | true => exact ⟨.one .null, by rw [Focus.advance_null hnull, Attempt.mem_pure]⟩
    | false =>
      obtain ⟨t, typed, same⟩ := held.typed hW hnull
      cases fit with
      | step hmove =>
        obtain ⟨u, hu⟩ := hmove.done hW typed same hnull decided
        exact ⟨_, by rw [Focus.advance_step hnull]; exact Attempt.mem_map.2 ⟨u, hu, rfl⟩⟩
      | predicate x cond =>
        obtain ⟨verdict, hv⟩ := decided v t typed same hnull
        refine ⟨.one (if verdict then v else .null), ?_⟩
        rw [Focus.advance_predicate hnull]
        refine Attempt.mem_map.2 ⟨_, Attempt.mem_bind.2 ⟨_, hv, ?_⟩, rfl⟩
        cases verdict with
        | true => exact Attempt.mem_pure.2 rfl
        | false => exact Attempt.mem_pure.2 rfl
      | reduce => exact ⟨_, by rw [Focus.advance_reduce hnull]; exact Attempt.mem_pure.2 rfl⟩
  | many items =>
    have typed : ∀ i ∈ items, i.isNull = false → Typed isA s.ty i := by
      cases held with
      | many _ all _ _ => exact fun i hi hnull => (all i hi).typed hnull
    have same : SameMembers classes s.ty s.ty := ⟨fun _ => rfl, fun _ _ => rfl⟩
    cases fit with
    | @step expr ty hmove =>
      obtain ⟨found, hfound⟩ : ∃ found, found ∈ items.mapM (unlessNull (W.step locals expr)) := by
        refine Attempt.exists_mem_mapM fun i hi => ?_
        cases hnull : i.isNull with
        | true => exact ⟨.null, by rw [Value.eq_null hnull]; exact Attempt.mem_pure.2 rfl⟩
        | false =>
          rw [unlessNull_of hnull]
          exact hmove.done hW (typed i hi hnull) same hnull decided
      exact ⟨_, Attempt.mem_map.2 ⟨found, hfound, rfl⟩⟩
    | predicate x cond =>
      obtain ⟨kept, hkept⟩ : ∃ kept, kept ∈ items.mapM fun v : Value =>
          if v.isNull && !false then (pure [] : Attempt Access (List Value))
          else
            (fun verdict : Value => if verdict.bool? = some true then [v] else []) <$>
              W.evaluate ((x, v) :: locals) cond := by
        refine Attempt.exists_mem_mapM fun i hi => ?_
        cases hnull : i.isNull with
        | true => exact ⟨[], Attempt.mem_pure.2 rfl⟩
        | false =>
          obtain ⟨verdict, hv⟩ := decided i _ (typed i hi hnull) same hnull
          exact ⟨_, Attempt.mem_map.2 ⟨_, hv, rfl⟩⟩
      exact ⟨_, Attempt.mem_map.2 ⟨kept, hkept, rfl⟩⟩
    | reduce => exact ⟨_, Attempt.mem_pure.2 rfl⟩

theorem perform_done (hW : W.WellTyped isA classes) {links : List Link} {f : Focus}
    (fit : Fit (Movable classes) s links) (decided : ∀ link ∈ links, link.Decided isA classes W locals)
    (seen : s.overlooked links = false) (held : Focus.Held isA s f) :
    ∃ v, v ∈ perform W locals s f links := by
  induction links generalizing s f with
  | nil => exact ⟨f.value, Attempt.mem_pure.2 rfl⟩
  | cons link rest ih =>
    obtain ⟨hlink, hrest⟩ := Bool.or_eq_false_iff.1 seen
    obtain ⟨next, hnext⟩ := advance_done hW fit.1 (decided link (List.mem_cons_self ..)) hlink held
      (!rest.isEmpty)
    obtain ⟨v, hv⟩ := ih fit.2 (fun l hl => decided l (List.mem_cons_of_mem _ hl)) hrest
      (Focus.held_advance hW fit.1 _ held hnext)
    exact ⟨v, Attempt.mem_bind.2 ⟨next, hnext, hv⟩⟩

/-- A navigation whose head, arguments and conditions have values has one. -/
theorem reading_done (hW : W.WellTyped isA classes) {expr : Node} {ty : Ty} {v : Value}
    (head : Head isA W locals expr ty) (fit : Fit (Movable classes) (.behind ty rest) rest)
    (hv : v ∈ W.evaluate locals expr)
    (decided : ∀ link ∈ rest, link.Decided isA classes W locals)
    (seen : overlooked (.step expr ty :: rest) = false) :
    ∃ u, u ∈ reading W locals (.step expr ty :: rest) := by
  rw [← performance_eq seen]
  have held := Focus.held_of (s := { ty }) (.one rfl rfl (head.holds v hv)) (!rest.isEmpty)
  obtain ⟨u, hu⟩ := perform_done hW fit decided seen held
  exact ⟨u, Attempt.mem_bind.2 ⟨v, hv, hu⟩⟩

end NavScript
