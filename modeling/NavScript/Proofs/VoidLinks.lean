import NavScript.Proofs.Voids

/-!
# Void values in lowered navigations

Which void links lowering boxes can be told from what is in view (`boxesVoid`): under a condition on
one value, behind another node and over elements. No other conversion is applied to void
(`lowered_voided`).
-/

namespace NavScript

namespace Lower

section

variable {typing : Node → Option Ty} (keeps : KeepsTypes typing) {b : Bool}
include keeps

/-- A chain that starts with a reference other than `this` is one. -/
theorem close_reference {first made : Node} {rest : List Node} {u : Ty} (hfirst : first.Firm typing u)
    (other : first.isThis = false) (reference : u.isPrimitive = false)
    (hmade : close b (first :: rest) = .ok made) :
    ∃ t, made.Firm typing t ∧ t.isPrimitive = false := by
  rw [close_other other] at hmade
  obtain ⟨t, ht⟩ := guardLinks_firm keeps ⟨u, hfirst⟩ hmade
  refine ⟨t, ht, ?_⟩
  cases rest with
  | nil =>
    cases hmade
    rwa [← hfirst.unique ht]
  | cons next rest =>
    obtain ⟨body, -, hlink⟩ := guardLinks_cons.1 hmade
    obtain ⟨subjectTy, bodyTy, hsubject, -, rfl⟩ := guardLink_ok.1 hlink
    rcases handed_ty b subjectTy bodyTy first body with ty | ⟨primitive, -⟩
    · rw [← Option.some.inj (ty.symm.trans ht.1)]
      exact bodyTy.boxed_reference
    · rw [← Option.some.inj (hfirst.1.symm.trans hsubject), reference] at primitive
      cases primitive

/-- What is lowered behind such a start is a reference. -/
theorem scalar_reference : ∀ (links : List Link) {first made : Node} {rest : List Node} {n m : Nat}
    {u : Ty}, first.Firm typing u → first.isThis = false → u.isPrimitive = false →
      Makes (scalar b (first :: rest) links) n made m → ∃ t, made.Firm typing t ∧ t.isPrimitive = false
  | [], _, _, _, _, _, _, hfirst, other, reference, hmade =>
    close_reference keeps hfirst other reference (makes_scalar_nil.1 hmade).1
  | .step expr ty :: links, _, _, _, _, _, _, hfirst, other, reference, hmade => by
    rw [makes_scalar_step] at hmade
    split at hmade
    · obtain ⟨_, _, -, -, hclose⟩ := hmade
      exact close_reference keeps hfirst other reference hclose
    · exact scalar_reference links hfirst other reference hmade
  | .predicate x cond ty :: links, _, _, _, _, _, _, hfirst, other, reference, hmade =>
    scalar_reference links hfirst other reference (makes_scalar_predicate.1 hmade)
  | .reduce r ty :: links, _, _, _, _, _, _, hfirst, other, reference, hmade => by
    obtain ⟨_, _, _, -, -, -, hclose⟩ := makes_scalar_reduce.1 hmade
    exact close_reference keeps hfirst other reference hclose

theorem collectInto_firm (source : Source) (r : Reduction) :
    (collectInto source r).Firm typing (r.collectionTy source.elem) ∧
      (r.collectionTy source.elem).isPrimitive = false := by
  refine ⟨keeps.firm rfl (by simp [Node.label, collectInto, Kind.label]), ?_⟩
  cases r <;> rfl

theorem pipeOf_firm (op : StageKind) (source : Node) (x : String) (body : Node) (elem : Ty) :
    ∃ t, (pipeOf op source x body elem).Firm typing t ∧ t.isPrimitive = false :=
  ⟨_, keeps.firm rfl (by simp [Node.label, pipeOf, Kind.label]), rfl⟩

theorem stage_reference {source next : Source} {run : List Node} {flatten : Bool} {n m : Nat}
    (hstage : Makes (stage b source run flatten) n next m) :
    ∃ t, next.node.Firm typing t ∧ t.isPrimitive = false := by
  obtain ⟨body, bodyTy, -, -, -, hnext⟩ := makes_stage.1 hstage
  split at hnext
  · obtain ⟨inner, -, rfl⟩ := hnext
    exact pipeOf_firm keeps ..
  · rw [hnext]
    exact pipeOf_firm keeps ..

theorem flush_reference {source next : Source} {run : List Node} {n m : Nat}
    (hsource : ∃ t, source.node.Firm typing t ∧ t.isPrimitive = false)
    (hflush : Makes (flush b source run) n next m) :
    ∃ t, next.node.Firm typing t ∧ t.isPrimitive = false := by
  rcases makes_flush.1 hflush with ⟨-, rfl, -⟩ | ⟨-, hstage⟩
  · exact hsource
  · exact stage_reference keeps hstage

theorem stream_reference : ∀ (links : List Link) {source : Source} {run : List Node} {made : Node}
    {n m : Nat}, (∃ t, source.node.Firm typing t ∧ t.isPrimitive = false) →
      Makes (stream b source run links) n made m → ∃ t, made.Firm typing t ∧ t.isPrimitive = false
  | [], _, _, _, _, _, hsource, hmade => by
    obtain ⟨last, hflush, rfl⟩ := makes_stream_nil.1 hmade
    exact flush_reference keeps hsource hflush
  | .step expr ty :: links, _, _, _, _, _, hsource, hmade => by
    rw [makes_stream_step] at hmade
    split at hmade
    · obtain ⟨_, _, hstage, hmade⟩ := hmade
      exact stream_reference links (stage_reference keeps hstage) hmade
    · exact stream_reference links hsource hmade
  | .predicate x cond ty :: links, _, _, _, _, _, _, hmade => by
    obtain ⟨_, _, -, hmade⟩ := makes_stream_predicate.1 hmade
    exact stream_reference links (pipeOf_firm keeps ..) hmade
  | .reduce r ty :: links, _, _, _, _, _, _, hmade => by
    obtain ⟨next, _, -, hmade⟩ := makes_stream_reduce.1 hmade
    obtain ⟨firm, reference⟩ := collectInto_firm keeps next r
    exact scalar_reference keeps links firm rfl reference hmade

end

end Lower

/-- The conversions of void in what a link is made of. -/
def Link.voided (typing : Node → Option Ty) : Link → List Conversion
  | .step expr _ => expr.voided typing
  | .predicate _ cond _ => cond.voided typing
  | .reduce _ _ => []

/-- A link is of type void where lowering boxes it: a condition on one value, or a step behind another
node or over elements. -/
def Link.boxesVoid (behind streaming : Bool) : Link → Bool
  | .step _ ty => (behind || streaming) && ty.isVoid
  | .predicate _ _ ty => !streaming && ty.isVoid
  | .reduce _ _ => false

/-- Lowering boxes void at one of the links. -/
def boxesVoid (behind : Bool) (s : Sight) : List Link → Bool
  | [] => false
  | link :: rest =>
    link.boxesVoid behind s.streaming || boxesVoid true (s.after link (!rest.isEmpty)) rest

/-- The conversion is in what the links are made of, or void is boxed at one of them. -/
def linksVoided (typing : Node → Option Ty) (c : Conversion) (behind : Bool) (s : Sight)
    (links : List Link) : Prop :=
  (∃ link ∈ links, c ∈ link.voided typing) ∨ c = .box ∧ boxesVoid behind s links = true

namespace Lower

section

variable {typing : Node → Option Ty} {c : Conversion} {behind : Bool} {s : Sight}

theorem linksVoided_nil : ¬ linksVoided typing c behind s [] := by
  rintro (⟨l, hl, -⟩ | ⟨-, h⟩)
  · cases hl
  · cases h

theorem linksVoided_cons {link : Link} {rest : List Link} : linksVoided typing c behind s (link :: rest) ↔
      (c ∈ link.voided typing ∨ c = .box ∧ link.boxesVoid behind s.streaming = true) ∨
        linksVoided typing c true (s.after link (!rest.isEmpty)) rest := by
  unfold linksVoided
  rw [boxesVoid, Bool.or_eq_true, List.exists_mem_cons_iff, and_or_left]
  exact or_or_or_comm

end

/-- The conversion is in a link of the run of a stage, or it boxes a void one. -/
def runVoided (typing : Node → Option Ty) (c : Conversion) (run : List Node) : Prop :=
  (∃ n ∈ run, c ∈ n.voided typing) ∨ c = .box ∧ HoldsVoid run

/-- A sequence under construction, and the type in view behind its run. -/
structure Stretch (typing : Node → Option Ty) (source : Source) (run : List Node) (view : Ty) :
    Prop where
  row : ∀ x, Row typing (.localOf x source.elem :: run) view
  elem : run ≠ [] → source.elem.isPrimitive = false

section

variable {typing : Node → Option Ty} {c : Conversion} {b : Bool} {source next : Source}
  {run : List Node} {expr : Node} {view ty : Ty} {n m : Nat}

theorem runVoided_nil : ¬ runVoided typing c [] := by
  rintro (⟨n, hn, -⟩ | ⟨-, n, hn, -⟩) <;> cases hn

theorem runVoided_snoc (hexpr : expr.Firm typing ty) : runVoided typing c (run ++ [expr]) ↔
    runVoided typing c run ∨ c ∈ expr.voided typing ∨ c = .box ∧ ty = .void := by
  have void : expr.ty = some .void ↔ ty = .void := by rw [hexpr.1, Option.some.injEq]
  unfold runVoided HoldsVoid
  simp only [List.mem_append, List.mem_singleton, or_and_right, exists_or, exists_eq_left, void,
    and_or_left]
  exact or_or_or_comm

variable (keeps : KeepsTypes typing)
include keeps

theorem localOf_firm (x : String) (t : Ty) : (Node.localOf x t).Firm typing t :=
  keeps.firm rfl (by simp [Node.label, Node.localOf, Kind.label])

omit keeps in
/-- What the elements are mapped to: a row behind the element. -/
theorem chainVoided_element (x : String) (started : run ≠ []) (elem : ty.isPrimitive = false) :
    chainVoided typing c (.localOf x ty :: run) ↔ runVoided typing c run := by
  have inside : c ∉ (Node.localOf x ty).voided typing :=
    not_mem_voided_leaf (by simp [Kind.label]) rfl _ _
  have other : (Node.localOf x ty).ty ≠ some .void := fun hv =>
    Ty.ne_void elem (Option.some.inj hv)
  have long : 2 ≤ (Node.localOf x ty :: run).length ↔ True := by
    rw [← List.length_pos_iff] at started
    rw [List.length_cons, iff_true]
    omega
  unfold chainVoided runVoided HoldsVoid
  rw [List.exists_mem_cons_iff, List.exists_mem_cons_iff, or_iff_right inside, or_iff_right other, long,
    true_and]

theorem Stretch.start (node : Node) (elem : Ty) : Stretch typing ⟨node, elem⟩ [] elem :=
  ⟨fun x => .one (localOf_firm keeps x elem) (.inr rfl), fun h => absurd rfl h⟩

/-- A stage that maps leaves references. -/
theorem Stretch.mapped (node : Node) {elem : Ty} (reference : elem.isPrimitive = false) :
    Stretch typing ⟨node, elem⟩ [] view :=
  ⟨fun x => .one (localOf_firm keeps x elem) (.inl reference), fun h => absurd rfl h⟩

omit keeps in
/-- One more link of the run. -/
theorem Stretch.snoc (stretch : Stretch typing source run view) (reference : view.isPrimitive = false)
    (hexpr : expr.Firm typing ty) : Stretch typing source (run ++ [expr]) ty where
  row x := (stretch.row x).snoc reference hexpr
  elem _ := (stretch.row "").references reference _ (List.mem_cons_self ..) _ rfl

/-- A stage has what its source and its run have. -/
theorem Stretch.stage {flatten : Bool} (stretch : Stretch typing source run view) (started : run ≠ [])
    (hstage : Makes (stage b source run flatten) n next m) :
    c ∈ next.node.voided typing ↔ c ∈ source.node.voided typing ∨ runVoided typing c run := by
  obtain ⟨body, bodyTy, hbody, -, -, hnext⟩ := makes_stage.1 hstage
  have made : c ∈ body.voided typing ↔ runVoided typing c run :=
    ((stretch.row _).mem_voided_iff keeps hbody).trans
      (chainVoided_element _ started (stretch.elem started))
  split at hnext
  · obtain ⟨inner, -, rfl⟩ := hnext
    rw [pipeOf, mem_voided_pair (by simp [Kind.label]) rfl, mem_voided_unary (by simp [Kind.label]) rfl, made]
  · rw [hnext, pipeOf, mem_voided_pair (by simp [Kind.label]) rfl, made]

theorem Stretch.flush (stretch : Stretch typing source run view)
    (hflush : Makes (flush b source run) n next m) :
    (c ∈ next.node.voided typing ↔ c ∈ source.node.voided typing ∨ runVoided typing c run) ∧
      Stretch typing next [] view := by
  rcases makes_flush.1 hflush with ⟨rfl, rfl, -⟩ | ⟨started, hstage⟩
  · exact ⟨(or_iff_left runVoided_nil).symm, stretch⟩
  · refine ⟨stretch.stage keeps started hstage, ?_⟩
    obtain ⟨body, bodyTy, hbody, hty, -, hnext⟩ := makes_stage.1 hstage
    rw [if_neg (by simp)] at hnext
    subst hnext
    rw [← close_other rfl] at hbody
    obtain ⟨t, ht, reference⟩ :=
      close_reference keeps (localOf_firm keeps _ _) rfl (stretch.elem started) hbody
    rw [ht.1, Option.some.injEq] at hty
    subst hty
    exact .mapped keeps _ reference

/-- A run that ends multi-valued leaves the elements of its last link. -/
theorem Stretch.flattened {elem : Ty} (stretch : Stretch typing source (run ++ [expr]) ty)
    (typed : expr.ty = some ty) (helem : ty.element? = some elem)
    (hstage : Makes (Lower.stage b source (run ++ [expr]) true) n next m) :
    Stretch typing next [] elem := by
  obtain ⟨body, bodyTy, hbody, hty, -, hnext⟩ := makes_stage.1 hstage
  rw [if_pos rfl] at hnext
  obtain ⟨inner, hinner, rfl⟩ := hnext
  have chained : Chained (run ++ [expr]) ty := {
    typed r hr := by
      obtain ⟨u, hu⟩ := (stretch.row "").firm r (List.mem_cons_of_mem _ hr)
      rw [hu.1]
      rfl
    last := by
      rw [List.getLast?_concat]
      exact typed }
  have element : (Node.localOf (freshName "e" n) source.elem).ty = some source.elem := rfl
  obtain ⟨made, hmade, boxed⟩ := guardLinks_boxed (b := b) element (stretch.elem (by simp)) chained
  rw [hbody, Except.ok.injEq] at hmade
  subst hmade
  rw [hty, Option.some.injEq, Ty.boxed_of_reference (Sight.reference_of_element helem)] at boxed
  rw [boxed, helem, Option.some.injEq] at hinner
  subst hinner
  exact .start keeps _ _

end

section

variable (typing : Node → Option Ty) (c : Conversion) (classes : ClassTable) (b : Bool)

/-- Lowering in scalar context behind a chain. -/
def ScalarVoided (links : List Link) : Prop :=
  ∀ ⦃s : Sight⦄ ⦃chain : List Node⦄ ⦃made : Node⦄ ⦃n m : Nat⦄,
    Makes (scalar b chain links) n made m → s.streaming = false → Fit (Movable classes) s links →
    Line typing chain s.ty → (c ∈ made.voided typing ↔
      chainVoided typing c (unread chain) ∨ linksVoided typing c (!(unread chain).isEmpty) s links)

/-- Lowering over a sequence behind a source and a run. -/
def StreamVoided (links : List Link) : Prop :=
  ∀ ⦃s : Sight⦄ ⦃source : Source⦄ ⦃run : List Node⦄ ⦃made : Node⦄ ⦃n m : Nat⦄ (behind : Bool),
    Makes (stream b source run links) n made m → s.streaming = true → Fit (Movable classes) s links →
    Stretch typing source run s.ty → (c ∈ made.voided typing ↔ c ∈ source.node.voided typing ∨
      runVoided typing c run ∨ linksVoided typing c behind s links)

end

section

variable {typing : Node → Option Ty} {c : Conversion} {classes : ClassTable} {b : Bool} {s : Sight}
  {rest : List Link} {chain : List Node} {expr made : Node} {ty : Ty} {n m : Nat}
  (keeps : KeepsTypes typing)
include keeps

theorem stackedSequence_firm (multi elem : Ty) :
    (stackedSequence multi elem).Firm typing (streamOf elem) :=
  keeps.firm rfl (by simp [Node.label, stackedSequence, Kind.label])

omit keeps in
theorem not_mem_voided_stackedSequence (multi elem : Ty) :
    c ∉ (stackedSequence multi elem).voided typing := by
  rw [stackedSequence, mem_voided_unary (by simp [Kind.label]) rfl]
  exact not_mem_voided_leaf (by simp [Kind.label]) rfl _ _

theorem movable_firm (h : Movable classes s.ty expr ty) : expr.Firm typing ty := by
  obtain ⟨-, typed, step, answer⟩ := h
  refine keeps.firm typed ?_
  cases answer <;> simp [Node.label, Request.propertyRead, Request.methodCall, Node.stackedOf, Node.withTy,
    Kind.label]

/-- Behind a step that is done links go on over its elements or over its value. -/
theorem behind_voided (scalarVoided : ScalarVoided typing c classes b rest)
    (streamVoided : StreamVoided typing c classes b rest) (hs : s.streaming = false)
    (hmade : Makes (scalar b chain (.step expr s.ty :: rest)) n made m)
    (fit : Fit (Movable classes) (s.entered (!rest.isEmpty)) rest)
    (line : Line typing (chain ++ [expr]) s.ty) : c ∈ made.voided typing ↔
      chainVoided typing c (unread (chain ++ [expr])) ∨
        linksVoided typing c (!(unread (chain ++ [expr])).isEmpty) (s.entered (!rest.isEmpty)) rest := by
  rw [makes_scalar_step] at hmade
  unfold Sight.entered at fit ⊢
  unfold Ty.isMultiValued at hmade
  cases helem : s.ty.element? with
  | none =>
    simp only [helem, Option.isSome_none, Bool.false_and, Bool.false_eq_true, if_false] at hmade fit ⊢
    exact scalarVoided hmade hs fit line
  | some elem =>
    cases hrest : rest.isEmpty with
    | true =>
      simp only [helem, hrest, Option.isSome_some, Bool.not_true, Bool.and_false, Bool.false_eq_true,
        if_false] at hmade fit ⊢
      exact scalarVoided hmade hs fit line
    | false =>
      simp only [helem, hrest, Option.isSome_some, Bool.not_false, Bool.and_true, if_true] at hmade fit ⊢
      obtain ⟨_, tail, helem', htail, hclose⟩ := hmade
      cases helem'
      have collected := streamVoided (s := { s with ty := elem, streaming := true })
        (!(unread (chain ++ [expr])).isEmpty) htail rfl fit (.start keeps _ elem)
      obtain ⟨t, ht, reference⟩ :=
        stream_reference keeps rest ⟨_, stackedSequence_firm keeps s.ty elem, rfl⟩ htail
      have opening := stream_opening rest htail (opening_stacked s.ty elem)
      have multi := Sight.reference_of_element helem
      rw [List.append_cons] at hclose
      rw [(line.snoc multi ht opening.first (line.receiver opening.receiver)).mem_voided_iff keeps hclose,
        unread_snoc line.started, chainVoided_snoc line.row multi ht, collected,
        or_iff_right (not_mem_voided_stackedSequence s.ty elem), or_iff_right runVoided_nil]
      have other : t ≠ .void := Ty.ne_void reference
      simp only [other, and_false, or_false]

theorem scalarVoided_nil : ScalarVoided typing c classes b [] := by
  intro s chain made n m hmade _ _ line
  rw [or_iff_left linksVoided_nil]
  exact line.mem_voided_iff keeps (makes_scalar_nil.1 hmade).1

theorem scalarVoided_step (scalarVoided : ScalarVoided typing c classes b rest)
    (streamVoided : StreamVoided typing c classes b rest) :
    ScalarVoided typing c classes b (.step expr ty :: rest) := by
  rintro s chain made n m hmade hs ⟨fitStep, fitRest⟩ line
  have hmove : Movable classes s.ty expr ty := by
    cases fitStep
    assumption
  have firm : expr.Firm typing ty := movable_firm keeps hmove
  have longer := line.snoc hmove.reference firm hmove.first (line.receiver hmove.receiverTy)
  have seen : s.after (.step expr ty) (!rest.isEmpty) =
      Sight.entered ⟨ty, false, if expr.isStacked then s.gaps else .none⟩ (!rest.isEmpty) :=
    Sight.stepped_scalar hs ..
  rw [linksVoided_cons]
  rw [seen] at fitRest ⊢
  have behind := behind_voided keeps scalarVoided streamVoided rfl hmade fitRest longer
  rw [unread_snoc line.started, chainVoided_snoc line.row hmove.reference firm] at behind
  have here : Link.boxesVoid (!(unread chain).isEmpty) s.streaming (.step expr ty) = true ↔
      unread chain ≠ [] ∧ ty = .void := by
    simp [Link.boxesVoid, hs, Ty.isVoid_iff]
  have more : (!(unread chain ++ [expr]).isEmpty) = true := by simp
  rw [behind, here, more, or_assoc]
  rfl

theorem scalarVoided_predicate (scalarVoided : ScalarVoided typing c classes b rest) {x : String}
    {cond : Node} : ScalarVoided typing c classes b (.predicate x cond ty :: rest) := by
  rintro s chain made n m hmade hs ⟨fitHere, fitRest⟩ line
  obtain rfl := linkFit_predicate.1 fitHere
  rw [linksVoided_cons]
  rw [Sight.after_predicate_scalar hs] at fitRest ⊢
  have behind := scalarVoided (makes_scalar_predicate.1 hmade) hs fitRest (line.keep keeps x cond)
  rw [unread_snoc line.started, chainVoided_keep line.row keeps] at behind
  have here : Link.boxesVoid (!(unread chain).isEmpty) s.streaming (.predicate x cond s.ty) = true ↔
      s.ty = .void := by
    simp [Link.boxesVoid, hs, Ty.isVoid_iff]
  have more : (!(unread chain ++ [keepIf x cond s.ty]).isEmpty) = true := by simp
  rw [behind, here, more, or_assoc]
  rfl

theorem scalarVoided_reduce (scalarVoided : ScalarVoided typing c classes b rest) {r : Reduction} :
    ScalarVoided typing c classes b (.reduce r ty :: rest) := by
  rintro s chain made n m hmade hs ⟨fitHere, fitRest⟩ line
  obtain ⟨multi, elem, tail, hmulti, helem, htail, hclose⟩ := makes_scalar_reduce.1 hmade
  have many : s.ty.isPrimitive = false := by
    obtain ⟨_, -, h⟩ := linkFit_reduce.1 fitHere
    rw [hs] at h
    exact Sight.reference_of_element h
  obtain ⟨firm, reference⟩ := collectInto_firm keeps ⟨stackedSequence multi elem, elem⟩ r
  have collected := scalarVoided htail rfl fitRest (.one firm rfl (.inl reference))
  have inside : c ∉ (collectInto ⟨stackedSequence multi elem, elem⟩ r).voided typing := by
    rw [collectInto, mem_voided_unary (by simp [Kind.label]) rfl]
    exact not_mem_voided_stackedSequence multi elem
  obtain ⟨t, ht, tailReference⟩ := scalar_reference keeps rest firm rfl reference htail
  have opening := scalar_opening rest htail
    ⟨List.cons_ne_nil _ _, opening_collect (opening_stacked multi elem) r⟩
  have receiver : ∀ head, chain = [head] → head.isThis = true → tail.receiverTy = head.ty := by
    rintro head rfl -
    exact opening.receiver.trans (multiValuedEnd_ok hmulti).1.symm
  have other : t ≠ .void := Ty.ne_void tailReference
  rw [(line.snoc many ht opening.first receiver).mem_voided_iff keeps hclose, unread_snoc line.started,
    chainVoided_snoc line.row many ht, collected, unread_other rfl, chainVoided_one,
    or_iff_right inside, linksVoided_cons]
  simp only [other, and_false, or_false, Link.voided, Link.boxesVoid, List.not_mem_nil,
    Bool.false_eq_true, false_or]
  rfl

theorem streamVoided_nil : StreamVoided typing c classes b [] := by
  intro s source run made n m behind hmade _ _ stretch
  obtain ⟨last, hflush, rfl⟩ := makes_stream_nil.1 hmade
  rw [or_iff_left linksVoided_nil]
  exact (stretch.flush keeps hflush).1

theorem streamVoided_step (streamVoided : StreamVoided typing c classes b rest) :
    StreamVoided typing c classes b (.step expr ty :: rest) := by
  rintro s source run made n m behind hmade hs ⟨fitHere, fitRest⟩ stretch
  have hmove := linkFit_step.1 fitHere
  have firm : expr.Firm typing ty := movable_firm keeps hmove
  have longer := stretch.snoc hmove.reference firm
  have here : Link.boxesVoid behind s.streaming (.step expr ty) = true ↔ ty = .void := by
    simp [Link.boxesVoid, hs, Ty.isVoid_iff]
  rw [makes_stream_step] at hmade
  unfold Ty.isMultiValued at hmade
  rw [linksVoided_cons, here]
  cases helem : ty.element? with
  | none =>
    rw [helem, if_neg (by decide)] at hmade
    rw [show s.after (.step expr ty) (!rest.isEmpty) = _ from Sight.stepped_single hs expr helem _]
      at fitRest ⊢
    rw [streamVoided true hmade rfl fitRest longer, runVoided_snoc firm, or_assoc]
    rfl
  | some elem =>
    rw [helem, Option.isSome_some, if_pos rfl] at hmade
    rw [show s.after (.step expr ty) (!rest.isEmpty) = _ from Sight.stepped_multi hs expr helem _]
      at fitRest ⊢
    obtain ⟨next, mid, hstage, hmade⟩ := hmade
    have flat := longer.flattened keeps firm.1 helem hstage
    rw [streamVoided true hmade rfl fitRest flat, longer.stage keeps (by simp) hstage,
      runVoided_snoc firm, or_iff_right runVoided_nil, or_assoc, or_assoc]
    rfl

theorem streamVoided_predicate (streamVoided : StreamVoided typing c classes b rest) {x : String}
    {cond : Node} : StreamVoided typing c classes b (.predicate x cond ty :: rest) := by
  rintro s source run made n m behind hmade hs ⟨-, fitRest⟩ stretch
  obtain ⟨next, mid, hflush, hmade⟩ := makes_stream_predicate.1 hmade
  obtain ⟨flushed, after⟩ := stretch.flush (c := c) keeps hflush
  obtain ⟨gaps, seen⟩ := s.after_predicate x cond ty (!rest.isEmpty)
  rw [linksVoided_cons]
  rw [seen] at fitRest ⊢
  have filtered : c ∈ (pipeOf .filter next.node x (nullSafe x cond next.elem) next.elem).voided typing ↔
      c ∈ next.node.voided typing ∨ c ∈ cond.voided typing := by
    rw [pipeOf, mem_voided_pair (by simp [Kind.label]) rfl, mem_voided_nullSafe]
  rw [streamVoided (s := { s with gaps }) true hmade hs fitRest ⟨after.row, after.elem⟩, filtered, flushed,
    or_iff_right runVoided_nil]
  simp only [Link.voided, Link.boxesVoid, hs, Bool.not_true, Bool.false_and, Bool.false_eq_true, and_false,
    or_false, or_assoc]

theorem streamVoided_reduce (scalarVoided : ScalarVoided typing c classes b rest) {r : Reduction} :
    StreamVoided typing c classes b (.reduce r ty :: rest) := by
  rintro s source run made n m behind hmade hs ⟨-, fitRest⟩ stretch
  obtain ⟨next, mid, hflush, hmade⟩ := makes_stream_reduce.1 hmade
  obtain ⟨flushed, -⟩ := stretch.flush (c := c) keeps hflush
  obtain ⟨firm, reference⟩ := collectInto_firm keeps next r
  have inside : c ∈ (collectInto next r).voided typing ↔ c ∈ next.node.voided typing :=
    mem_voided_unary (by simp [Kind.label]) rfl ..
  rw [scalarVoided hmade rfl fitRest (.one firm rfl (.inl reference)), unread_other rfl, chainVoided_one,
    inside, flushed, linksVoided_cons, or_assoc]
  simp only [Link.voided, Link.boxesVoid, List.not_mem_nil, Bool.false_eq_true, and_false, or_false,
    false_or]
  rfl

variable (typing c classes b) in
theorem links_voided (links : List Link) :
    ScalarVoided typing c classes b links ∧ StreamVoided typing c classes b links := by
  induction links with
  | nil => exact ⟨scalarVoided_nil keeps, streamVoided_nil keeps⟩
  | cons link rest ih =>
    obtain ⟨scalarVoided, streamVoided⟩ := ih
    cases link with
    | step expr ty =>
      exact ⟨scalarVoided_step keeps scalarVoided streamVoided, streamVoided_step keeps streamVoided⟩
    | predicate x cond ty =>
      exact ⟨scalarVoided_predicate keeps scalarVoided, streamVoided_predicate keeps streamVoided⟩
    | reduce r ty => exact ⟨scalarVoided_reduce keeps scalarVoided, streamVoided_reduce keeps scalarVoided⟩

/-- Of a lowered navigation the conversions of void are those of its head and of its links, and the
boxes of void links. -/
theorem lowered_voided (hexpr : expr.Firm typing ty) (fit : Fit (Movable classes) (.behind ty rest) rest)
    (hmade : Makes (scalar b [] (.step expr ty :: rest)) n made m) : c ∈ made.voided typing ↔
      c ∈ expr.voided typing ∨ linksVoided typing c (!expr.isThis) (.behind ty rest) rest := by
  obtain ⟨scalarVoided, streamVoided⟩ := links_voided typing c classes b keeps rest
  have behind (line : Line typing [expr] ty) :=
    behind_voided (s := { ty }) keeps scalarVoided streamVoided rfl hmade fit line
  cases this : expr.isThis with
  | true =>
    rw [behind (.this this hexpr.1), List.nil_append, unread_this this, or_iff_right chainVoided_nil,
      or_iff_right (not_mem_voided_this this)]
    rfl
  | false =>
    rw [behind (.one hexpr this (.inr rfl)), List.nil_append, unread_other this, chainVoided_one]
    rfl

end

end Lower

end NavScript
