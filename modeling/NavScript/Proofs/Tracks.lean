import NavScript.Proofs.Stages
import NavScript.Proofs.Survey

/-!
# Surveys of lowered navigations

The forward phase and the lowering each have a type of what is in view of a link, and these can differ
(`Track`). A lowered navigation has a survey where its arguments and conditions do, and everything in it
is read under the type it has exactly if the two types are the same where a link reads its receiver
(`Track.aligned`).
-/

namespace NavScript

open Course Lower

variable {V : Type} [DecidableEq V] {label : Option Ty → V} {env : List (String × V)} {pre : List V}
  {a b : Bool}

/-- What is read in place has the survey that it has on the value. -/
theorem Placed.survey {value n n' : Node} (h : Placed value n n') (this : value.isThis = true)
    (hty : value.ty = n.receiverTy) :
    n'.ty = n.ty ∧ ∀ (env : List (String × V)) (frame : List V),
      n'.survey label env frame = n.survey label env (label value.ty :: frame) := by
  induction h with
  | stacked span ty =>
    rw [receiverTy_stacked] at hty
    refine ⟨hty, fun env frame => ?_⟩
    obtain ⟨span', ty', kind⟩ := value
    cases kind
    case this =>
      simp only at hty
      subst hty
      rw [survey_mk, survey_mk]
      show some (label ty' :: frame, true) = some (label ty' :: frame, label ty' == label ty')
      rw [beq_self_eq_true]
    all_goals cases this
  | propertyRead h span ty name ih =>
    obtain ⟨-, same⟩ := ih (hty.trans (receiverTy_propertyRead ..))
    refine ⟨rfl, fun env frame => ?_⟩
    rw [survey_mk, survey_mk]
    exact andThen_congr (same env frame)
  | convert h span ty c ih =>
    obtain ⟨-, same⟩ := ih (hty.trans (receiverTy_convert ..))
    refine ⟨rfl, fun env frame => ?_⟩
    rw [survey_mk, survey_mk]
    exact andThen_congr (same env frame)
  | toSequence h span ty ih =>
    obtain ⟨-, same⟩ := ih (hty.trans (receiverTy_toSequence ..))
    refine ⟨rfl, fun env frame => ?_⟩
    rw [survey_mk, survey_mk]
    exact andThen_congr (same env frame)
  | collect h span ty r ih =>
    obtain ⟨-, same⟩ := ih (hty.trans (receiverTy_collect ..))
    refine ⟨rfl, fun env frame => ?_⟩
    rw [survey_mk, survey_mk]
    exact andThen_congr (same env frame)
  | methodCall h span ty owner name args ih =>
    obtain ⟨-, same⟩ := ih (hty.trans (receiverTy_methodCall ..))
    refine ⟨rfl, fun env frame => ?_⟩
    rw [survey_mk, survey_mk]
    exact andThen_congr (andThen_congr (same env frame))
  | pipe h span ty op x body ih =>
    obtain ⟨kept, same⟩ := ih (hty.trans (receiverTy_pipe ..))
    refine ⟨rfl, fun env frame => ?_⟩
    rw [survey_mk, survey_mk]
    simp only [Kind.map, surveyKind, sheet_element, kept]
    exact andThen_congr (andThen_congr (same env frame))
  | letIn h span ty x body ih =>
    obtain ⟨kept, same⟩ := ih (hty.trans (receiverTy_letIn ..))
    refine ⟨rfl, fun env frame => ?_⟩
    rw [survey_mk, survey_mk]
    simp only [Kind.map, surveyKind, sheet_own, kept]
    exact andThen_congr (andThen_congr (andThen_congr (same env frame)))
  | sequence h span ty rest ih =>
    obtain ⟨-, same⟩ := ih (hty.trans (receiverTy_sequence ..))
    refine ⟨rfl, fun env frame => ?_⟩
    rw [survey_sequence, survey_sequence]
    exact andThen_congr (same env frame)

/-- Each node of the chain walks on the value of the one before it. -/
inductive ChainWalks (label : Option Ty → V) (env : List (String × V)) :
    List V → List Node → Bool → Prop
  | last {pre : List V} {n : Node} {a : Bool} (walks : n.Walks label env pre a) :
    ChainWalks label env pre [n] a
  | cons {pre : List V} {n next : Node} {rest : List Node} {a b : Bool}
    (walks : n.Walks label env pre a)
    (others : ChainWalks label env [label n.ty] (next :: rest) b) :
    ChainWalks label env pre (n :: next :: rest) (a && b)

theorem ChainWalks.snoc {chain : List Node} {n : Node} {t : Ty} (h : ChainWalks label env pre chain a)
    (last : chain.getLast?.bind (·.ty) = some t) (hn : n.Walks label env [label (some t)] b) :
    ChainWalks label env pre (chain ++ [n]) (a && b) := by
  induction h with
  | @last pre m a walks =>
    refine .cons walks (.last ?_)
    rw [show m.ty = some t from last]
    exact hn
  | cons walks others ih =>
    rw [Bool.and_assoc]
    exact .cons walks (ih last)

/-- A first node that needs no value does as well as one that reads the value. -/
theorem ChainWalks.replace {v : V} {next placed : Node} {rest : List Node}
    (h : ChainWalks label env [v] (next :: rest) b) (kept : placed.ty = next.ty)
    (same : ∀ frame, placed.survey label env frame = next.survey label env (v :: frame)) :
    ChainWalks label env [] (placed :: rest) b := by
  have walks {a : Bool} (h : next.Walks label env [v] a) : placed.Walks label env [] a := by
    intro frame
    rw [kept]
    exact (same frame).trans (h frame)
  cases h with
  | last h => exact .last (walks h)
  | cons h others =>
    rw [← kept] at others
    exact .cons (walks h) others

theorem guardLinks_walks {boxPrimitives : Bool} {chain : List Node} {made : Node}
    (h : ChainWalks label env pre chain a) (hmade : guardLinks boxPrimitives chain = .ok made) :
    made.Walks label env pre a := by
  induction h generalizing made with
  | last walks =>
    cases hmade
    exact walks
  | cons walks others ih =>
    obtain ⟨body, hbody, hlink⟩ := guardLinks_cons.1 hmade
    obtain ⟨subjectTy, bodyTy, hsubject, hbodyTy, rfl⟩ := guardLink_ok.1 hlink
    have body := ih hbody
    rw [hsubject] at body
    exact walks_handed boxPrimitives walks hsubject hbodyTy body

/-- What stands behind `this` at the start of a chain reads it under its type. -/
def Placeable (chain : List Node) : Prop :=
  ∀ head next rest, chain = head :: next :: rest → head.isThis = true →
    ReceiverFirst next ∧ head.ty = next.receiverTy

theorem this_walks {n : Node} (h : n.isThis = true) : ∀ frame,
    n.survey label env frame = some (label n.ty :: frame, true) := by
  obtain ⟨span, ty, kind⟩ := n
  intro frame
  cases kind
  case this =>
    rw [survey_mk]
    rfl
  all_goals cases h

theorem close_walks {boxPrimitives : Bool} {chain : List Node} {made : Node}
    (h : ChainWalks label env pre chain a) (placeable : Placeable chain)
    (hmade : close boxPrimitives chain = .ok made) : made.Walks label env pre a := by
  cases h with
  | last walks =>
    cases hmade
    exact walks
  | @cons pre head next rest a b walks others =>
    cases this : head.isThis with
    | false =>
      rw [close_other this] at hmade
      exact guardLinks_walks (.cons walks others) hmade
    | true =>
      obtain ⟨first, hty⟩ := placeable head next rest rfl this
      have hmade : guardLinks boxPrimitives (((placeStacked next).run (some head)).1 :: rest) =
          .ok made := by
        unfold close readThis at hmade
        simp only [this, if_true] at hmade
        exact hmade
      have placing : placing.rel (placeStacked next) (some head)
          ((placeStacked next).run (some head)).1 ((placeStacked next).run (some head)).2 := rfl
      generalize ((placeStacked next).run (some head)).1 = placed at hmade placing
      have survey : placed.ty = next.ty ∧ ∀ (env : List (String × V)) (frame : List V),
          placed.survey label env frame = next.survey label env (label head.ty :: frame) :=
        (first.placed placing).1.survey this hty
      obtain ⟨kept, same⟩ := survey
      have start : pre = [] ∧ a = true := by
        have both := (walks []).symm.trans (this_walks this (pre ++ []))
        simp only [List.append_nil, Option.some.injEq, Prod.mk.injEq, List.cons.injEq, true_and] at both
        exact ⟨both.1.symm, both.2⟩
      rw [start.1, start.2, Bool.true_and]
      exact guardLinks_walks (others.replace kept (same env)) hmade

theorem walks_localOf {x : String} {t : Ty} :
    (Node.localOf x t).Walks label ((x, label (some t)) :: env) [] true := by
  have known : (Node.localOf x t).Walks label ((x, label (some t)) :: env) []
      (label (some t) == label (some t)) := walks_known List.lookup_cons_self
  rw [beq_self_eq_true] at known
  exact known

/-- The candidate is read under the type it is bound with. -/
theorem walks_keepIf {x : String} {cond : Node} {t : Ty} (v : V)
    (h : cond.Walks label ((x, label (some t)) :: env) [] a) :
    (keepIf x cond t).Walks label env [v] (a && v == label (some t)) := by
  unfold keepIf
  have candidate : (if t.isPrimitive then Node.convertTo .box (Node.localOf x t) t.boxed
      else Node.localOf x t).Walks label ((x, label (some t)) :: env) [] true := by
    split
    · exact walks_convert walks_localOf .box
    · exact walks_localOf
  have null : (Node.nullOf t.boxed).Walks label ((x, label (some t)) :: env) [] true :=
    walks_leaf (by simp [Kind.label])
  have branch : Node.Walks label ((x, label (some t)) :: env) [] ⟨.synthetic, some t.boxed,
      .conditional cond _ (.nullOf t.boxed)⟩ (a && (true && true)) :=
    walks_conditional h candidate null
  rw [Bool.and_self, Bool.and_true] at branch
  rw [Bool.and_comm]
  exact walks_letIn (walks_stacked v) branch

theorem walks_nullSafe {x : String} {cond : Node} {elem : Ty}
    (h : cond.Walks label ((x, label (some elem)) :: env) [] a) :
    (nullSafe x cond elem).Walks label ((x, label (some elem)) :: env) [] a := by
  unfold nullSafe
  split
  · exact h
  · have test : Node.Walks label ((x, label (some elem)) :: env) []
        { ty := some .boolean, kind := .isNull (.localOf x elem) } true := walks_isNull walks_localOf
    have no : (Node.ofLiteral (.bool false)).Walks label ((x, label (some elem)) :: env) [] true :=
      walks_leaf (by simp [Kind.label])
    have made : Node.Walks label ((x, label (some elem)) :: env) [] ⟨cond.span, some .boolean,
        .conditional _ (.ofLiteral (.bool false)) cond⟩ (true && (true && a)) :=
      walks_conditional test no h
    rw [Bool.true_and, Bool.true_and] at made
    exact made

/-! ## Tracks -/

/-- The types of what is in view of a link: the one that the forward phase goes by, and the one that
lowering has made. -/
structure Track where
  view : Ty
  made : Ty
  /-- Elements are in view. -/
  streaming : Bool := false

namespace Track

/-- Behind a value of a type, which is seen by element if links follow. -/
def entered (ty : Ty) (more : Bool) : Track :=
  match ty.element? with
  | some elem => if more then ⟨elem, elem, true⟩ else ⟨ty, ty, false⟩
  | none => ⟨ty, ty, false⟩

def after (s : Track) (link : Link) (more : Bool) : Track :=
  match link with
  | .step _ ty =>
    if s.streaming then
      match ty.element? with
      | some elem => ⟨elem, elem, true⟩
      | none => ⟨ty, ty.boxed, true⟩
    else entered ty more
  | .predicate _ _ _ => if s.streaming then s else { s with made := s.view.boxed }
  | .reduce r ty =>
    let elem := if s.streaming then some s.made else s.made.element?
    ⟨ty, (elem.map r.collectionTy).getD ty, false⟩

/-- The link reads what is in view under the type that it has. Over elements all links do. -/
def meets (label : Option Ty → V) (s : Track) : Link → Bool
  | .reduce _ _ => true
  | _ => s.streaming || label (some s.made) == label (some s.view)

def aligned (label : Option Ty → V) (s : Track) : List Link → Bool
  | [] => true
  | link :: rest => s.meets label link && aligned label (s.after link (!rest.isEmpty)) rest

end Track

section

variable (label) (within : List (String × V) → Prop)

/-- The parts of a link have surveys; the condition also on a candidate of its type, and if that is
primitive on any. -/
def LinkWalks : Link → Bool → Prop
  | .step expr _, ok => ∀ env, within env → ∀ v,
    expr.Walks label env [v] (ok && v == label expr.receiverTy)
  | .predicate x cond t, ok => ∀ env v, within env → (t.isPrimitive = false → v = label (some t)) →
    cond.Walks label ((x, v) :: env) [] ok
  | .reduce _ _, ok => ok = true

/-- All links have surveys, with all their flags together. -/
def LinksWalk : List Link → Bool → Prop
  | [], ok => ok = true
  | link :: rest, ok => ∃ a b, LinkWalks label within link a ∧ LinksWalk rest b ∧ ok = (a && b)

/-- A chain of scalar links, what is in view behind it, and the flag of its survey. -/
structure ChainTracks (pre : List V) (chain : List Node) (view made : Ty) (ok : Bool) : Prop where
  walks : ∀ env, within env → ChainWalks label env pre chain ok
  last : chain.getLast?.bind (·.ty) = some made
  placeable : Placeable chain
  single : ∀ head, chain = [head] → head.isThis = true → made = view

end

section

variable {within : List (String × V) → Prop} {chain : List Node} {n made : Node} {t c : Ty}

theorem ChainTracks.one (walks : ∀ env, within env → n.Walks label env pre a) (hty : n.ty = some t) :
    ChainTracks label within pre [n] t t a where
  walks env h := .last (walks env h)
  last := hty
  placeable := nofun
  single _ _ _ := rfl

/-- The start of a tail is no `this`. -/
theorem ChainTracks.tail (walks : ∀ env, within env → n.Walks label env pre a)
    (hty : n.ty = some c) (other : n.isThis = false) : ChainTracks label within pre [n] t c a where
  walks env h := .last (walks env h)
  last := hty
  placeable := nofun
  single head heq this := by
    cases heq
    rw [other] at this
    cases this

/-- What stands behind the chain reads what is in view. -/
theorem ChainTracks.placeable_snoc (h : ChainTracks label within pre chain t c a)
    (first : ReceiverFirst n) (receiver : c = t → n.receiverTy = some c) :
    Placeable (chain ++ [n]) := by
  intro head next rest heq this
  cases chain with
  | nil => cases heq
  | cons head' others =>
    cases others with
    | nil =>
      cases heq
      have last : head.ty = some c := h.last
      exact ⟨first, by rw [receiver (h.single head rfl this), last]⟩
    | cons next' others =>
      cases heq
      exact h.placeable head next others rfl this

/-- One link more, that reads what is in view. -/
theorem ChainTracks.snoc {low : Ty} (h : ChainTracks label within pre chain t c a) (after : Ty)
    (walks : ∀ env, within env → n.Walks label env [label (some c)] b) (hty : n.ty = some low)
    (first : ReceiverFirst n) (receiver : c = t → n.receiverTy = some c) :
    ChainTracks label within pre (chain ++ [n]) after low (a && b) := by
  refine ⟨fun env he => (h.walks env he).snoc h.last (walks env he), ?_,
    h.placeable_snoc first receiver, ?_⟩
  · rw [List.getLast?_concat]
    exact hty
  · intro head heq
    cases chain with
    | nil => cases h.last
    | cons head' others =>
      cases others <;> cases heq

theorem ChainTracks.close {boxPrimitives : Bool} (h : ChainTracks label within pre chain t c a)
    (hmade : Lower.close boxPrimitives chain = .ok made) :
    ∀ env, within env → made.Walks label env pre a :=
  fun env he => close_walks (h.walks env he) h.placeable hmade

/-- A tail that is added to a chain. -/
theorem ChainTracks.closeTail {boxPrimitives : Bool} (h : ChainTracks label within pre chain t c a)
    (walks : ∀ env, within env → n.Walks label env [label (some c)] b) (opening : Opening c n)
    (hmade : Lower.close boxPrimitives (chain ++ [n]) = .ok made) :
    ∀ env, within env → made.Walks label env pre (a && b) :=
  fun env he => close_walks ((h.walks env he).snoc h.last (walks env he))
    (h.placeable_snoc opening.first fun _ => opening.receiver) hmade

end

/-! ## Sequences -/

/-- The type of the elements of a sequence under construction once its run is done. -/
inductive Standing (source : Source) (view : Ty) : List Node → Ty → Prop
  | flushed (elem : source.elem = view ∨ view.isPrimitive = true ∧ source.elem = view.boxed) :
    Standing source view [] source.elem
  | running {run : List Node} (reference : source.elem.isPrimitive = false)
    (chained : Chained run view) : Standing source view run view.boxed

section

variable (label) (within : List (String × V) → Prop)

/-- A sequence under construction, and the flags of its source and its run. -/
structure StreamTracks (pre : List V) (source : Source) (run : List Node) (view made : Ty)
    (a b : Bool) : Prop where
  node : ∀ env, within env → source.node.Walks label env pre a
  typed : source.node.ty = some (streamOf source.elem)
  onElement : ∀ env n, within env →
    ChainWalks label ((freshName "e" n, label (some source.elem)) :: env) []
      (.localOf (freshName "e" n) source.elem :: run) b
  standing : Standing source view run made

end

section

variable {within : List (String × V) → Prop} {source next : Source} {run : List Node}
  {n m : Nat} {expr : Node} {view ty elem c : Ty} {boxPrimitives : Bool} {classes : ClassTable}

theorem streamOf_element (elem : Ty) : (some (streamOf elem)).bind Ty.element? = some elem := rfl

theorem StreamTracks.start (node : ∀ env, within env → source.node.Walks label env pre a)
    (typed : source.node.ty = some (streamOf source.elem))
    (elem : source.elem = view ∨ view.isPrimitive = true ∧ source.elem = view.boxed) :
    StreamTracks label within pre source [] view source.elem a true :=
  ⟨node, typed, fun _ _ _ => .last walks_localOf, .flushed elem⟩

theorem StreamTracks.stacked (multi elem : Ty) :
    StreamTracks label within [label (some multi)] ⟨stackedSequence multi elem, elem⟩ [] elem elem
      true true :=
  .start (fun _ _ => walks_toSequence (walks_stackedOf multi)) rfl (.inl rfl)

/-- What a stage does to an element: its value is boxed, and it walks. -/
theorem StreamTracks.body (h : StreamTracks label within pre source run view c a b) (hrun : run ≠ [])
    {body : Node}
    (hmade : guardLinks boxPrimitives (.localOf (freshName "e" n) source.elem :: run) = .ok body) :
    (c = view.boxed ∧ body.ty = some view.boxed) ∧ ∀ env, within env →
      body.Walks label ((freshName "e" n, label (some source.elem)) :: env) [] b := by
  refine ⟨?_, fun env he => guardLinks_walks (h.onElement env n he) hmade⟩
  cases h.standing with
  | flushed => exact absurd rfl hrun
  | running reference chained =>
    have element : (Node.localOf (freshName "e" n) source.elem).ty = some source.elem := rfl
    obtain ⟨boxed, hboxed, boxedTy⟩ := guardLinks_boxed (b := boxPrimitives) element reference chained
    rw [hboxed] at hmade
    cases hmade
    exact ⟨rfl, boxedTy⟩

/-- A map stage does the run. -/
theorem StreamTracks.map (h : StreamTracks label within pre source run view c a b) (hrun : run ≠ [])
    (hmade : Makes (stage boxPrimitives source run false) n next m) :
    StreamTracks label within pre next [] view c (a && b) true := by
  obtain ⟨body, bodyTy, hbody, hty, -, rfl⟩ := makes_stage.1 hmade
  obtain ⟨⟨rfl, boxedTy⟩, walks⟩ := h.body hrun hbody
  rw [hty] at boxedTy
  cases boxedTy
  refine .start (fun env he => ?_) rfl ?_
  · refine walks_pipe (h.node env he) ?_ (walks env he) .map
    rw [h.typed]
    exact streamOf_element _
  · show view.boxed = view ∨ _
    cases hprim : view.isPrimitive with
    | true => exact .inr ⟨rfl, rfl⟩
    | false => exact .inl (Ty.boxed_of_reference hprim)

/-- A run that ends multi-valued is flattened. -/
theorem StreamTracks.flatMap (h : StreamTracks label within pre source run ty c a b) (hrun : run ≠ [])
    (helem : ty.element? = some elem)
    (hmade : Makes (stage boxPrimitives source run true) n next m) :
    StreamTracks label within pre next [] elem elem (a && b) true := by
  obtain ⟨body, bodyTy, hbody, hty, -, inner, hinner, rfl⟩ := makes_stage.1 hmade
  obtain ⟨⟨-, boxedTy⟩, walks⟩ := h.body hrun hbody
  rw [hty, Ty.boxed_of_reference (Sight.reference_of_element helem)] at boxedTy
  cases boxedTy
  rw [helem] at hinner
  cases hinner
  refine .start (fun env he => ?_) rfl (.inl rfl)
  have sequence : Node.Walks label ((freshName "e" n, label (some source.elem)) :: env) []
      { ty := some (streamOf elem), kind := .toSequence body } b := walks_toSequence (walks env he)
  refine walks_pipe (h.node env he) ?_ sequence .flatMap
  rw [h.typed]
  exact streamOf_element _

theorem StreamTracks.flush (h : StreamTracks label within pre source run view c a b)
    (hmade : Makes (flush boxPrimitives source run) n next m) :
    StreamTracks label within pre next [] view c (a && b) true := by
  rcases makes_flush.1 hmade with ⟨rfl, rfl, -⟩ | ⟨hrun, hmade⟩
  · cases h.standing with
    | running _ chained => cases chained.last
    | flushed elem =>
      refine .start (fun env he => ?_) h.typed elem
      cases h.onElement env 0 he with
      | last walks =>
        rw [walks.flag walks_localOf, Bool.and_true]
        exact h.node env he
  · exact h.map hrun hmade

/-- One step more in the run. -/
theorem StreamTracks.step (h : StreamTracks label within pre source run view c a b)
    (later : ∀ env n v, within env → within ((freshName "e" n, v) :: env))
    (hmove : Movable classes view expr ty) {ok : Bool} (parts : LinkWalks label within (.step expr ty) ok) :
    StreamTracks label within pre source (run ++ [expr]) ty ty.boxed a (b && ok) := by
  have receiver : expr.receiverTy = some view := hmove.receiverTy
  obtain ⟨reference, last, typed⟩ : source.elem.isPrimitive = false ∧
      (∀ n, (Node.localOf (freshName "e" n) source.elem :: run).getLast?.bind (·.ty) = some view) ∧
      ∀ n ∈ run, n.ty.isSome := by
    cases h.standing with
    | flushed elem =>
      rcases elem with elem | ⟨prim, -⟩
      · rw [elem]
        exact ⟨hmove.reference, fun _ => rfl, fun _ hn => absurd hn List.not_mem_nil⟩
      · rw [hmove.reference] at prim
        cases prim
    | running reference chained =>
      exact ⟨reference, fun n => (chained.cons rfl).last, chained.typed⟩
  refine ⟨h.node, h.typed, fun env n he => ?_, .running reference (.snoc typed hmove.typed)⟩
  have walks := parts _ (later env n (label (some source.elem)) he) (label (some view))
  rw [receiver, beq_self_eq_true, Bool.and_true] at walks
  exact (h.onElement env n he).snoc (last n) walks

theorem StreamTracks.filter (h : StreamTracks label within pre source [] view c a b) {x : String}
    {cond : Node} {ok : Bool} (parts : LinkWalks label within (.predicate x cond view) ok) :
    StreamTracks label within pre
      ⟨pipeOf .filter source.node x (nullSafe x cond source.elem) source.elem, source.elem⟩ [] view c
      (a && ok) true := by
  cases h.standing with
  | running _ chained => cases chained.last
  | flushed elem =>
    refine .start (fun env he => ?_) rfl elem
    have cond := parts env (label (some source.elem)) he fun reference => by
      rcases elem with elem | ⟨prim, -⟩
      · rw [elem]
      · rw [reference] at prim
        cases prim
    refine walks_pipe (h.node env he) ?_ (walks_nullSafe cond) .filter
    rw [h.typed]
    exact streamOf_element _

end

section

variable (label) (within : List (String × V) → Prop) (classes : ClassTable) (boxPrimitives : Bool)

/-- Lowering in scalar context behind a chain. -/
def ScalarWalks (links : List Link) : Prop :=
  ∀ ⦃pre : List V⦄ ⦃s : Sight⦄ ⦃chain : List Node⦄ ⦃made : Node⦄ ⦃n m : Nat⦄ ⦃c : Ty⦄ ⦃a ok : Bool⦄,
    Makes (scalar boxPrimitives chain links) n made m → s.streaming = false →
    Fit (Movable classes) s links → LinksWalk label within links ok →
    ChainTracks label within pre chain s.ty c a → ∀ env, within env →
      made.Walks label env pre (a && (ok && Track.aligned label ⟨s.ty, c, false⟩ links))

/-- Lowering over a sequence behind a source and a run. -/
def StreamWalks (links : List Link) : Prop :=
  ∀ ⦃pre : List V⦄ ⦃s : Sight⦄ ⦃source : Source⦄ ⦃run : List Node⦄ ⦃made : Node⦄ ⦃n m : Nat⦄ ⦃c : Ty⦄
    ⦃a b ok : Bool⦄,
    Makes (stream boxPrimitives source run links) n made m → s.streaming = true →
    Fit (Movable classes) s links → LinksWalk label within links ok →
    StreamTracks label within pre source run s.ty c a b → ∀ env, within env →
      made.Walks label env pre (a && b && (ok && Track.aligned label ⟨s.ty, c, true⟩ links))

end

section

variable {within : List (String × V) → Prop} {classes : ClassTable} {boxPrimitives : Bool} {s : Sight}
  {rest : List Link} {chain : List Node} {expr made : Node} {n m : Nat} {ok : Bool}

/-- Behind a step that is done links go on over its elements or over its value. -/
theorem behind_walks (scalarWalks : ScalarWalks label within classes boxPrimitives rest)
    (streamWalks : StreamWalks label within classes boxPrimitives rest) (hs : s.streaming = false)
    (hmade : Makes (scalar boxPrimitives chain (.step expr s.ty :: rest)) n made m)
    (fit : Fit (Movable classes) (s.entered (!rest.isEmpty)) rest)
    (parts : LinksWalk label within rest ok)
    (tracks : ChainTracks label within pre (chain ++ [expr]) s.ty s.ty a) :
    ∀ env, within env → made.Walks label env pre
      (a && (ok && Track.aligned label (.entered s.ty (!rest.isEmpty)) rest)) := by
  intro env he
  rw [makes_scalar_step] at hmade
  unfold Sight.entered at fit
  unfold Track.entered
  unfold Ty.isMultiValued at hmade
  cases helem : s.ty.element? with
  | none =>
    rw [helem] at fit hmade
    simp only [Option.isSome_none, Bool.false_and, Bool.false_eq_true, if_false] at hmade fit
    exact scalarWalks hmade hs fit parts tracks env he
  | some elem =>
    rw [helem] at fit hmade
    cases hrest : rest.isEmpty with
    | true =>
      rw [hrest] at fit hmade
      simp only [Option.isSome_some, Bool.not_true, Bool.and_false, Bool.false_eq_true,
        if_false] at hmade fit
      exact scalarWalks hmade hs fit parts tracks env he
    | false =>
      rw [hrest] at fit hmade
      simp only [Option.isSome_some, Bool.not_false, Bool.and_true, if_true] at hmade fit
      obtain ⟨_, tail, helem', htail, hclose⟩ := hmade
      cases helem'
      have walks := streamWalks (s := { s with ty := elem, streaming := true }) htail rfl fit parts
        (.stacked s.ty elem)
      have opening := stream_opening rest htail (opening_stacked s.ty elem)
      rw [List.append_cons] at hclose
      exact tracks.closeTail walks opening hclose env he

theorem scalarWalks_step (scalarWalks : ScalarWalks label within classes boxPrimitives rest)
    (streamWalks : StreamWalks label within classes boxPrimitives rest) {ty : Ty} :
    ScalarWalks label within classes boxPrimitives (.step expr ty :: rest) := by
  rintro pre s chain made n m c a _ hmade hs ⟨fitStep, fitRest⟩ ⟨here, others, parts, more, rfl⟩ tracks env he
  have hmove : Movable classes s.ty expr ty := by
    cases fitStep
    assumption
  have walks : ∀ env, within env →
      expr.Walks label env [label (some c)] (here && label (some c) == label (some s.ty)) := by
    intro env he
    have walks := parts env he (label (some c))
    rw [hmove.receiverTy] at walks
    exact walks
  have longer := tracks.snoc ty walks hmove.typed hmove.first fun same => by
    rw [hmove.receiverTy, same]
  have seen : s.after (.step expr ty) (!rest.isEmpty) =
      Sight.entered ⟨ty, false, if expr.isStacked then s.gaps else .none⟩ (!rest.isEmpty) :=
    Sight.stepped_scalar hs ..
  rw [seen] at fitRest
  have made := behind_walks scalarWalks streamWalks rfl hmade fitRest more longer env he
  have flags : (a && (here && label (some c) == label (some s.ty)) &&
      (others && Track.aligned label (.entered ty (!rest.isEmpty)) rest)) =
        (a && (here && others && Track.aligned label ⟨s.ty, c, false⟩ (.step expr ty :: rest))) := by
    simp only [Track.aligned, Track.meets, Track.after, Bool.false_or, Bool.false_eq_true, if_false]
    ac_rfl
  rw [← flags]
  exact made

theorem scalarWalks_predicate (scalarWalks : ScalarWalks label within classes boxPrimitives rest)
    {x : String} {cond : Node} {ty : Ty} :
    ScalarWalks label within classes boxPrimitives (.predicate x cond ty :: rest) := by
  rintro pre s chain made n m c a _ hmade hs ⟨fitHere, fitRest⟩ ⟨here, others, parts, more, rfl⟩ tracks env he
  obtain rfl := linkFit_predicate.1 fitHere
  have walks : ∀ env, within env →
      (keepIf x cond s.ty).Walks label env [label (some c)] (here && label (some c) == label (some s.ty)) :=
    fun env he => walks_keepIf _ (parts env _ he fun _ => rfl)
  have longer := tracks.snoc s.ty walks rfl ((ReceiverFirst.stacked _ _).letIn ..) fun same => by
    rw [same]
    exact (receiverTy_letIn ..).trans (receiverTy_stacked ..)
  rw [Sight.after_predicate_scalar hs] at fitRest
  have made := scalarWalks (makes_scalar_predicate.1 hmade) hs fitRest more longer env he
  have flags : (a && (here && label (some c) == label (some s.ty)) &&
      (others && Track.aligned label ⟨s.ty, s.ty.boxed, false⟩ rest)) =
        (a && (here && others &&
          Track.aligned label ⟨s.ty, c, false⟩ (.predicate x cond s.ty :: rest))) := by
    simp only [Track.aligned, Track.meets, Track.after, Bool.false_or, Bool.false_eq_true, if_false]
    ac_rfl
  rw [← flags]
  exact made

theorem scalarWalks_reduce (scalarWalks : ScalarWalks label within classes boxPrimitives rest)
    {r : Reduction} {ty : Ty} :
    ScalarWalks label within classes boxPrimitives (.reduce r ty :: rest) := by
  rintro pre s chain made n m c a others hmade hs ⟨fitHere, fitRest⟩ ⟨_, _, rfl, more, rfl⟩ tracks env he
  obtain ⟨multi, low, tail, hmulti, hlow, htail, hclose⟩ := makes_scalar_reduce.1 hmade
  have collected : multi = c := by
    have last := (multiValuedEnd_ok hmulti).1
    rw [tracks.last] at last
    cases last
    rfl
  subst collected
  have start : ChainTracks label within [label (some multi)]
      [collectInto ⟨stackedSequence multi low, low⟩ r] ty (r.collectionTy low) true :=
    .tail (fun _ _ => walks_collect (walks_toSequence (walks_stackedOf multi)) r) rfl rfl
  have walks := scalarWalks htail rfl fitRest more start
  have opening := scalar_opening rest htail
    ⟨List.cons_ne_nil _ _, opening_collect (opening_stacked multi low) r⟩
  have made := tracks.closeTail walks opening hclose env he
  have flags : (a && (true && (others && Track.aligned label ⟨ty, r.collectionTy low, false⟩ rest))) =
      (a && (others && Track.aligned label ⟨s.ty, multi, false⟩ (.reduce r ty :: rest))) := by
    simp [Track.aligned, Track.meets, Track.after, hlow]
  rw [← flags]
  exact made

theorem scalarWalks_nil : ScalarWalks label within classes boxPrimitives [] := by
  rintro pre s chain made n m c a _ hmade - - rfl tracks env he
  show made.Walks label env pre (a && true)
  rw [Bool.and_true]
  exact tracks.close (makes_scalar_nil.1 hmade).1 env he

theorem streamWalks_nil : StreamWalks label within classes boxPrimitives [] := by
  rintro pre s source run made n m c a b _ hmade - - rfl tracks env he
  obtain ⟨last, hflush, rfl⟩ := makes_stream_nil.1 hmade
  show last.node.Walks label env pre (a && b && true)
  rw [Bool.and_true]
  exact (tracks.flush hflush).node env he

theorem streamWalks_step (later : ∀ env n v, within env → within ((freshName "e" n, v) :: env))
    (streamWalks : StreamWalks label within classes boxPrimitives rest) {ty : Ty} :
    StreamWalks label within classes boxPrimitives (.step expr ty :: rest) := by
  rintro pre s source run made n m c a b _ hmade hs ⟨fitHere, fitRest⟩ ⟨here, others, parts, more, rfl⟩
    tracks env he
  have hmove := linkFit_step.1 fitHere
  have longer := tracks.step later hmove parts
  rw [makes_stream_step] at hmade
  unfold Ty.isMultiValued at hmade
  cases helem : ty.element? with
  | none =>
    rw [helem, if_neg (by decide)] at hmade
    rw [show s.after (.step expr ty) (!rest.isEmpty) = _ from Sight.stepped_single hs expr helem _]
      at fitRest
    have made := streamWalks hmade rfl fitRest more longer env he
    have flags : (a && (b && here) && (others && Track.aligned label ⟨ty, ty.boxed, true⟩ rest)) =
        (a && b && (here && others && Track.aligned label ⟨s.ty, c, true⟩ (.step expr ty :: rest))) := by
      simp only [Track.aligned, Track.meets, Track.after, helem, Bool.true_or, Bool.true_and, if_true]
      ac_rfl
    rw [← flags]
    exact made
  | some elem =>
    rw [helem, Option.isSome_some, if_pos rfl] at hmade
    rw [show s.after (.step expr ty) (!rest.isEmpty) = _ from Sight.stepped_multi hs expr helem _]
      at fitRest
    obtain ⟨next, mid, hstage, hmade⟩ := hmade
    have staged := longer.flatMap (by simp) helem hstage
    have made := streamWalks hmade rfl fitRest more staged env he
    have flags : (a && (b && here) && true && (others && Track.aligned label ⟨elem, elem, true⟩ rest)) =
        (a && b && (here && others && Track.aligned label ⟨s.ty, c, true⟩ (.step expr ty :: rest))) := by
      simp only [Track.aligned, Track.meets, Track.after, helem, Bool.true_or, Bool.true_and, if_true,
        Bool.and_true]
      ac_rfl
    rw [← flags]
    exact made

theorem streamWalks_predicate (streamWalks : StreamWalks label within classes boxPrimitives rest)
    {x : String} {cond : Node} {ty : Ty} :
    StreamWalks label within classes boxPrimitives (.predicate x cond ty :: rest) := by
  rintro pre s source run made n m c a b _ hmade hs ⟨fitHere, fitRest⟩ ⟨here, others, parts, more, rfl⟩
    tracks env he
  obtain rfl := linkFit_predicate.1 fitHere
  obtain ⟨next, mid, hflush, hmade⟩ := makes_stream_predicate.1 hmade
  have filtered := (tracks.flush hflush).filter parts
  have seen : (s.after (.predicate x cond s.ty) (!rest.isEmpty)).ty = s.ty := s.after_predicate_ty ..
  have streaming : (s.after (.predicate x cond s.ty) (!rest.isEmpty)).streaming = true :=
    (s.after_predicate_streaming ..).trans hs
  rw [← seen] at filtered
  have made := streamWalks hmade streaming fitRest more filtered env he
  rw [seen] at made
  have flags : (a && b && here && true && (others && Track.aligned label ⟨s.ty, c, true⟩ rest)) =
      (a && b && (here && others &&
        Track.aligned label ⟨s.ty, c, true⟩ (.predicate x cond s.ty :: rest))) := by
    simp only [Track.aligned, Track.meets, Track.after, Bool.true_or, Bool.true_and, if_true,
      Bool.and_true]
    ac_rfl
  rw [← flags]
  exact made

theorem streamWalks_reduce (scalarWalks : ScalarWalks label within classes boxPrimitives rest)
    {r : Reduction} {ty : Ty} :
    StreamWalks label within classes boxPrimitives (.reduce r ty :: rest) := by
  rintro pre s source run made n m c a b others hmade hs ⟨fitHere, fitRest⟩ ⟨_, _, rfl, more, rfl⟩
    tracks env he
  obtain ⟨next, mid, hflush, hmade⟩ := makes_stream_reduce.1 hmade
  have flushed := tracks.flush hflush
  have elem : next.elem = c := by
    cases flushed.standing with
    | flushed => rfl
    | running _ chained => cases chained.last
  have start : ChainTracks label within pre [collectInto next r] ty (r.collectionTy next.elem) (a && b) :=
    .tail (fun env he => walks_collect (flushed.node env he) r) rfl rfl
  have made := scalarWalks hmade rfl fitRest more start env he
  rw [elem] at made
  exact made

variable (label within classes boxPrimitives) in
theorem links_walk (later : ∀ env n v, within env → within ((freshName "e" n, v) :: env))
    (links : List Link) : ScalarWalks label within classes boxPrimitives links ∧
      StreamWalks label within classes boxPrimitives links := by
  induction links with
  | nil => exact ⟨scalarWalks_nil, streamWalks_nil⟩
  | cons link rest ih =>
    obtain ⟨scalarWalks, streamWalks⟩ := ih
    cases link with
    | step expr ty =>
      exact ⟨scalarWalks_step scalarWalks streamWalks, streamWalks_step later streamWalks⟩
    | predicate x cond ty =>
      exact ⟨scalarWalks_predicate scalarWalks, streamWalks_predicate streamWalks⟩
    | reduce r ty => exact ⟨scalarWalks_reduce scalarWalks, streamWalks_reduce scalarWalks⟩

/-- A lowered navigation has a survey if its head, its arguments and its conditions have one. Its flag
is that of all these and of whether the two types in view agree where they are read. -/
theorem lowered_walks (later : ∀ env n v, within env → within ((freshName "e" n, v) :: env)) {ty : Ty}
    (hty : expr.ty = some ty) (head : ∀ env, within env → expr.Walks label env [] a)
    (fit : Fit (Movable classes) (.behind ty rest) rest) (parts : LinksWalk label within rest ok)
    (hmade : Makes (scalar boxPrimitives [] (.step expr ty :: rest)) n made m) :
    ∀ env, within env → made.Walks label env []
      (a && (ok && Track.aligned label (.entered ty (!rest.isEmpty)) rest)) := by
  obtain ⟨scalarWalks, streamWalks⟩ := links_walk label within classes boxPrimitives later rest
  exact behind_walks (s := { ty }) scalarWalks streamWalks rfl hmade fit parts (.one head hty)

end

end NavScript
