import NavScript.Proofs.Guards
import NavScript.Proofs.Sights

/-!
# Chains of links on the machine

The links of a chain run one after another, each on what the one before it leaves, and null makes
null of all that follow. What a chain makes is said for every continuation of it (`Leads`), so that
links are added at its end, as lowering does, although guards are put around it from the end.
-/

namespace NavScript

open Machine Lower

variable {W : World} {locals : List (String × Value)} {b : Bool} {top : List Value} {v : Value}
  {o : Attempt Access Value} {k : Value → Attempt Access Value}

/-- The type that a node takes the value to have that it reads first. -/
def Node.receiverTy (n : Node) : Option Ty :=
  n.fold fun _ ty kind =>
    match kind with
    | .stacked => ty
    | .propertyRead e _ | .methodCall e _ _ _ | .convert _ e | .toSequence e | .pipe _ e _ _
    | .collect e _ | .letIn _ e _ | .sequence (e :: _) => e
    | _ => none

section

variable (span : Span) (ty : Option Ty) (e : Node)

@[simp] theorem receiverTy_stacked : Node.receiverTy ⟨span, ty, .stacked⟩ = ty := by
  unfold Node.receiverTy
  rw [Node.fold_mk]
  rfl

@[simp] theorem receiverTy_propertyRead (name : String) :
    Node.receiverTy ⟨span, ty, .propertyRead e name⟩ = e.receiverTy := by
  unfold Node.receiverTy
  rw [Node.fold_mk]
  rfl

@[simp] theorem receiverTy_methodCall (owner : Ty) (name : String) (args : List Node) :
    Node.receiverTy ⟨span, ty, .methodCall e owner name args⟩ = e.receiverTy := by
  unfold Node.receiverTy
  rw [Node.fold_mk]
  rfl

@[simp] theorem receiverTy_convert (c : Conversion) :
    Node.receiverTy ⟨span, ty, .convert c e⟩ = e.receiverTy := by
  unfold Node.receiverTy
  rw [Node.fold_mk]
  rfl

@[simp] theorem receiverTy_toSequence :
    Node.receiverTy ⟨span, ty, .toSequence e⟩ = e.receiverTy := by
  unfold Node.receiverTy
  rw [Node.fold_mk]
  rfl

@[simp] theorem receiverTy_pipe (op : StageKind) (x : String) (body : Node) :
    Node.receiverTy ⟨span, ty, .pipe op e x body⟩ = e.receiverTy := by
  unfold Node.receiverTy
  rw [Node.fold_mk]
  rfl

@[simp] theorem receiverTy_collect (r : Reduction) :
    Node.receiverTy ⟨span, ty, .collect e r⟩ = e.receiverTy := by
  unfold Node.receiverTy
  rw [Node.fold_mk]
  rfl

@[simp] theorem receiverTy_letIn (x : String) (body : Node) :
    Node.receiverTy ⟨span, ty, .letIn x e body⟩ = e.receiverTy := by
  unfold Node.receiverTy
  rw [Node.fold_mk]
  rfl

@[simp] theorem receiverTy_sequence (rest : List Node) :
    Node.receiverTy ⟨span, ty, .sequence (e :: rest)⟩ = e.receiverTy := by
  unfold Node.receiverTy
  rw [Node.fold_mk]
  rfl

end

section

variable {classes : ClassTable} {step : Step Node} {receiver : Ty} {n : Node}

/-- A step behind the head reads its receiver from the stack. -/
theorem Answer.first (h : Answer ⟨step, .stackedOf receiver, receiver, classes⟩ n) :
    ReceiverFirst n := by
  cases h with
  | receiver => exact .stacked _ _
  | property => exact (ReceiverFirst.stacked _ _).propertyRead ..
  | method => exact (ReceiverFirst.stacked _ _).methodCall ..

theorem Answer.receiverTy (h : Answer ⟨step, .stackedOf receiver, receiver, classes⟩ n) :
    n.receiverTy = some receiver := by
  cases h with
  | receiver => exact receiverTy_stacked ..
  | property => exact (receiverTy_propertyRead ..).trans (receiverTy_stacked ..)
  | method => exact (receiverTy_methodCall ..).trans (receiverTy_stacked ..)

end

theorem unlessNull_bind (f k : Value → Attempt Access Value) (v : Value) :
    unlessNull (fun u => f u >>= unlessNull k) v = unlessNull f v >>= unlessNull k := by
  cases hv : v.isNull with
  | true =>
    rw [Value.eq_null hv, unlessNull_null, unlessNull_null, pure_bind]
    exact (unlessNull_null k).symm
  | false => rw [unlessNull_of hv, unlessNull_of hv]

theorem bind_unlessNull_pure (o : Attempt Access Value) : o >>= unlessNull pure = o := by
  rw [unlessNull_eq rfl, bind_pure]

/-- All links of the chain are typed, the last one as given. -/
structure Chained (chain : List Node) (ty : Ty) : Prop where
  typed : ∀ n ∈ chain, n.ty.isSome
  last : chain.getLast?.bind (·.ty) = some ty

theorem Chained.snoc {chain : List Node} {n : Node} {ty : Ty}
    (h : ∀ n ∈ chain, n.ty.isSome) (hn : n.ty = some ty) : Chained (chain ++ [n]) ty := by
  constructor
  · intro c hc
    rcases List.mem_append.1 hc with hc | hc
    · exact h c hc
    · rw [List.mem_singleton.1 hc, hn]
      rfl
  · rw [List.getLast?_concat]
    exact hn

theorem Chained.single {n : Node} {ty : Ty} (h : n.ty = some ty) : Chained [n] ty :=
  have none : ∀ c ∈ ([] : List Node), c.ty.isSome := fun _ hn => absurd hn List.not_mem_nil
  .snoc none h

theorem Chained.cons {n : Node} {chain : List Node} {ty : Ty} (hn : n.ty.isSome)
    (h : Chained chain ty) : Chained (n :: chain) ty := by
  constructor
  · intro c hc
    rcases List.mem_cons.1 hc with rfl | hc
    · exact hn
    · exact h.typed c hc
  · cases chain with
    | nil => cases h.last
    | cons next rest => exact h.last

/-- A typed chain has the type of its last link. -/
theorem Chained.of_typed {chain : List Node} (hne : chain ≠ []) (h : ∀ n ∈ chain, n.ty.isSome) :
    ∃ ty, Chained chain ty := by
  obtain ⟨ty, hty⟩ := Option.isSome_iff_exists.1 (h _ (List.getLast_mem hne))
  refine ⟨ty, h, ?_⟩
  rw [List.getLast?_eq_some_getLast hne]
  exact hty

theorem handed_ty (b : Bool) (subjectTy bodyTy : Ty) (subject body : Node) :
    (handed b subjectTy bodyTy subject body).ty = some bodyTy.boxed ∨
      subjectTy.isPrimitive = true ∧ (handed b subjectTy bodyTy subject body).ty = some bodyTy := by
  unfold handed
  split
  · split
    · exact .inl rfl
    · exact .inr ⟨by assumption, rfl⟩
  · exact .inl rfl

/-- A chain has the type of its last link, or the class of that. -/
theorem guardLinks_chained {chain : List Node} {ty : Ty} (h : Chained chain ty) :
    ∃ made, guardLinks b chain = .ok made ∧ (made.ty = some ty ∨ made.ty = some ty.boxed) := by
  induction chain with
  | nil => cases h.last
  | cons first rest ih =>
    cases rest with
    | nil => exact ⟨first, rfl, .inl h.last⟩
    | cons next rest =>
      have hrest : Chained (next :: rest) ty :=
        ⟨fun n hn => h.typed n (List.mem_cons_of_mem _ hn), h.last⟩
      obtain ⟨body, hbody, hty⟩ := ih hrest
      obtain ⟨firstTy, hfirst⟩ := Option.isSome_iff_exists.1 (h.typed first (List.mem_cons_self ..))
      obtain ⟨bodyTy, hbodyTy, hboxed⟩ : ∃ bodyTy, body.ty = some bodyTy ∧
          (bodyTy = ty ∨ bodyTy = ty.boxed) := by
        rcases hty with hty | hty
        · exact ⟨ty, hty, .inl rfl⟩
        · exact ⟨ty.boxed, hty, .inr rfl⟩
      refine ⟨_, guardLinks_cons.2 ⟨body, hbody, guardLink_ok.2 ⟨_, _, hfirst, hbodyTy, rfl⟩⟩, ?_⟩
      rcases handed_ty b firstTy bodyTy first body with h | ⟨-, h⟩
      · rw [h]
        rcases hboxed with rfl | rfl
        · exact .inr rfl
        · exact .inr (by rw [Ty.boxed_boxed])
      · rw [h]
        rcases hboxed with rfl | rfl
        · exact .inl rfl
        · exact .inr rfl

/-- Behind a reference the value is boxed. -/
theorem guardLinks_boxed {first : Node} {rest : List Node} {firstTy ty : Ty}
    (hfirst : first.ty = some firstTy) (href : firstTy.isPrimitive = false)
    (h : Chained rest ty) :
    ∃ made, guardLinks b (first :: rest) = .ok made ∧ made.ty = some ty.boxed := by
  obtain ⟨body, hbody, hty⟩ := guardLinks_chained (b := b) h
  cases rest with
  | nil => cases h.last
  | cons next rest =>
    obtain ⟨bodyTy, hbodyTy, hboxed⟩ : ∃ bodyTy, body.ty = some bodyTy ∧
        bodyTy.boxed = ty.boxed := by
      rcases hty with hty | hty
      · exact ⟨ty, hty, rfl⟩
      · exact ⟨ty.boxed, hty, ty.boxed_boxed⟩
    refine ⟨_, guardLinks_cons.2 ⟨body, hbody, guardLink_ok.2 ⟨_, _, hfirst, hbodyTy, rfl⟩⟩, ?_⟩
    rcases handed_ty b firstTy bodyTy first body with h | ⟨hprim, -⟩
    · rw [h, hboxed]
    · rw [href] at hprim
      cases hprim

theorem place_typed {n value n' : Node} {s' : Option Node}
    (h : placing.rel (placeStacked n) (some value) n' s') (hvalue : value.ty.isSome)
    (hn : n.ty.isSome) : n'.ty.isSome := by
  obtain ⟨span, ty, kind⟩ := n
  by_cases hkind : kind.label = "Stacked"
  · cases kind
    case stacked =>
      have placed : (value, (none : Option Node)) = (n', s') :=
        (placeStacked_stacked span ty value).symm.trans h
      cases placed
      exact hvalue
    all_goals simp [Kind.label] at hkind
  · obtain ⟨kind', -, rfl⟩ := placing_other hkind h
    exact hn

/-- A typed chain can be closed. -/
theorem close_chained {chain : List Node} {ty : Ty} (h : Chained chain ty) :
    ∃ made, close b chain = .ok made ∧ made.ty.isSome := by
  have done {chain : List Node} {ty : Ty} (h : Chained chain ty) :
      ∃ made, guardLinks b chain = .ok made ∧ made.ty.isSome := by
    obtain ⟨made, hmade, hty | hty⟩ := guardLinks_chained (b := b) h <;>
      exact ⟨made, hmade, by rw [hty]; rfl⟩
  unfold close readThis
  split
  · rename_i head next rest
    split
    · have hhead := h.typed head (List.mem_cons_self ..)
      have hnext := h.typed next (by simp)
      have placed : ((placeStacked next).run (some head)).1.ty.isSome :=
        place_typed rfl hhead hnext
      cases rest with
      | nil =>
        exact ⟨_, rfl, placed⟩
      | cons second rest =>
        have hrest : Chained (second :: rest) ty :=
          ⟨fun n hn => h.typed n (List.mem_cons_of_mem _ (List.mem_cons_of_mem _ hn)), h.last⟩
        exact done (hrest.cons placed)
    · exact done h
  · exact done h

theorem close_other {n : Node} (hn : n.isThis = false) (rest : List Node) :
    close b (n :: rest) = guardLinks b (n :: rest) := by
  unfold close
  cases rest with
  | nil => rfl
  | cons next rest =>
    show guardLinks b (if n.isThis then _ else _) = _
    rw [hn]
    rfl

/-- A property of tails of chains: they read the value on the stack first, and what lowering puts around
their first node has the property too. -/
structure Opens (O : Node → Prop) : Prop where
  first : ∀ {n}, O n → ReceiverFirst n
  sequence : ∀ {n}, O n → ∀ span ty rest, O ⟨span, ty, .sequence (n :: rest)⟩
  convert : ∀ {n}, O n → ∀ span ty c, O ⟨span, ty, .convert c n⟩
  pipe : ∀ {n}, O n → ∀ op x body elem, O (pipeOf op n x body elem)
  collect : ∀ {source : Source}, O source.node → ∀ r, O (collectInto source r)

namespace Opens

variable {O : Node → Prop} (opens : Opens O)
include opens

theorem close {chain : List Node} {made : Node} (hmade : Lower.close b chain = .ok made)
    (h : ∀ first ∈ chain.head?, O first) : O made := by
  cases chain with
  | nil => exact absurd hmade guardLinks_nil
  | cons head others =>
    have hhead := h head rfl
    have other : head.isThis = false := by
      cases opens.first hhead <;> rfl
    rw [close_other other] at hmade
    cases others with
    | nil =>
      cases hmade
      exact hhead
    | cons next others =>
      obtain ⟨body, -, hlink⟩ := guardLinks_cons.1 hmade
      obtain ⟨subjectTy, bodyTy, -, -, rfl⟩ := guardLink_ok.1 hlink
      unfold handed
      split
      · split
        · exact opens.sequence (opens.convert hhead ..) ..
        · exact opens.sequence hhead ..
      · exact opens.sequence hhead ..

theorem stage {source next : Source} {run : List Node} {flatten : Bool} {n m : Nat}
    (hstage : Makes (Lower.stage b source run flatten) n next m) (h : O source.node) : O next.node := by
  obtain ⟨body, bodyTy, -, -, -, hnext⟩ := makes_stage.1 hstage
  split at hnext
  · obtain ⟨inner, -, rfl⟩ := hnext
    exact opens.pipe h ..
  · rw [hnext]
    exact opens.pipe h ..

theorem flush {source next : Source} {run : List Node} {n m : Nat}
    (hflush : Makes (Lower.flush b source run) n next m) (h : O source.node) : O next.node := by
  rcases makes_flush.1 hflush with ⟨-, rfl, -⟩ | ⟨-, hstage⟩
  · exact h
  · exact opens.stage hstage h

omit opens in
theorem snoc {chain : List Node} (n : Node) (h : chain ≠ [] ∧ ∀ first ∈ chain.head?, O first) :
    chain ++ [n] ≠ [] ∧ ∀ first ∈ (chain ++ [n]).head?, O first := by
  refine ⟨by simp, ?_⟩
  rw [List.head?_append_of_ne_nil _ h.1]
  exact h.2

theorem collected {source : Source} (h : O source.node) (r : Reduction) :
    ∀ first ∈ [collectInto source r].head?, O first := by
  intro first hf
  cases hf
  exact opens.collect h r

mutual

/-- What is lowered behind a tail is a tail. -/
theorem scalar : ∀ (links : List Link) {chain : List Node} {n m : Nat} {made : Node},
    Makes (Lower.scalar b chain links) n made m →
      (chain ≠ [] ∧ ∀ first ∈ chain.head?, O first) → O made
  | [], _, _, _, _, hmade, h => opens.close (makes_scalar_nil.1 hmade).1 h.2
  | .step expr ty :: rest, chain, _, _, _, hmade, h => by
    rw [makes_scalar_step] at hmade
    split at hmade
    · obtain ⟨_, tail, -, -, hclose⟩ := hmade
      refine opens.close hclose ?_
      rw [List.head?_append_of_ne_nil _ h.1]
      exact h.2
    · exact scalar rest hmade (snoc expr h)
  | .predicate x cond ty :: rest, _, _, _, _, hmade, h =>
    scalar rest (makes_scalar_predicate.1 hmade) (snoc _ h)
  | .reduce r ty :: rest, _, _, _, _, hmade, h => by
    obtain ⟨_, _, tail, -, -, -, hclose⟩ := makes_scalar_reduce.1 hmade
    exact opens.close hclose (snoc tail h).2

theorem stream : ∀ (links : List Link) {source : Source} {run : List Node} {n m : Nat}
    {made : Node}, Makes (Lower.stream b source run links) n made m → O source.node → O made
  | [], _, _, _, _, _, hmade, h => by
    obtain ⟨last, hflush, rfl⟩ := makes_stream_nil.1 hmade
    exact opens.flush hflush h
  | .step expr ty :: rest, _, _, _, _, _, hmade, h => by
    rw [makes_stream_step] at hmade
    split at hmade
    · obtain ⟨_, _, hstage, hmade⟩ := hmade
      exact stream rest hmade (opens.stage hstage h)
    · exact stream rest hmade h
  | .predicate x cond ty :: rest, _, _, _, _, _, hmade, h => by
    obtain ⟨next, _, hflush, hmade⟩ := makes_stream_predicate.1 hmade
    exact stream rest hmade (opens.pipe (opens.flush hflush h) ..)
  | .reduce r ty :: rest, _, _, _, _, _, hmade, h => by
    obtain ⟨next, _, hflush, hmade⟩ := makes_stream_reduce.1 hmade
    exact scalar rest hmade ⟨List.cons_ne_nil _ _, opens.collected (opens.flush hflush h) r⟩

end

end Opens

/-- A tail of a chain: it reads the value on the stack first, as one of the type, and is more than
that value. -/
structure Opening (t : Ty) (n : Node) : Prop where
  first : ReceiverFirst n
  more : n.isStacked = false
  receiver : n.receiverTy = some t

variable {t : Ty}

theorem opens_opening : Opens (Opening t) where
  first h := h.first
  sequence h _ _ _ := ⟨h.first.sequence .., rfl, (receiverTy_sequence ..).trans h.receiver⟩
  convert h _ _ _ := ⟨h.first.convert .., rfl, (receiverTy_convert ..).trans h.receiver⟩
  pipe h _ _ _ _ := ⟨h.first.pipe .., rfl, (receiverTy_pipe ..).trans h.receiver⟩
  collect h _ := ⟨h.first.collect .., rfl, (receiverTy_collect ..).trans h.receiver⟩

theorem opening_stacked (multi elem : Ty) : Opening multi (stackedSequence multi elem) :=
  ⟨(ReceiverFirst.stacked _ _).toSequence _ _, rfl,
    (receiverTy_toSequence ..).trans (receiverTy_stacked ..)⟩

theorem opening_collect {source : Source} (h : Opening t source.node) (r : Reduction) :
    ∀ first ∈ [collectInto source r].head?, Opening t first :=
  opens_opening.collected h r

theorem scalar_opening (links : List Link) {chain : List Node} {n m : Nat} {made : Node}
    (hmade : Makes (scalar b chain links) n made m)
    (h : chain ≠ [] ∧ ∀ first ∈ chain.head?, Opening t first) : Opening t made :=
  opens_opening.scalar links hmade h

theorem stream_opening (links : List Link) {source : Source} {run : List Node} {n m : Nat}
    {made : Node} (hmade : Makes (stream b source run links) n made m) (h : Opening t source.node) :
    Opening t made :=
  opens_opening.stream links hmade h

/-- What a chain makes of the value on the stack. Without links it stays. -/
def Passes (W : World) (locals : List (String × Value)) (b : Bool) (chain : List Node) (v : Value)
    (o : Attempt Access Value) : Prop :=
  match chain with
  | [] => o = pure v
  | first :: rest => ∀ made, guardLinks b (first :: rest) = .ok made → Gives W locals made [v] o

/-- A first node and the links behind it. -/
theorem gives_guardLinks {n made : Node} {ty : Ty} {rest : List Node} (hty : n.ty = some ty)
    (h : Gives W locals n top o) (hprim : ty.isPrimitive = true → ∀ v ∈ o, v.isNull = false)
    (hrest : ∀ v ∈ o, v.isNull = false → Passes W locals b rest v (k v))
    (hmade : guardLinks b (n :: rest) = .ok made) :
    Gives W locals made top (o >>= unlessNull k) := by
  cases rest with
  | nil =>
    cases hmade
    have same : o >>= unlessNull k = o >>= pure := by
      refine Attempt.bind_congr fun v hv => ?_
      cases hnull : v.isNull with
      | true =>
        rw [Value.eq_null hnull]
        rfl
      | false =>
        rw [unlessNull_of hnull]
        exact hrest v hv hnull
    rw [same, bind_pure]
    exact h
  | cons next rest =>
    obtain ⟨body, hbody, hlink⟩ := guardLinks_cons.1 hmade
    obtain ⟨subjectTy, bodyTy, hsubject, -, rfl⟩ := guardLink_ok.1 hlink
    rw [hty] at hsubject
    cases hsubject
    exact gives_handed h hprim fun v hv hnull => hrest v hv hnull body hbody

/-- Links that can be added where the value in view has the type. -/
structure Tail (ty : Ty) (rest : List Node) : Prop where
  typed : ∀ n ∈ rest, n.ty.isSome
  first : ∀ n ∈ rest.head?, ReceiverFirst n ∧ (n.isStacked = true → n.ty = some ty)

theorem Tail.nil (ty : Ty) : Tail ty [] :=
  ⟨fun _ h => absurd h List.not_mem_nil, fun _ h => absurd h (by simp)⟩

/-- A chain makes the attempt in the place of `top`, and whatever is added for a value of the type
goes on from it. -/
def Leads (W : World) (locals : List (String × Value)) (b : Bool) (chain : List Node) (ty : Ty)
    (top : List Value) (o : Attempt Access Value) : Prop :=
  ∀ (rest : List Node) (k : Value → Attempt Access Value) (made : Node), Tail ty rest →
    (∀ v ∈ o, v.isNull = false → Passes W locals b rest v (k v)) →
    close b (chain ++ rest) = .ok made → Gives W locals made top (o >>= unlessNull k)

namespace Leads

variable {chain : List Node} {n made : Node} {ty view : Ty}

/-- The chain as it is. -/
theorem gives (h : Leads W locals b chain ty top o) (hmade : close b chain = .ok made) :
    Gives W locals made top o := by
  rw [← bind_unlessNull_pure o]
  refine h [] pure made (.nil ty) (fun v _ _ => rfl) ?_
  rw [List.append_nil]
  exact hmade

theorem single (hty : n.ty = some ty) (hn : n.isThis = false) (h : Gives W locals n top o)
    (hprim : ty.isPrimitive = true → ∀ v ∈ o, v.isNull = false) :
    Leads W locals b [n] view top o := by
  intro rest k made _ hrest hmade
  rw [List.singleton_append, close_other hn] at hmade
  exact gives_guardLinks hty h hprim hrest hmade

/-- What follows `this` reads it in place. -/
theorem this (hthis : W.this.isNull = false) (hty : n.ty = some ty) (hn : n.isThis = true) :
    Leads W locals b [n] ty [] (pure W.this) := by
  intro rest k made tail hrest hmade
  rw [pure_bind, unlessNull_of hthis]
  have here := hrest W.this (Attempt.mem_pure.2 rfl) hthis
  cases rest with
  | nil =>
    cases hmade
    rw [show k W.this = pure W.this from here]
    obtain ⟨span, ty', kind⟩ := n
    cases kind
    case this => exact gives_this
    all_goals cases hn
  | cons next rest =>
    obtain ⟨first, stacked⟩ := tail.first next rfl
    have placed : placing.rel (placeStacked next) (some n) ((placeStacked next).run (some n)).1
      ((placeStacked next).run (some n)).2 := rfl
    obtain ⟨placed, -⟩ := first.placed placed
    have hfrom : FromThis W _ next := placed.fromThis hn
    have hkept := placed.ty
    have hmade : guardLinks b (((placeStacked next).run (some n)).1 :: rest) = .ok made := by
      unfold close readThis at hmade
      simp only [List.singleton_append, hn, if_true] at hmade
      exact hmade
    have placedTy : ((placeStacked next).run (some n)).1.ty = next.ty := by
      cases hstacked : next.isStacked with
      | true =>
        rw [hstacked, if_pos rfl] at hkept
        rw [hkept, hty, stacked hstacked]
      | false =>
        rw [hstacked, if_neg (by decide)] at hkept
        exact hkept
    obtain ⟨last, hlast⟩ := Chained.of_typed (List.cons_ne_nil next rest) tail.typed
    obtain ⟨plain, hplain, -⟩ := guardLinks_chained (b := b) hlast
    obtain ⟨made', hmade', hfrom⟩ := guardLinks_place hfrom (fun _ => placedTy) hplain
    rw [hmade] at hmade'
    cases hmade'
    exact hfrom.gives (here plain hplain)

/-- One link more. -/
theorem snoc {after : Ty} {f : Value → Attempt Access Value}
    (h : Leads W locals b chain view top o) (hty : n.ty = some ty) (first : ReceiverFirst n)
    (stacked : n.isStacked = true → ty = view)
    (hn : ∀ v ∈ o, v.isNull = false → Gives W locals n [v] (f v))
    (hprim : ty.isPrimitive = true → ∀ v ∈ o, v.isNull = false → ∀ u ∈ f v, u.isNull = false) :
    Leads W locals b (chain ++ [n]) after top (o >>= unlessNull f) := by
  intro rest k made tail hrest hmade
  have more : o >>= unlessNull (fun v => f v >>= unlessNull k) = o >>= unlessNull f >>= unlessNull k := by
    rw [bind_assoc]
    exact Attempt.bind_congr fun v _ => unlessNull_bind f k v
  rw [← more]
  rw [List.append_assoc] at hmade
  refine h (n :: rest) _ made ⟨fun c hc => ?_, fun c hc => ?_⟩ (fun v hv hnull => ?_) hmade
  · rcases List.mem_cons.1 hc with rfl | hc
    · rw [hty]
      rfl
    · exact tail.typed c hc
  · cases hc
    exact ⟨first, fun hs => by rw [hty, stacked hs]⟩
  · intro made hmade
    refine gives_guardLinks hty (hn v hv hnull) (fun hp u hu => hprim hp v hv hnull u hu)
      (fun u hu hu' => hrest u ?_ hu') hmade
    refine Attempt.mem_bind.2 ⟨v, hv, ?_⟩
    rw [unlessNull_of hnull]
    exact hu

end Leads

end NavScript
