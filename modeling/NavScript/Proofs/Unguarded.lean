import NavScript.Proofs.Hereditary

/-!
# Navigations that start at `this`

A value that can be null is copied for a test before it is handed on. `this` is never null, and a chain
that starts at it reads it in place, so that a lowered navigation does not guard it (`lowered_unguarded`).
That is so as long as only the first link is `this`: of two links that stay on it the second one is left,
which is guarded if anything follows (`StaysTwice`).
-/

namespace NavScript

open Lower

variable {span : Span} {ty : Option Ty} {kind : Kind Node} {b : Bool}

/-- The node evaluates `this` and copies it, as a guard does with its subject. -/
def Node.guardsThis (n : Node) : Bool :=
  match n.kind with
  | .sequence (subject :: ⟨_, _, .stackOp .dup⟩ :: _) => subject.isThis
  | _ => false

/-- Nowhere in the tree is `this` guarded. -/
def Node.Unguarded (n : Node) : Prop := ∀ m ∈ n.nodes, m.guardsThis = false

theorem unguarded_mk : Node.Unguarded ⟨span, ty, kind⟩ ↔
    Node.guardsThis ⟨span, ty, kind⟩ = false ∧ ∀ c ∈ kind.children, c.Unguarded :=
  Node.forall_nodes_mk

theorem guardsThis_of_other {n : Node} (h : n.label ≠ "Sequence") : n.guardsThis = false := by
  obtain ⟨span, ty, kind⟩ := n
  cases kind
  case sequence => exact absurd rfl h
  all_goals rfl

theorem unguarded_of_other (h : kind.label ≠ "Sequence") :
    Node.Unguarded ⟨span, ty, kind⟩ ↔ ∀ c ∈ kind.children, c.Unguarded := by
  rw [unguarded_mk, guardsThis_of_other (n := ⟨span, ty, kind⟩) h]
  exact and_iff_right rfl

theorem unguarded_leaf (h : kind.label ≠ "Sequence") (none : kind.children = []) :
    Node.Unguarded ⟨span, ty, kind⟩ := by
  rw [unguarded_of_other h, none]
  exact fun _ hc => absurd hc List.not_mem_nil

theorem unguarded_sequence {first : Node} {rest : List Node} (other : first.isThis = false) :
    Node.Unguarded ⟨span, ty, .sequence (first :: rest)⟩ ↔ ∀ c ∈ first :: rest, c.Unguarded := by
  have own : Node.guardsThis ⟨span, ty, .sequence (first :: rest)⟩ = false := by
    unfold Node.guardsThis
    split
    · rename_i heq
      cases heq
      exact other
    · rfl
  rw [unguarded_mk, own]
  exact and_iff_right rfl

theorem Node.Unguarded.withSpan {n : Node} (h : n.Unguarded) (span : Span) :
    (n.withSpan span).Unguarded := by
  obtain ⟨_, ty, kind⟩ := n
  obtain ⟨own, children⟩ := unguarded_mk.1 h
  exact unguarded_mk.2 ⟨own, children⟩

theorem unguarded_this {n : Node} (h : n.isThis = true) : n.Unguarded := by
  obtain ⟨span, ty, kind⟩ := n
  cases kind
  case this => exact unguarded_leaf (by simp [Kind.label]) rfl
  all_goals cases h

/-- The node has no guard over `this` and can itself be guarded. -/
structure Node.Clear (n : Node) : Prop where
  unguarded : n.Unguarded
  other : n.isThis = false

theorem clear_leaf (h : kind.label ∉ ["Sequence", "This"]) (none : kind.children = []) :
    Node.Clear ⟨span, ty, kind⟩ := by
  simp only [List.mem_cons, List.not_mem_nil, or_false, not_or] at h
  refine ⟨unguarded_leaf h.1 none, ?_⟩
  cases kind
  case this => exact absurd rfl h.2
  all_goals rfl

theorem clear_of_children (h : kind.label ∉ ["Sequence", "This"])
    (children : ∀ c ∈ kind.children, c.Unguarded) : Node.Clear ⟨span, ty, kind⟩ := by
  simp only [List.mem_cons, List.not_mem_nil, or_false, not_or] at h
  refine ⟨(unguarded_of_other h.1).2 children, ?_⟩
  cases kind
  case this => exact absurd rfl h.2
  all_goals rfl

theorem clear_single {n : Node} (h : kind.label ∉ ["Sequence", "This"]) (one : kind.children = [n])
    (hn : n.Unguarded) : Node.Clear ⟨span, ty, kind⟩ := by
  refine clear_of_children h ?_
  rw [one]
  exact fun _ hc => List.mem_singleton.1 hc ▸ hn

theorem clear_pair {l r : Node} (h : kind.label ∉ ["Sequence", "This"]) (both : kind.children = [l, r])
    (hl : l.Unguarded) (hr : r.Unguarded) : Node.Clear ⟨span, ty, kind⟩ := by
  refine clear_of_children h ?_
  rw [both]
  exact List.forall_mem_cons.2 ⟨hl, fun c hc => List.mem_singleton.1 hc ▸ hr⟩

theorem unguarded_conditional {c t e : Node} (hc : c.Unguarded) (ht : t.Unguarded) (he : e.Unguarded) :
    Node.Unguarded ⟨span, ty, .conditional c t e⟩ := by
  refine (unguarded_of_other (by simp [Kind.label])).2 (List.forall_mem_cons.2 ⟨hc, ?_⟩)
  exact List.forall_mem_cons.2 ⟨ht, fun c hc => List.mem_singleton.1 hc ▸ he⟩

theorem clear_sequence {first : Node} {rest : List Node} (hfirst : first.Clear)
    (hrest : ∀ c ∈ rest, c.Unguarded) : Node.Clear ⟨span, ty, .sequence (first :: rest)⟩ :=
  ⟨(unguarded_sequence hfirst.other).2 (List.forall_mem_cons.2 ⟨hfirst.unguarded, hrest⟩), rfl⟩

/-- What is no `this` makes no guard over it where it is placed. -/
theorem Placed.clear {value n n' : Node} (h : Placed value n n') (hn : n.Unguarded)
    (hvalue : value.Clear) : n'.Clear := by
  induction h with
  | stacked => exact hvalue
  | propertyRead _ _ _ _ ih | convert _ _ _ _ ih | toSequence _ _ _ ih | collect _ _ _ _ ih =>
    have receiver := ih ((unguarded_mk.1 hn).2 _ (List.mem_singleton.2 rfl))
    exact clear_single (by simp [Kind.label]) rfl receiver.unguarded
  | methodCall _ _ _ _ _ _ ih | pipe _ _ _ _ _ _ ih | letIn _ _ _ _ _ ih =>
    have children := (unguarded_mk.1 hn).2
    have receiver := ih (children _ (List.mem_cons_self ..))
    refine clear_of_children (by simp [Kind.label]) (List.forall_mem_cons.2 ⟨receiver.unguarded, ?_⟩)
    exact fun c hc => children c (List.mem_cons_of_mem _ hc)
  | sequence _ _ _ _ ih =>
    have children := (unguarded_mk.1 hn).2
    have first := ih (children _ (List.mem_cons_self ..))
    exact clear_sequence first fun c hc => children c (List.mem_cons_of_mem _ hc)

theorem clear_guarded {subject body : Node} (hsubject : subject.Clear) (hbody : body.Unguarded)
    (span : Span) (ty stackedTy : Ty) : (guarded span ty subject stackedTy body).Clear := by
  have test : Node.Unguarded { ty := some .boolean, kind := .isNull (.stackedOf stackedTy) } :=
    (clear_single (by simp [Kind.label]) rfl (unguarded_leaf (by simp [Kind.label]) rfl)).unguarded
  have stop : Node.Unguarded { ty := some ty, kind := .sequence [.ofStackOp .pop, .nullOf ty] } := by
    refine (clear_sequence (clear_leaf (by simp [Kind.label]) rfl) fun c hc => ?_).unguarded
    exact List.mem_singleton.1 hc ▸ unguarded_leaf (by simp [Kind.label]) rfl
  refine clear_sequence hsubject (List.forall_mem_cons.2 ⟨unguarded_leaf (by simp [Kind.label]) rfl, ?_⟩)
  exact fun c hc => List.mem_singleton.1 hc ▸ unguarded_conditional test stop hbody

theorem clear_convertTo {n : Node} (h : n.Unguarded) (c : Conversion) (ty : Ty) :
    (Node.convertTo c n ty).Clear :=
  clear_single (by simp [Kind.label]) rfl h

theorem unguarded_boxedAs {n : Node} (h : n.Unguarded) (ty : Ty) : (boxedAs ty n).Unguarded := by
  unfold boxedAs
  split
  · exact (clear_convertTo h _ _).unguarded
  · exact h

theorem clear_guardLink {subject body made : Node} (hsubject : subject.Clear) (hbody : body.Clear)
    (hmade : guardLink b subject body = .ok made) : made.Clear := by
  obtain ⟨subjectTy, bodyTy, -, -, rfl⟩ := guardLink_ok.1 hmade
  unfold handed
  split
  · split
    · refine clear_guarded (clear_convertTo hsubject.unguarded _ _) ?_ _ _ _
      have boxed : Node.Unguarded (.stackedOf subjectTy.boxed) :=
        unguarded_leaf (by simp [Kind.label]) rfl
      refine (clear_sequence (clear_convertTo boxed .unbox subjectTy) fun c hc => ?_).unguarded
      exact List.mem_singleton.1 hc ▸ unguarded_boxedAs hbody.unguarded _
    · exact clear_sequence hsubject fun c hc => List.mem_singleton.1 hc ▸ hbody.unguarded
  · exact clear_guarded hsubject (unguarded_boxedAs hbody.unguarded _) _ _ _

theorem unguarded_localOf (x : String) (t : Ty) : (Node.localOf x t).Unguarded :=
  unguarded_leaf (by simp [Kind.label]) rfl

theorem clear_keepIf {cond : Node} (h : cond.Unguarded) (x : String) (t : Ty) :
    (keepIf x cond t).Clear := by
  unfold keepIf
  refine clear_pair (by simp [Kind.label]) rfl (unguarded_leaf (by simp [Kind.label]) rfl) ?_
  refine unguarded_conditional h ?_ (unguarded_leaf (by simp [Kind.label]) rfl)
  split
  · exact (clear_convertTo (unguarded_localOf x t) _ _).unguarded
  · exact unguarded_localOf x t

theorem unguarded_nullSafe {cond : Node} (h : cond.Unguarded) (x : String) (elem : Ty) :
    (nullSafe x cond elem).Unguarded := by
  unfold nullSafe
  split
  · exact h
  · refine unguarded_conditional ?_ (unguarded_leaf (by simp [Kind.label]) rfl) h
    exact (clear_single (by simp [Kind.label]) rfl (unguarded_localOf x elem)).unguarded

/-- Lowering guards no `this` that is no link. -/
theorem clear_lowers : Lowers b Node.Clear Node.Unguarded where
  place placed hn := placed.clear hn.unguarded
  guardLink := clear_guardLink
  keepIf := clear_keepIf
  element _ _ := clear_leaf (by simp [Kind.label]) rfl
  sequence _ _ := clear_single (by simp [Kind.label]) rfl (unguarded_leaf (by simp [Kind.label]) rfl)
  flatten body _ _ := clear_single (by simp [Kind.label]) rfl body.unguarded
  pipe source body _ _ _ := clear_pair (by simp [Kind.label]) rfl source.unguarded body.unguarded
  filter source cond _ _ :=
    clear_pair (by simp [Kind.label]) rfl source.unguarded (unguarded_nullSafe cond _ _)
  collect source _ := clear_single (by simp [Kind.label]) rfl source.unguarded

/-- The node reads the value on the stack first, and with `this` in its place it is no `this` and guards
none that it did not. -/
structure InPlace (n : Node) : Prop where
  first : ReceiverFirst n
  clear : ∀ {value n'}, value.isThis = true → Placed value n n' → n.Unguarded → n'.Clear

/-- The kinds around the read of a value that are no guards. -/
inductive Wraps (n : Node) : Kind Node → Prop
  | propertyRead (name : String) : Wraps n (.propertyRead n name)
  | methodCall (owner : Ty) (name : String) (args : List Node) : Wraps n (.methodCall n owner name args)
  | toSequence : Wraps n (.toSequence n)
  | letIn (x : String) (body : Node) : Wraps n (.letIn x n body)

theorem Wraps.inPlace {t : Ty} (h : Wraps (.stackedOf t) kind) (span : Span) (ty : Option Ty) :
    InPlace ⟨span, ty, kind⟩ := by
  cases h with
  | propertyRead =>
    refine ⟨(ReceiverFirst.stacked _ _).propertyRead .., fun this placed _ => ?_⟩
    cases placed with
    | propertyRead inner =>
      cases inner
      exact clear_single (by simp [Kind.label]) rfl (unguarded_this this)
  | methodCall =>
    refine ⟨(ReceiverFirst.stacked _ _).methodCall .., fun this placed hn => ?_⟩
    cases placed with
    | methodCall inner =>
      cases inner
      refine clear_of_children (by simp [Kind.label]) (List.forall_mem_cons.2 ⟨unguarded_this this, ?_⟩)
      exact fun c hc => (unguarded_mk.1 hn).2 c (List.mem_cons_of_mem _ hc)
  | toSequence =>
    refine ⟨(ReceiverFirst.stacked _ _).toSequence .., fun this placed _ => ?_⟩
    cases placed with
    | toSequence inner =>
      cases inner
      exact clear_single (by simp [Kind.label]) rfl (unguarded_this this)
  | letIn =>
    refine ⟨(ReceiverFirst.stacked _ _).letIn .., fun this placed hn => ?_⟩
    cases placed with
    | letIn inner =>
      cases inner
      refine clear_pair (by simp [Kind.label]) rfl (unguarded_this this) ?_
      exact (unguarded_mk.1 hn).2 _ (List.mem_cons_of_mem _ (List.mem_singleton.2 rfl))

/-- A step behind the head reads `this` in place, unless it stays on it. -/
theorem Answer.inPlace {step : Step Node} {t : Ty} {classes : ClassTable} {n : Node}
    (h : Answer ⟨step, .stackedOf t, t, classes⟩ n) (moves : n.isStacked = false) : InPlace n := by
  cases h with
  | receiver => cases moves
  | property => exact (Wraps.propertyRead _).inPlace ..
  | method => exact (Wraps.methodCall ..).inPlace ..

/-- What is lowered over a sequence reads `this` in place. -/
theorem opens_inPlace : Opens InPlace where
  first h := h.first
  sequence h span ty rest := by
    refine ⟨h.first.sequence .., fun this placed hn => ?_⟩
    cases placed with
    | sequence inner =>
      have children := (unguarded_mk.1 hn).2
      have first := h.clear this inner (children _ (List.mem_cons_self ..))
      exact clear_sequence first fun c hc => children c (List.mem_cons_of_mem _ hc)
  convert h span ty c := by
    refine ⟨h.first.convert .., fun this placed hn => ?_⟩
    cases placed with
    | convert inner =>
      have child := (unguarded_mk.1 hn).2 _ (List.mem_singleton.2 rfl)
      exact clear_single (by simp [Kind.label]) rfl (h.clear this inner child).unguarded
  pipe h op x body elem := by
    refine ⟨h.first.pipe .., fun this placed hn => ?_⟩
    cases placed with
    | pipe inner =>
      have children := (unguarded_mk.1 hn).2
      have first := h.clear this inner (children _ (List.mem_cons_self ..))
      refine clear_pair (by simp [Kind.label]) rfl first.unguarded ?_
      exact children _ (List.mem_cons_of_mem _ (List.mem_singleton.2 rfl))
  collect h r := by
    refine ⟨h.first.collect .., fun this placed hn => ?_⟩
    cases placed with
    | collect inner =>
      have child := (unguarded_mk.1 hn).2 _ (List.mem_singleton.2 rfl)
      exact clear_single (by simp [Kind.label]) rfl (h.clear this inner child).unguarded

/-- The node with a value in the place of the first stacked one. -/
def Node.placed (n value : Node) : Node := ((placeStacked n).run (some value)).1

theorem ReceiverFirst.placed_of {n : Node} (h : ReceiverFirst n) (value : Node) :
    Placed value n (n.placed value) := by
  have run : placing.rel (placeStacked n) (some value) (n.placed value)
    ((placeStacked n).run (some value)).2 := rfl
  exact (h.placed run).1

section

variable {this n : Node}

/-- `this` and what reads it is one link, if that is not `this` again. -/
theorem close_this (hthis : this.isThis = true) (moves : (n.placed this).isThis = false)
    (chain : List Node) : close b (this :: n :: chain) = close b (n.placed this :: chain) := by
  rw [close_other moves]
  unfold close
  rw [show readThis (this :: n :: chain) = n.placed this :: chain from if_pos hthis]

theorem multiValuedEnd_this (typed : (n.placed this).ty = n.ty) (chain : List Node) :
    multiValuedEnd (this :: n :: chain) = multiValuedEnd (n.placed this :: chain) := by
  cases chain with
  | nil =>
    have last : ([this, n].getLast?.bind (·.ty)) = [n.placed this].getLast?.bind (·.ty) := typed.symm
    unfold multiValuedEnd
    rw [last]
  | cons => rfl

/-- So the navigation goes on as one that starts with this link. -/
theorem scalar_this (hthis : this.isThis = true) (moves : (n.placed this).isThis = false)
    (typed : (n.placed this).ty = n.ty) (links : List Link) (chain : List Node) :
    scalar b (this :: n :: chain) links = scalar b (n.placed this :: chain) links := by
  induction links generalizing chain with
  | nil =>
    rw [scalar, scalar, close_this hthis moves]
  | cons link rest ih =>
    cases link with
    | step expr ty =>
      rw [scalar, scalar]
      simp only [List.cons_append, ih, close_this hthis moves]
    | predicate x cond ty =>
      rw [scalar, scalar, List.cons_append, List.cons_append, ih, List.cons_append]
    | reduce r ty =>
      rw [scalar, scalar, multiValuedEnd_this typed]
      simp only [List.cons_append, close_this hthis moves]

/-- A step from a single `this` is the head of the navigation, if it does not stay on it. -/
theorem scalar_from_this (hthis : this.isThis = true) {t : Ty} (single : t.isMultiValued = false)
    (moves : (n.placed this).isThis = false) (typed : (n.placed this).ty = n.ty) (ty : Ty)
    (rest : List Link) :
    scalar b [] (.step this t :: .step n ty :: rest) = scalar b [] (.step (n.placed this) ty :: rest) := by
  have head : scalar b [] (.step this t :: .step n ty :: rest) = scalar b [this] (.step n ty :: rest) := by
    rw [scalar, single]
    rfl
  rw [head, scalar, scalar]
  simp only [List.cons_append, List.nil_append, close_this hthis moves, scalar_this hthis moves typed]

end

/-- The first two links stay on a single `this`, and there are others behind them. -/
def StaysTwice : List Link → Prop
  | .step this t :: .step stay _ :: _ :: _ =>
    this.isThis = true ∧ t.isMultiValued = false ∧ stay.isStacked = true
  | _ => False

/-- The link makes no guard over `this`, and a step of it reads `this` in place or stays on it. -/
def Link.Guardless : Link → Prop
  | .step expr _ => expr.Clear ∧ ReceiverFirst expr ∧ (expr.isStacked = false → InPlace expr)
  | .predicate _ cond _ => cond.Unguarded
  | .reduce _ _ => True

theorem Link.Guardless.parts {link : Link} (h : link.Guardless) :
    link.Parts Node.Clear Node.Unguarded := by
  cases link with
  | step => exact ⟨h.1, h.2.1⟩
  | predicate => exact h
  | reduce => trivial

/-- A condition on a candidate reads `this` in place. -/
theorem inPlace_keepIf (x : String) (cond : Node) (t : Ty) : InPlace (keepIf x cond t) :=
  (Wraps.letIn ..).inPlace ..

theorem placed_stacked {n : Node} (h : n.isStacked = true) (value : Node) : n.placed value = value := by
  obtain ⟨span, ty, kind⟩ := n
  cases kind
  case stacked =>
    unfold Node.placed
    rw [placeStacked_stacked]
  all_goals cases h

section

variable {expr made : Node} {t : Ty} {rest : List Link} {n m : Nat} (hthis : expr.isThis = true)
  (links : ∀ link ∈ rest, link.Guardless)
include hthis links

/-- A sequence that is bound to `this` is read in place. -/
theorem lowered_over (multi : t.isMultiValued = true) (more : rest ≠ [])
    (hmade : Makes (scalar b [] (.step expr t :: rest)) n made m) : made.Unguarded := by
  have goes : (t.isMultiValued && !rest.isEmpty) = true := by
    rw [multi, Bool.true_and, Bool.not_eq_true', List.isEmpty_eq_false_iff]
    exact more
  rw [makes_scalar_step, if_pos goes] at hmade
  obtain ⟨elem, tail, -, htail, hclose⟩ := hmade
  have source := clear_lowers.sequence (b := b) t elem
  have tailClear : tail.Clear := clear_lowers.stream rest htail (fun l hl => (links l hl).parts) source
    fun _ hc => absurd hc List.not_mem_nil
  have inPlace : InPlace tail := opens_inPlace.stream rest htail (Wraps.toSequence.inPlace ..)
  have placed := inPlace.clear hthis (inPlace.first.placed_of expr) tailClear.unguarded
  rw [List.nil_append, close_this hthis placed.other] at hclose
  cases hclose
  exact placed.unguarded

/-- What goes on from a single `this` reads it in place. -/
theorem lowered_from (typed : expr.ty = some t) (single : t.isMultiValued = false) (more : rest ≠ [])
    (once : ¬ StaysTwice (.step expr t :: rest))
    (hmade : Makes (scalar b [] (.step expr t :: rest)) n made m) : made.Unguarded := by
  have behind (rest : List Link) (h : Makes (scalar b [] (.step expr t :: rest)) n made m) :
      Makes (scalar b [expr] rest) n made m := by
    rw [makes_scalar_step, single] at h
    exact h
  obtain ⟨link, rest, rfl⟩ := List.exists_cons_of_ne_nil more
  have first := links link (List.mem_cons_self ..)
  have others : ∀ l ∈ rest, l.Parts Node.Clear Node.Unguarded :=
    fun l hl => (links l (List.mem_cons_of_mem _ hl)).parts
  cases link with
  | step next u =>
    obtain ⟨clear, receiver, inPlace⟩ := first
    cases stays : next.isStacked with
    | false =>
      have placed := (inPlace stays).clear hthis (receiver.placed_of expr) clear.unguarded
      have sameTy : (next.placed expr).ty = next.ty := by
        have placedTy := (receiver.placed_of expr).ty
        rwa [stays] at placedTy
      rw [scalar_from_this hthis single placed.other sameTy] at hmade
      exact (clear_lowers.lowered placed others hmade).unguarded
    | true =>
      cases rest with
      | cons => exact absurd ⟨hthis, single, stays⟩ once
      | nil =>
        have last := behind _ hmade
        rw [makes_scalar_step, List.isEmpty_nil, Bool.not_true, Bool.and_false] at last
        obtain ⟨hclose, -⟩ := makes_scalar_nil.1 last
        have chain : readThis [expr, next] = [expr] := by
          rw [show readThis [expr, next] = [next.placed expr] from if_pos hthis, placed_stacked stays]
        rw [List.singleton_append, close, chain] at hclose
        cases hclose
        exact unguarded_this hthis
  | predicate x cond u =>
    have inPlace := inPlace_keepIf x cond u
    have placed := inPlace.clear hthis (inPlace.first.placed_of expr) (clear_keepIf first x u).unguarded
    have sameTy : ((keepIf x cond u).placed expr).ty = (keepIf x cond u).ty :=
      (inPlace.first.placed_of expr).ty
    have last := makes_scalar_predicate.1 (behind _ hmade)
    rw [List.singleton_append, scalar_this hthis placed.other sameTy] at last
    exact (clear_lowers.scalar rest last others (.single placed)).unguarded
  | reduce r u =>
    obtain ⟨multi, -, -, hend, -⟩ := makes_scalar_reduce.1 (behind _ hmade)
    obtain ⟨hty, hmulti⟩ := multiValuedEnd_ok hend
    rw [show [expr].getLast?.bind (·.ty) = expr.ty from rfl, typed] at hty
    cases hty
    rw [single] at hmulti
    cases hmulti

end

/-- A lowered navigation guards no `this`, unless its links stay on it twice. -/
theorem lowered_unguarded {expr made : Node} {t : Ty} {rest : List Link} {n m : Nat}
    (typed : expr.ty = some t) (head : expr.Unguarded) (links : ∀ link ∈ rest, link.Guardless)
    (once : ¬ StaysTwice (.step expr t :: rest))
    (hmade : Makes (scalar b [] (.step expr t :: rest)) n made m) : made.Unguarded := by
  cases hthis : expr.isThis with
  | false => exact (clear_lowers.lowered ⟨head, hthis⟩ (fun l hl => (links l hl).parts) hmade).unguarded
  | true =>
    by_cases more : rest = []
    · subst more
      rw [makes_scalar_step, List.isEmpty_nil, Bool.not_true, Bool.and_false] at hmade
      obtain ⟨hclose, -⟩ := makes_scalar_nil.1 hmade
      cases hclose
      exact head
    · cases multi : t.isMultiValued with
      | true => exact lowered_over hthis links multi more hmade
      | false => exact lowered_from hthis links typed multi more once hmade

end NavScript
