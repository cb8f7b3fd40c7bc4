import NavScript.Proofs.Reading
import NavScript.Proofs.Runs

/-!
# What is in view of a link

The forward phase sees a type in front of each link, of one value or of the elements of one
(`Sight`), and its links go on from there (`Fit`). In a world where members are as they are declared
the reading stays within what is seen (`Focus.Held`, `held_advance`).

One type promises too much: where primitives are collected behind a null element, the array has a
null in it. `Gaps` follows such nulls, as far as types tell.
-/

namespace NavScript

/-- Whether there can be null although the type in view is primitive, for one value: as an element
of it. -/
inductive Gaps where
  | none
  /-- There can, and lowering has the class of the primitive in view. -/
  | boxed
  /-- There can, and lowering has the primitive in view. -/
  | hidden
deriving DecidableEq

structure Sight where
  ty : Ty
  /-- The elements of a value are in view. -/
  streaming : Bool := false
  gaps : Gaps := .none

namespace Sight

/-- A multi-valued value is seen by element if links follow. -/
def entered (s : Sight) (more : Bool) : Sight :=
  match s.ty.element? with
  | some elem => if more then { s with ty := elem, streaming := true } else s
  | none => s

/-- What is in view behind a step. -/
def stepped (s : Sight) (expr : Node) (ty : Ty) (more : Bool) : Sight :=
  let gaps : Gaps :=
    if s.streaming then (if ty.isPrimitive then .boxed else .none)
    else if expr.isStacked then s.gaps else .none
  entered ⟨ty, s.streaming, gaps⟩ (s.streaming || more)

/-- What is in view behind a reduction to a type. -/
def reduced (s : Sight) (ty : Ty) : Sight :=
  let gaps : Gaps :=
    if s.gaps != .none && ty.element?.any (·.isPrimitive) then .hidden else .none
  ⟨ty, false, gaps⟩

def after (s : Sight) (link : Link) (more : Bool) : Sight :=
  match link with
  | .step expr ty => s.stepped expr ty more
  | .predicate _ _ _ => if s.streaming && s.gaps != .hidden then { s with gaps := .none } else s
  | .reduce _ ty => s.reduced ty

/-- The condition is on elements of which some can be null and lowering does not see it. -/
def overlooks (s : Sight) : Link → Bool
  | .predicate _ _ _ => s.streaming && s.gaps == .hidden
  | _ => false

/-- Some condition of the links is on such elements. -/
def overlooked (s : Sight) : List Link → Bool
  | [] => false
  | link :: rest => s.overlooks link || overlooked (s.after link (!rest.isEmpty)) rest

/-- What is in view behind the head. -/
def behind (ty : Ty) (rest : List Link) : Sight := entered { ty } (!rest.isEmpty)

theorem reference_of_element {ty elem : Ty} (h : ty.element? = some elem) :
    ty.isPrimitive = false := by
  cases ty
  case prim => cases h
  all_goals rfl

theorem stepped_scalar {s : Sight} (hs : s.streaming = false) (expr : Node) (ty : Ty)
    (more : Bool) : s.stepped expr ty more =
      entered ⟨ty, false, if expr.isStacked then s.gaps else .none⟩ more := by
  unfold stepped
  rw [hs]
  rfl

theorem stepped_single {s : Sight} (hs : s.streaming = true) (expr : Node) {ty : Ty}
    (h : ty.element? = none) (more : Bool) :
    s.stepped expr ty more = ⟨ty, true, if ty.isPrimitive then .boxed else .none⟩ := by
  unfold stepped entered
  simp only [hs, h, if_true]

theorem stepped_multi {s : Sight} (hs : s.streaming = true) (expr : Node) {ty elem : Ty}
    (h : ty.element? = some elem) (more : Bool) : s.stepped expr ty more = ⟨elem, true, .none⟩ := by
  unfold stepped entered
  simp only [hs, h, reference_of_element h, Bool.true_or, Bool.false_eq_true, if_true, if_false]

section

variable (s : Sight) (x : String) (cond : Node) (ty : Ty) (more : Bool)

/-- A condition takes gaps away and nothing else. -/
theorem after_predicate : ∃ gaps, s.after (.predicate x cond ty) more = { s with gaps } := by
  unfold after
  simp only
  split
  · exact ⟨_, rfl⟩
  · exact ⟨s.gaps, rfl⟩

theorem after_predicate_ty : (s.after (.predicate x cond ty) more).ty = s.ty := by
  obtain ⟨_, seen⟩ := s.after_predicate x cond ty more
  rw [seen]

theorem after_predicate_streaming :
    (s.after (.predicate x cond ty) more).streaming = s.streaming := by
  obtain ⟨_, seen⟩ := s.after_predicate x cond ty more
  rw [seen]

end

theorem after_predicate_scalar {s : Sight} (hs : s.streaming = false) (x : String) (cond : Node)
    (ty : Ty) (more : Bool) : s.after (.predicate x cond ty) more = s := by
  unfold after
  rw [hs]
  rfl

end Sight

/-- What the links lead to if conditions on overlooked elements are asked of null too. -/
def perform (W : World) (locals : List (String × Value)) :
    Sight → Focus → List Link → Attempt Access Value
  | _, focus, [] => pure focus.value
  | s, focus, link :: rest =>
    focus.advance W locals link (!rest.isEmpty) (s.overlooks link) >>= fun next =>
      perform W locals (s.after link (!rest.isEmpty)) next rest

/-- Where nothing is overlooked the links lead to what they read as. -/
theorem perform_eq {W : World} {locals : List (String × Value)} {links : List Link} {s : Sight}
    {f : Focus} (h : s.overlooked links = false) :
    perform W locals s f links = follow W locals f links := by
  induction links generalizing s f with
  | nil => rfl
  | cons link rest ih =>
    obtain ⟨seen, hrest⟩ := Bool.or_eq_false_iff.1 h
    show f.advance W locals link _ (s.overlooks link) >>= _ = f.advance W locals link _ false >>= _
    rw [seen]
    exact Attempt.bind_congr fun next _ => ih hrest

theorem perform_null {W : World} {locals : List (String × Value)} {links : List Link} {s : Sight} :
    perform W locals s (.one .null) links = pure .null := by
  induction links generalizing s with
  | nil => rfl
  | cons link rest ih =>
    show pure (Focus.one .null) >>= _ = _
    rw [pure_bind]
    exact ih

/-- A step that goes on from a receiver of the type in view. -/
structure Movable (classes : ClassTable) (receiver : Ty) (expr : Node) (ty : Ty) : Prop where
  reference : receiver.isPrimitive = false
  typed : expr.ty = some ty
  answer : ∃ step : Step Node, Answer ⟨step, .stackedOf receiver, receiver, classes⟩ expr

section

variable (goes : Ty → Node → Ty → Prop)

/-- A link that goes on from what is in view, a step as steps go. -/
inductive LinkFit (s : Sight) : Link → Prop
  | step {expr : Node} {ty : Ty} (h : goes s.ty expr ty) : LinkFit s (.step expr ty)
  | predicate (x : String) (cond : Node) : LinkFit s (.predicate x cond s.ty)
  | reduce (r : Reduction) {elem : Ty}
    (h : if s.streaming then elem = s.ty else s.ty.element? = some elem) :
    LinkFit s (.reduce r (r.collectionTy elem))

variable {goes} {s : Sight} {expr cond : Node} {ty : Ty}

theorem linkFit_step : LinkFit goes s (.step expr ty) ↔ goes s.ty expr ty := by
  constructor
  · rintro ⟨h⟩
    exact h
  · exact .step

theorem linkFit_predicate {x : String} : LinkFit goes s (.predicate x cond ty) ↔ ty = s.ty := by
  constructor
  · rintro ⟨⟩
    rfl
  · rintro rfl
    exact .predicate x cond

theorem linkFit_reduce {r : Reduction} : LinkFit goes s (.reduce r ty) ↔ ∃ elem,
    ty = r.collectionTy elem ∧ if s.streaming then elem = s.ty else s.ty.element? = some elem := by
  constructor
  · rintro ⟨⟩
    exact ⟨_, rfl, by assumption⟩
  · rintro ⟨elem, rfl, h⟩
    exact .reduce r h

variable (goes)

def Fit (s : Sight) : List Link → Prop
  | [] => True
  | link :: rest => LinkFit goes s link ∧ Fit (s.after link (!rest.isEmpty)) rest

end

section

variable {isA : Ty → Value → Prop} {t elem : Ty} {v : Value}

theorem Typed.nonNull (h : Typed isA t v) (ht : t.isPrimitive = true) : v.isNull = false := by
  cases h with
  | null reference =>
    rw [ht] at reference
    cases reference
  | single nonNull _ _ => exact nonNull
  | multi element _ _ =>
    cases t
    case prim => cases element
    all_goals cases ht

theorem Ty.element?_boxed_prim (k : Prim) : (Ty.prim k).boxed.element? = none := rfl

/-- A value of a primitive is one of its box. -/
theorem Typed.boxed {classes : ClassTable} {W : World} (hW : W.WellTyped isA classes)
    (h : Typed isA t v) : Typed isA t.boxed v := by
  cases t
  case prim k =>
    cases h with
    | null reference => cases reference
    | single nonNull _ h => exact .single nonNull (Ty.element?_boxed_prim k) (hW.boxes h)
    | multi element _ _ => cases element
  all_goals exact h

theorem Typed.elements (h : Typed isA t v) (ht : t.element? = some elem) :
    ∀ i ∈ v.elements, Typed isA elem i := by
  cases h with
  | null => exact fun _ h => absurd h List.not_mem_nil
  | single _ notMulti _ =>
    rw [ht] at notMulti
    cases notMulti
  | multi element held all =>
    rw [ht] at element
    cases element
    unfold Value.elements
    rw [held]
    exact all

theorem Typed.items (h : Typed isA t v) (ht : t.element? = some elem) (hv : v.isNull = false) :
    v.items? = some v.elements := by
  cases h with
  | null => cases hv
  | single _ notMulti _ =>
    rw [ht] at notMulti
    cases notMulti
  | multi _ held _ =>
    unfold Value.elements
    rw [held]
    rfl

/-- Null in the place of a value, or a value of the type. -/
def NullOr (isA : Ty → Value → Prop) (t : Ty) (v : Value) : Prop := v.isNull = true ∨ Typed isA t v

theorem NullOr.typed (h : NullOr isA t v) (hv : v.isNull = false) : Typed isA t v := by
  rcases h with h | h
  · rw [h] at hv
    cases hv
  · exact h

theorem NullOr.reference (h : NullOr isA t v) (ht : t.isPrimitive = false) : Typed isA t v := by
  rcases h with h | h
  · rw [Value.eq_null h]
    exact .null ht
  · exact h

theorem NullOr.boxed {classes : ClassTable} {W : World} (hW : W.WellTyped isA classes)
    (h : NullOr isA t v) : Typed isA t.boxed v := by
  rcases h with h | h
  · rw [Value.eq_null h]
    exact .null t.boxed_reference
  · exact h.boxed hW

end

/-- Two types that have the same members. -/
def SameMembers (classes : ClassTable) (a b : Ty) : Prop :=
  (∀ name, classes.property? a name = classes.property? b name) ∧
    ∀ name arity, classes.method? a name arity = classes.method? b name arity

/-- All arrays have the members of `Object`. -/
theorem sameMembers_array (classes : ClassTable) (a b : Ty) :
    SameMembers classes (.array a) (.array b) := by
  have same (find : ClassDef → Option Ty) :
      classes.member? (.array a) find = classes.member? (.array b) find := by
    simp [ClassTable.member?, ClassTable.walk, ClassTable.climb, ClassTable.supers, Ty.key,
      Ty.className?, ClassDef.seenFrom]
  exact ⟨fun _ => same _, fun _ _ => same _⟩

section

variable {isA : Ty → Value → Prop} {classes : ClassTable} {W : World}
  {locals : List (String × Value)} {receiver ty : Ty} {expr : Node} {u v : Value}

/-- A step stays on the receiver, or it leads to a value of its type. -/
theorem Movable.step (h : Movable classes receiver expr ty) (hW : W.WellTyped isA classes) {t : Ty}
    (hv : Typed isA t v) (ht : SameMembers classes t receiver) (hnull : v.isNull = false)
    (hu : u ∈ W.step locals expr v) :
    if expr.isStacked then u = v ∧ ty = receiver else Typed isA ty u := by
  obtain ⟨-, typed, step, answer⟩ := h
  cases answer with
  | receiver =>
    cases typed
    exact ⟨Attempt.mem_pure.1 hu, rfl⟩
  | @property name found has =>
    cases typed
    rw [← ht.1] at has
    obtain ⟨w, hread, hw⟩ := hW.reads has hv hnull
    have done : W.step locals (Request.propertyRead ⟨step, .stackedOf receiver, receiver, classes⟩
        name found.ty) v = .done w {⟨v, name⟩} := by
      show W.reads v name = _
      unfold World.reads
      rw [hnull, hread]
      rfl
    rw [done, Attempt.mem_done] at hu
    rw [hu]
    exact hw
  | @method name found has =>
    cases typed
    rw [← ht.2] at has
    obtain ⟨args, hargs, hu⟩ := Attempt.mem_bind.1 hu
    rw [← Attempt.length_of_mem_mapM hargs] at has
    obtain ⟨w, hcall, hw⟩ := hW.calls has hv hnull
    unfold World.calls at hu
    rw [hnull, hcall] at hu
    rw [Attempt.mem_done.1 hu]
    exact hw

end

namespace Focus

/-- What a navigation has come to is in view. -/
inductive Held (isA : Ty → Value → Prop) (s : Sight) : Focus → Prop
  /-- Nothing goes on from null. -/
  | null : Held isA s (.one .null)
  | one {v : Value} (scalar : s.streaming = false) (gaps : s.gaps = .none)
    (typed : Typed isA s.ty v) : Held isA s (.one v)
  /-- A collection of primitives with nulls among them. -/
  | hollow {v : Value} {k : Prim} {items : List Value} (scalar : s.streaming = false)
    (gaps : s.gaps = .hidden) (ty : s.ty = .array (.prim k)) (held : v.items? = some items)
    (all : ∀ i ∈ items, NullOr isA (.prim k) i) : Held isA s (.one v)
  | many {items : List Value} (streaming : s.streaming = true)
    (all : ∀ i ∈ items, NullOr isA s.ty i)
    (nonNull : s.gaps = .none → s.ty.isPrimitive = true → ∀ i ∈ items, i.isNull = false)
    (primitive : s.gaps ≠ .none → s.ty.isPrimitive = true) : Held isA s (.many items)

variable {isA : Ty → Value → Prop} {classes : ClassTable} {W : World}
  {locals : List (String × Value)} {s : Sight}

theorem mem_distinct {items : List Value} {v : Value} (h : v ∈ Value.distinct items) :
    v ∈ items := by
  have kept : ∀ (rest unique : List Value),
      v ∈ rest.foldl (fun unique v => if unique.any (·.same v) then unique else unique ++ [v]) unique →
        v ∈ unique ∨ v ∈ rest := by
    intro rest
    induction rest with
    | nil => exact fun unique h => .inl h
    | cons u rest ih =>
      intro unique h
      rw [List.foldl_cons] at h
      rcases ih _ h with h | h
      · split at h
        · exact .inl h
        · rcases List.mem_append.1 h with h | h
          · exact .inl h
          · exact .inr (List.mem_cons.2 (.inl (List.mem_singleton.1 h)))
      · exact .inr (List.mem_cons_of_mem _ h)
  rcases kept items [] h with h | h
  · cases h
  · exact h

theorem collected_items (r : Reduction) (items : List Value) :
    ∃ held, (Value.collected r items).items? = some held ∧ ∀ v ∈ held, v ∈ items := by
  cases r with
  | array | list => exact ⟨items, rfl, fun _ h => h⟩
  | set => exact ⟨Value.distinct items, rfl, fun _ h => mem_distinct h⟩

theorem Ty.element?_collectionTy (r : Reduction) (elem : Ty) :
    (r.collectionTy elem).element? = some (if r = .array then elem else elem.boxed) := by
  cases r <;> rfl

/-- A collection of elements is in view as the reduction says. -/
theorem held_collected (hW : W.WellTyped isA classes) {r : Reduction} {elem : Ty}
    {items : List Value} (all : ∀ i ∈ items, NullOr isA elem i)
    (nonNull : s.gaps = .none → elem.isPrimitive = true → ∀ i ∈ items, i.isNull = false)
    (primitive : s.gaps ≠ .none → elem.isPrimitive = true) :
    Held isA (s.reduced (r.collectionTy elem)) (.one (.collected r items)) := by
  obtain ⟨held, hheld, hmem⟩ := collected_items r items
  have element := Ty.element?_collectionTy r elem
  by_cases harray : r = .array
  · rw [if_pos harray] at element
    by_cases hprim : elem.isPrimitive = true
    · by_cases hgaps : s.gaps = .none
      · have reduced : (s.reduced (r.collectionTy elem)).gaps = .none := by
          simp [Sight.reduced, hgaps]
        refine .one rfl reduced (.multi element hheld fun i hi => ?_)
        exact (all i (hmem i hi)).typed (nonNull hgaps hprim i (hmem i hi))
      · have reduced : (s.reduced (r.collectionTy elem)).gaps = .hidden := by
          simp [Sight.reduced, hgaps, element, hprim]
        obtain ⟨k, rfl⟩ : ∃ k, elem = .prim k := by
          cases elem
          case prim k => exact ⟨k, rfl⟩
          all_goals cases hprim
        subst harray
        exact .hollow rfl reduced rfl hheld fun i hi => all i (hmem i hi)
    · have hgaps : s.gaps = .none := by
        by_contra h
        exact hprim (primitive h)
      have reduced : (s.reduced (r.collectionTy elem)).gaps = .none := by
        simp [Sight.reduced, hgaps]
      refine .one rfl reduced (.multi element hheld fun i hi => ?_)
      exact (all i (hmem i hi)).reference (Bool.eq_false_iff.2 hprim)
  · rw [if_neg harray] at element
    have reduced : (s.reduced (r.collectionTy elem)).gaps = .none := by
      simp [Sight.reduced, element, elem.boxed_reference]
    refine .one rfl reduced (.multi element hheld fun i hi => ?_)
    exact (all i (hmem i hi)).boxed hW

/-- One value in view is entered if its elements are. -/
theorem held_of {v : Value} (h : Held isA s (.one v)) (more : Bool) :
    Held isA (s.entered more) (.of (s.ty.isMultiValued && more) v) := by
  unfold Sight.entered Ty.isMultiValued
  cases hv : v.isNull with
  | true =>
    have : Focus.of (s.ty.element?.isSome && more) v = .one .null := by
      rw [Value.eq_null hv]
      simp [Focus.of, Value.isNull, Value.null]
    rw [this]
    exact .null
  | false =>
    cases he : s.ty.element? with
    | none =>
      simp only [Option.isSome_none, Bool.false_and]
      exact h
    | some elem =>
      cases more with
      | false =>
        simp only [Bool.and_false]
        exact h
      | true =>
        have : Focus.of ((some elem).isSome && true) v = .many v.elements := by
          simp [Focus.of, hv]
        rw [this]
        cases h with
        | null => cases hv
        | one _ gaps typed =>
          have elements := typed.elements he
          exact .many rfl (fun i hi => .inr (elements i hi))
            (fun _ hprim i hi => (elements i hi).nonNull hprim) fun h => absurd gaps h
        | hollow _ gaps ty held all =>
          rw [ty] at he
          cases he
          have elements : v.elements = _ := congrArg (·.getD []) held
          refine .many rfl ?_ (fun h => ?_) fun _ => rfl
          · rw [elements]
            exact all
          · rw [show s.gaps = .none from h] at gaps
            cases gaps

theorem Held.scalar {v : Value} (h : Held isA s (.one v)) (hv : v.isNull = false) :
    s.streaming = false := by
  cases h with
  | null => cases hv
  | one scalar _ _ | hollow scalar _ _ _ _ => exact scalar

/-- A value in view has a type with the members of the type in view. -/
theorem Held.typed {v : Value} (h : Held isA s (.one v)) (hW : W.WellTyped isA classes)
    (hv : v.isNull = false) : ∃ t, Typed isA t v ∧ SameMembers classes t s.ty := by
  cases h with
  | null => cases hv
  | one _ _ typed => exact ⟨s.ty, typed, fun _ => rfl, fun _ _ => rfl⟩
  | @hollow _ k items _ _ ty held all =>
    refine ⟨.array (Ty.prim k).boxed, .multi rfl held fun i hi => (all i hi).boxed hW, ?_⟩
    rw [ty]
    exact sameMembers_array classes _ _

theorem held_step (hW : W.WellTyped isA classes) {expr : Node} {ty : Ty}
    (hmove : Movable classes s.ty expr ty) (more : Bool) {v : Value} (h : Held isA s (.one v))
    (hv : v.isNull = false) {u : Value} (hu : u ∈ W.step locals expr v) :
    Held isA (s.stepped expr ty more) (.of (ty.isMultiValued && more) u) := by
  obtain ⟨t, typed, same⟩ := h.typed hW hv
  have step := hmove.step hW typed same hv hu
  have scalar := h.scalar hv
  rw [Sight.stepped_scalar scalar]
  cases hstay : expr.isStacked with
  | true =>
    rw [hstay, if_pos rfl] at step
    obtain ⟨rfl, rfl⟩ := step
    have here : (⟨s.ty, false, s.gaps⟩ : Sight) = s := by
      rw [← scalar]
    simp only [if_true, here]
    exact held_of h more
  | false =>
    rw [hstay, if_neg (by decide)] at step
    simp only [Bool.false_eq_true, if_false]
    exact held_of (s := ⟨ty, false, .none⟩) (.one rfl rfl step) more

theorem held_reduce (hW : W.WellTyped isA classes) {r : Reduction} {elem : Ty} {v : Value}
    (h : Held isA s (.one v)) (hv : v.isNull = false) (helem : s.ty.element? = some elem) :
    Held isA (s.reduced (r.collectionTy elem)) (.one (.collected r v.elements)) := by
  cases h with
  | null => cases hv
  | one _ gaps typed =>
    have elements := typed.elements helem
    exact held_collected hW (fun i hi => .inr (elements i hi))
      (fun _ hprim i hi => (elements i hi).nonNull hprim) fun h => absurd gaps h
  | hollow _ gaps ty held all =>
    rw [ty] at helem
    cases helem
    have elements : v.elements = _ := congrArg (·.getD []) held
    rw [elements]
    refine held_collected hW all (fun h => ?_) fun _ => rfl
    rw [gaps] at h
    cases h

/-- What elements lead to is in view, and as many elements. -/
theorem held_steps (hW : W.WellTyped isA classes) {expr : Node} {ty : Ty}
    (hmove : Movable classes s.ty expr ty) (more : Bool) {items found : List Value}
    (h : Held isA s (.many items))
    (hfound : found ∈ items.mapM (unlessNull (W.step locals expr))) :
    Held isA (s.stepped expr ty more)
      (.many (if ty.isMultiValued then found.flatMap Value.elements else found)) := by
  cases h with
  | many streaming all nonNull primitive =>
    have each : ∀ u ∈ found, NullOr isA ty u := by
      intro u hu
      obtain ⟨i, hi, hstep⟩ := Attempt.mem_mapM hfound u hu
      unfold unlessNull at hstep
      cases hnull : i.isNull with
      | true =>
        rw [hnull, if_pos rfl, Attempt.mem_pure] at hstep
        rw [hstep]
        exact .inl rfl
      | false =>
        rw [hnull, if_neg (by decide)] at hstep
        have typed := (all i hi).typed hnull
        have step := hmove.step hW typed ⟨fun _ => rfl, fun _ _ => rfl⟩ hnull hstep
        cases hstay : expr.isStacked with
        | true =>
          rw [hstay, if_pos rfl] at step
          obtain ⟨rfl, rfl⟩ := step
          exact .inr typed
        | false =>
          rw [hstay, if_neg (by decide)] at step
          exact .inr step
    unfold Ty.isMultiValued
    cases he : ty.element? with
    | none =>
      rw [Sight.stepped_single streaming expr he]
      refine .many rfl each (fun hgaps hprim => ?_) fun hgaps => ?_
      · simp only [show ty.isPrimitive = true from hprim, if_true, reduceCtorEq] at hgaps
      · by_contra hprim
        simp only [Bool.eq_false_iff.2 hprim, Bool.false_eq_true, if_false, ne_eq,
          not_true_eq_false] at hgaps
    | some elem =>
      rw [Sight.stepped_multi streaming expr he]
      have typed : ∀ i ∈ found.flatMap Value.elements, Typed isA elem i := by
        intro i hi
        obtain ⟨u, hu, hi⟩ := List.mem_flatMap.1 hi
        exact ((each u hu).reference (Sight.reference_of_element he)).elements he i hi
      exact .many rfl (fun i hi => .inr (typed i hi))
        (fun _ hprim i hi => (typed i hi).nonNull hprim) fun h => absurd rfl h

/-- Null is kept only where it is asked. -/
theorem held_kept {items : List Value} {x : String} {cond : Node} {ty : Ty}
    (h : Held isA s (.many items)) {kept : List (List Value)}
    (hkept : kept ∈ items.mapM fun v =>
      if v.isNull && !s.overlooks (.predicate x cond ty) then
        (pure [] : Attempt Access (List Value))
      else
        (fun verdict => if verdict.bool? = some true then [v] else []) <$>
          W.evaluate ((x, v) :: locals) cond) (more : Bool) :
    Held isA (s.after (.predicate x cond ty) more) (.many kept.flatten) := by
  cases h with
  | many streaming all nonNull primitive =>
    have each : ∀ v ∈ kept.flatten, v ∈ items ∧ (v.isNull = true → s.gaps = .hidden) := by
      intro v hv
      obtain ⟨vs, hvs, hv⟩ := List.mem_flatten.1 hv
      obtain ⟨i, hi, hvs⟩ := Attempt.mem_mapM hkept vs hvs
      split at hvs
      · rw [Attempt.mem_pure.1 hvs] at hv
        cases hv
      · rename_i asked
        obtain ⟨verdict, -, rfl⟩ := Attempt.mem_map.1 hvs
        split at hv
        · rw [List.mem_singleton.1 hv]
          refine ⟨hi, fun hnull => ?_⟩
          simp only [hnull, Sight.overlooks, streaming, Bool.true_and, Bool.not_eq_true',
            Bool.not_eq_false, beq_iff_eq] at asked
          exact asked
        · cases hv
    unfold Sight.after
    by_cases hgaps : s.gaps = .hidden
    · simp only [streaming, hgaps, bne_self_eq_false, Bool.and_false, Bool.false_eq_true, if_false]
      refine .many streaming (fun v hv => all v (each v hv).1) (fun h => ?_) primitive
      rw [hgaps] at h
      cases h
    · simp only [streaming, Bool.true_and, bne_iff_ne, ne_eq, hgaps, not_false_eq_true, if_true]
      refine .many rfl (fun v hv => all v (each v hv).1) (fun _ _ v hv => ?_)
        fun h => absurd rfl h
      exact Bool.eq_false_iff.2 fun hnull => hgaps ((each v hv).2 hnull)

/-- What a link leads to is in view behind it. -/
theorem held_advance (hW : W.WellTyped isA classes) {link : Link} (fit : LinkFit (Movable classes) s link)
    (more : Bool) {f f' : Focus} (h : Held isA s f)
    (hf' : f' ∈ f.advance W locals link more (s.overlooks link)) :
    Held isA (s.after link more) f' := by
  cases f with
  | one v =>
    cases hv : v.isNull with
    | true =>
      rw [advance_null hv, Attempt.mem_pure] at hf'
      rw [hf']
      exact .null
    | false =>
      have scalar := h.scalar hv
      cases fit with
      | step hmove =>
        rw [advance_step hv] at hf'
        obtain ⟨u, hu, rfl⟩ := Attempt.mem_map.1 hf'
        exact held_step hW hmove more h hv hu
      | predicate x cond =>
        rw [advance_predicate hv] at hf'
        obtain ⟨u, hu, rfl⟩ := Attempt.mem_map.1 hf'
        obtain ⟨verdict, -, hkeep⟩ := Attempt.mem_bind.1 hu
        rw [Sight.after_predicate_scalar scalar]
        unfold keep at hkeep
        split at hkeep
        · rw [Attempt.mem_pure.1 hkeep]
          exact h
        · rw [Attempt.mem_pure.1 hkeep]
          exact .null
        · exact absurd hkeep Attempt.not_mem_failed
      | reduce r helem =>
        rw [advance_reduce hv] at hf'
        rw [Attempt.mem_pure.1 hf']
        rw [scalar, if_neg (by decide)] at helem
        exact held_reduce hW h hv helem
  | many items =>
    cases fit with
    | step hmove =>
      obtain ⟨found, hfound, rfl⟩ := Attempt.mem_map.1 hf'
      exact held_steps hW hmove more h hfound
    | predicate x cond =>
      obtain ⟨kept, hkept, rfl⟩ := Attempt.mem_map.1 hf'
      exact held_kept h hkept more
    | reduce r helem =>
      rw [Attempt.mem_pure.1 hf']
      cases h with
      | many streaming all nonNull primitive =>
        rw [streaming, if_pos rfl] at helem
        subst helem
        exact held_collected hW all nonNull primitive

end Focus

end NavScript
