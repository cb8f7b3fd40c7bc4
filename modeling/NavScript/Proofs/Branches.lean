import NavScript.Proofs.Alarms
import NavScript.Proofs.Compatible
import NavScript.Proofs.Linearization

/-!
# Branches of a conditional

Widening gives a conditional over typed branches the type in which they meet (`branchTy`), and both
branches fit it (`conditional_fits`). The order of the branches shows in one case (`branchTy_comm_iff`):
type arguments do not count in subtyping, so two boxed types can be below each other and still differ. The
conditional has the type of the second branch then. Where nothing is above itself such types are filed
under one key (`key_eq_of_isSubtype`).
-/

namespace NavScript

namespace ClassTable

variable {t : ClassTable} {a b : Ty}

theorem isSubtype_of_same (t : ClassTable) (h : a.same b = true) : t.isSubtype a b = true := by
  cases a
  case array elem =>
    cases b
    case array elem' => simp [isSubtype, h]
    all_goals cases h
  case null =>
    cases b
    case null => rfl
    all_goals cases h
  all_goals simp [isSubtype, h]

theorem isSubtype_refl (t : ClassTable) (a : Ty) : t.isSubtype a a = true :=
  t.isSubtype_of_same a.same_refl

theorem null_isSubtype (t : ClassTable) (h : a.isReference = true) : t.isSubtype .null a = true := by
  simpa [isSubtype] using h

/-- Every reference type but that of null is below `Object`. -/
theorem isSubtype_object (ht : t.SupersNamed) (acyclic : t.Acyclic a) (reference : a.isReference = true)
    (some_value : a ≠ .null) : t.isSubtype a .object = true := by
  have listed : (t.walk a).any (·.key == Ty.object.key) = true := by
    have first := walk_first ht acyclic reference some_value
    obtain ⟨top, htop, hkey⟩ := Option.map_eq_some_iff.1 first
    exact List.any_eq_true.2 ⟨top, List.mem_of_head? htop, by simp [hkey]⟩
  have plain : (a.same .object ||
      (a.isReference && Ty.object.isReference && (t.walk a).any (·.key == Ty.object.key))) = true := by
    rw [reference, listed]
    simp [Ty.object, Ty.ofClass, Ty.isReference, Ty.isPrimitive]
  cases a
  case null => exact absurd rfl some_value
  all_goals exact plain

/-- What is strictly above a type is strictly above every named type with its key. -/
theorem StrictlyAbove.of_key (ha : a.Named) (hb : b.Named) (h : a.key = b.key) {p : Ty}
    (above : t.StrictlyAbove a p) : t.StrictlyAbove b p := by
  obtain ⟨x, hx, rest⟩ := Relation.TransGen.head'_iff.1 above
  rw [supers_key ha, h, ← supers_key hb] at hx
  exact Relation.TransGen.head'_iff.2 ⟨x, hx, rest⟩

/-- What is strictly above a type is named. -/
theorem StrictlyAbove.named (ht : t.SupersNamed) {p : Ty} (above : t.StrictlyAbove a p) : p.Named := by
  obtain ⟨x, -, hp⟩ := Relation.TransGen.tail'_iff.1 above
  exact ht.supers_all x p hp

theorem StrictlyAbove.key_ne_object {p : Ty} (above : t.StrictlyAbove a p) :
    a.key ≠ Ty.object.key := by
  intro hkey
  by_cases named : a.Named
  · obtain ⟨x, hx, -⟩ := Relation.TransGen.head'_iff.1 above
    rw [supers_key named, hkey] at hx
    cases hx
  · cases a
    case prim k => cases k <;> exact absurd hkey (by decide)
    case named | app => all_goals exact named rfl
    all_goals simp [Ty.key, Ty.object, Ty.ofClass] at hkey

/-- Where nothing is above itself, types that are below each other are filed under one key. -/
theorem key_eq_of_isSubtype (ht : t.SupersNamed) (acyclic : t.Acyclic a) (ha : a ≠ .null)
    (hb : b ≠ .null) (hab : t.isSubtype a b = true) (hba : t.isSubtype b a = true) :
    a.key = b.key := by
  by_contra hne
  obtain ⟨q, above, hq⟩ := strictlyAbove_of_proper ht ha ⟨hab, hne⟩
  obtain ⟨r, above', hr⟩ := strictlyAbove_of_proper ht hb ⟨hba, Ne.symm hne⟩
  by_cases named : b.Named
  · -- from the type above `a` with the key of `b` the way back to the key of `a` is open
    exact acyclic a .refl r (above.trans (above'.of_key named (above.named ht) hq.symm)) hr
  · rcases above_unnamed named above'.to_reflTransGen with rfl | ⟨rfl, -⟩
    · exact hne hr.symm
    · exact above.key_ne_object hr.symm

end ClassTable

theorem Ty.boxed_ne_null {ty : Ty} (h : ty ≠ .null) : ty.boxed ≠ .null := by
  cases ty
  case null => exact h
  all_goals simp [Ty.boxed, Ty.ofClass]

namespace ClassTable

variable {t : ClassTable} {a b : Ty}

/-- Two types whose boxes differ, and are below each other all the same. -/
structure Interchangeable (t : ClassTable) (a b : Ty) : Prop where
  left : a ≠ .null
  right : b ≠ .null
  other : a.boxed.same b.boxed = false
  below : t.isSubtype a.boxed b.boxed = true
  above : t.isSubtype b.boxed a.boxed = true

theorem Interchangeable.symm (h : t.Interchangeable a b) : t.Interchangeable b a :=
  ⟨h.right, h.left, Ty.same_comm a.boxed b.boxed ▸ h.other, h.above, h.below⟩

theorem Interchangeable.same_eq_false (h : t.Interchangeable a b) : a.same b = false := by
  by_contra same
  exact absurd (Ty.same_boxed (by simpa using same)) (by simp [h.other])

theorem Interchangeable.key_eq (ht : t.SupersNamed) (acyclic : t.Acyclic a.boxed)
    (h : t.Interchangeable a b) : a.boxed.key = b.boxed.key :=
  key_eq_of_isSubtype ht acyclic (Ty.boxed_ne_null h.left) (Ty.boxed_ne_null h.right) h.below h.above

end ClassTable

/-- The node has a type, and values of that type fit another. -/
def Node.Fits (classes : ClassTable) (ty : Ty) (n : Node) : Prop :=
  ∃ u, n.ty = some u ∧ classes.isSubtype u ty = true

namespace NumericKind

variable {ty left right : Ty} {kind k : NumericKind}

theorem same_of_ofTy? (h : ofTy? ty = some kind) : ty.same kind.ty = true := by
  cases ty
  case prim p =>
    cases p <;> cases h <;> exact Ty.same_refl _
  case named c =>
    simp only [ofTy?, beq_iff_eq] at h
    split at h
    · rename_i hname
      obtain rfl := Option.some.inj h
      simp [NumericKind.ty, Ty.ofClass, Ty.same, hname]
    · split at h
      · rename_i hname
        obtain rfl := Option.some.inj h
        simp [NumericKind.ty, Ty.ofClass, Ty.same, hname]
      · cases h
  all_goals cases h

/-- A number is boxed into a class, which its key tells from others. -/
theorem boxed_same_of_key (hl : (ofTy? left).isSome) (hr : (ofTy? right).isSome)
    (h : left.boxed.key = right.boxed.key) : left.boxed.same right.boxed = true := by
  have named {ty : Ty} (number : (ofTy? ty).isSome) : ∃ c, ty.boxed = .named c := by
    cases ty
    case prim | named => all_goals exact ⟨_, rfl⟩
    all_goals cases number
  obtain ⟨c, hc⟩ := named hl
  obtain ⟨d, hd⟩ := named hr
  rw [hc, hd] at h ⊢
  exact beq_iff_eq.2 h

end NumericKind

namespace Widening

variable {classes : ClassTable} {left right : Ty}

/-- The type of a conditional over typed branches. -/
def branchTy (classes : ClassTable) (left right : Ty) : Ty :=
  if left.same right then left
  else
    match NumericKind.ofTy? left, NumericKind.ofTy? right with
    | some l, some r => (l.promote r).ty
    | _, _ => commonTy classes left right

theorem branchTy_of_same (classes : ClassTable) (h : left.same right = true) :
    branchTy classes left right = left := by
  unfold branchTy
  rw [if_pos h]

theorem branchTy_of_numbers {l r : NumericKind} (classes : ClassTable) (h : left.same right = false)
    (hl : NumericKind.ofTy? left = some l) (hr : NumericKind.ofTy? right = some r) :
    branchTy classes left right = (l.promote r).ty := by
  unfold branchTy
  simp [h, hl, hr]

theorem branchTy_of_other (classes : ClassTable) (h : left.same right = false)
    (other : ¬ ((NumericKind.ofTy? left).isSome ∧ (NumericKind.ofTy? right).isSome)) :
    branchTy classes left right = commonTy classes left right := by
  unfold branchTy
  rw [if_neg (by simp [h])]
  cases hl : NumericKind.ofTy? left with
  | none => rfl
  | some l =>
    cases hr : NumericKind.ofTy? right with
    | none => rfl
    | some r => exact absurd ⟨by simp [hl], by simp [hr]⟩ other

theorem commonTy_of_interchangeable (h : classes.Interchangeable left right) :
    commonTy classes left right = right.boxed := by
  unfold commonTy
  rw [if_neg h.left, if_neg h.right, if_pos h.below]

theorem commonTy_comm_iff : (commonTy classes left right).same (commonTy classes right left) = true ↔
    ¬ classes.Interchangeable left right := by
  by_cases hl : left = .null
  · refine iff_of_true ?_ fun h => h.left hl
    subst hl
    by_cases hr : right = .null
    · rw [hr]
      exact Ty.same_refl _
    · simpa [commonTy, hr] using Ty.same_refl _
  · by_cases hr : right = .null
    · refine iff_of_true ?_ fun h => h.right hr
      simpa [commonTy, hl, hr] using Ty.same_refl _
    · have plain (a b : Ty) (ha : a ≠ .null) (hb : b ≠ .null) : commonTy classes a b =
          if classes.isSubtype a.boxed b.boxed then b.boxed
          else if classes.isSubtype b.boxed a.boxed then a.boxed else .object := by
        simp [commonTy, ha, hb]
      rw [plain left right hl hr, plain right left hr hl]
      by_cases both : classes.isSubtype left.boxed right.boxed = true ∧
          classes.isSubtype right.boxed left.boxed = true
      · rw [if_pos both.1, if_pos both.2, Ty.same_comm]
        refine ⟨fun same h => ?_, fun h => ?_⟩
        · exact absurd same (by simp [h.other])
        · by_contra other
          exact h ⟨hl, hr, by simpa using other, both.1, both.2⟩
      · refine iff_of_true ?_ fun h => both ⟨h.below, h.above⟩
        cases below : classes.isSubtype left.boxed right.boxed <;>
          cases above : classes.isSubtype right.boxed left.boxed
        case true.true => exact absurd ⟨below, above⟩ both
        all_goals exact Ty.same_refl _

/-- Interchangeable types are not both numbers: numbers are told apart by their keys. -/
theorem not_numbers_of_interchangeable (ht : classes.SupersNamed) (acyclic : classes.Acyclic left.boxed)
    (h : classes.Interchangeable left right) :
    ¬ ((NumericKind.ofTy? left).isSome ∧ (NumericKind.ofTy? right).isSome) := by
  rintro ⟨number, number'⟩
  have alike := NumericKind.boxed_same_of_key number number' (h.key_eq ht acyclic)
  exact absurd alike (by simp [h.other])

theorem branchTy_of_interchangeable (ht : classes.SupersNamed) (acyclic : classes.Acyclic left.boxed)
    (h : classes.Interchangeable left right) : branchTy classes left right = right.boxed := by
  rw [branchTy_of_other classes h.same_eq_false (not_numbers_of_interchangeable ht acyclic h),
    commonTy_of_interchangeable h]

/-- The order of the branches shows exactly where they are interchangeable. -/
theorem branchTy_comm_iff (ht : classes.SupersNamed) (acyclic : classes.Acyclic left.boxed) :
    (branchTy classes left right).same (branchTy classes right left) = true ↔
      ¬ classes.Interchangeable left right := by
  cases same : left.same right with
  | true =>
    rw [branchTy_of_same classes same, branchTy_of_same classes (Ty.same_comm left right ▸ same)]
    exact iff_of_true same fun h => absurd same (by simp [h.same_eq_false])
  | false =>
    have same' : right.same left = false := Ty.same_comm left right ▸ same
    by_cases numbers : (NumericKind.ofTy? left).isSome ∧ (NumericKind.ofTy? right).isSome
    · obtain ⟨l, hl⟩ := Option.isSome_iff_exists.1 numbers.1
      obtain ⟨r, hr⟩ := Option.isSome_iff_exists.1 numbers.2
      rw [branchTy_of_numbers classes same hl hr, branchTy_of_numbers classes same' hr hl,
        NumericKind.promote_comm]
      exact iff_of_true (Ty.same_refl _) fun h => not_numbers_of_interchangeable ht acyclic h numbers
    · rw [branchTy_of_other classes same numbers,
        branchTy_of_other classes same' fun h => numbers h.symm]
      exact commonTy_comm_iff

theorem commonTy_fits (ht : classes.SupersNamed) (hl : classes.Acyclic left.boxed)
    (hr : classes.Acyclic right.boxed) :
    classes.isSubtype left.boxed (commonTy classes left right) = true ∧
      classes.isSubtype right.boxed (commonTy classes left right) = true := by
  unfold commonTy
  split
  · rename_i null
    rw [null]
    exact ⟨classes.null_isSubtype right.boxed_isReference, classes.isSubtype_refl _⟩
  · rename_i some_left
    split
    · rename_i null
      rw [null]
      exact ⟨classes.isSubtype_refl _, classes.null_isSubtype left.boxed_isReference⟩
    · rename_i some_right
      split
      · rename_i below
        exact ⟨below, classes.isSubtype_refl _⟩
      · split
        · rename_i above
          exact ⟨classes.isSubtype_refl _, above⟩
        · exact ⟨ClassTable.isSubtype_object ht hl left.boxed_isReference (Ty.boxed_ne_null some_left),
            ClassTable.isSubtype_object ht hr right.boxed_isReference (Ty.boxed_ne_null some_right)⟩

/-- A conditional over typed branches has the type in which they meet, and its branches, converted, fit
that type. -/
theorem conditional_fits (ht : classes.SupersNamed) (acyclicl : classes.Acyclic left.boxed)
    (acyclicr : classes.Acyclic right.boxed) {c t e : Node} (span : Span) (hl : t.ty = some left)
    (hr : e.ty = some right) :
    ∃ t' e', conditional classes span c t e =
        ⟨span, some (branchTy classes left right), .conditional c t' e'⟩ ∧
      Converted t t' ∧ Converted e e' ∧
      Node.Fits classes (branchTy classes left right) t' ∧ Node.Fits classes (branchTy classes left right) e' := by
  unfold conditional
  simp only [hl, hr]
  cases same : left.same right with
  | true =>
    rw [branchTy_of_same classes same]
    exact ⟨t, e, rfl, .refl, .refl, ⟨left, hl, classes.isSubtype_refl left⟩, right, hr,
      classes.isSubtype_of_same (Ty.same_comm left right ▸ same)⟩
  | false =>
    simp only [Bool.false_eq_true, if_false]
    by_cases numbers : (NumericKind.ofTy? left).isSome ∧ (NumericKind.ofTy? right).isSome
    · obtain ⟨l, hl'⟩ := Option.isSome_iff_exists.1 numbers.1
      obtain ⟨r, hr'⟩ := Option.isSome_iff_exists.1 numbers.2
      rw [branchTy_of_numbers classes same hl' hr']
      simp only [hl', hr']
      have fits {n : Node} {ty : Ty} {k : NumericKind} (typed : n.ty = some ty)
          (number : NumericKind.ofTy? ty = some k) :
          Node.Fits classes (l.promote r).ty (bringTo n (l.promote r)) := by
        obtain ⟨u, hu, kind⟩ :=
          ofKind_bringTo typed (NumericKind.ofOperand?_of_ofTy? number) (l.promote r)
        exact ⟨u, hu, classes.isSubtype_of_same (NumericKind.same_of_ofTy? kind)⟩
      exact ⟨_, _, rfl, bringTo_converted .., bringTo_converted .., fits hl hl', fits hr hr'⟩
    · obtain ⟨fits, fits'⟩ := commonTy_fits ht acyclicl acyclicr
      have boxes {n : Node} {ty : Ty} (typed : n.ty = some ty) :
          (boxedFor n (commonTy classes left right)).ty = some ty.boxed := by
        unfold boxedFor
        rw [if_pos (commonTy_reference ..), Node.ty_boxed typed]
      rw [branchTy_of_other classes same numbers]
      refine ⟨boxedFor t (commonTy classes left right), boxedFor e (commonTy classes left right), ?_,
        boxedFor_converted .., boxedFor_converted .., ⟨_, boxes hl, fits⟩, _, boxes hr, fits'⟩
      cases hl' : NumericKind.ofTy? left with
      | none => rfl
      | some l =>
        cases hr' : NumericKind.ofTy? right with
        | none => rfl
        | some r => exact absurd ⟨by simp [hl'], by simp [hr']⟩ numbers

end Widening

/-- What has a type has one behind widening. -/
theorem widened_typed (cx : Context) {n : Node} (typed : n.ty.isSome) : (widenNumbers cx n).ty.isSome := by
  obtain ⟨span, ty, kind⟩ := n
  obtain ⟨ty, rfl⟩ := Option.isSome_iff_exists.1 typed
  unfold widenNumbers
  rw [Node.transform_mk]
  cases kind
  case binary op lhs rhs =>
    show (Widening.binary cx.config.foldLiterals span (some ty) op _ _).ty.isSome
    obtain same | ⟨result, -, other⟩ := binary_ty cx.config.foldLiterals span (some ty) op
      (lhs.transform (Widening.step cx)) (rhs.transform (Widening.step cx))
    · rw [same]
      rfl
    · rw [other]
      rfl
  all_goals rfl

theorem widened_conditional (cx : Context) (span : Span) (c t e : Node) :
    widenNumbers cx ⟨span, none, .conditional c t e⟩ = Widening.conditional cx.classes span
      (widenNumbers cx c) (widenNumbers cx t) (widenNumbers cx e) := by
  unfold widenNumbers
  rw [Node.transform_mk]
  rfl

/-- Over named supertypes of which none is above itself, widening gives a conditional over typed branches
a type that both branches fit. With its branches swapped it gets the same type, unless the boxed types of
the branches differ and are below each other: then they are filed under one key, and the conditional has
that of its second branch. -/
theorem branches_meet {cx : Context} (ht : cx.classes.SupersNamed) (acyclic : ∀ ty, cx.classes.Acyclic ty)
    (span : Span) (c : Node) {t e : Node} (hl : t.ty.isSome) (hr : e.ty.isSome) :
    ∃ left right ty swapped t' e',
      (widenNumbers cx t).ty = some left ∧ (widenNumbers cx e).ty = some right ∧
      widenNumbers cx ⟨span, none, .conditional c t e⟩ =
        ⟨span, some ty, .conditional (widenNumbers cx c) t' e'⟩ ∧
      (widenNumbers cx ⟨span, none, .conditional c e t⟩).ty = some swapped ∧
      (ty.same swapped = true ↔ ¬ cx.classes.Interchangeable left right) ∧
      (cx.classes.Interchangeable left right →
        ty = right.boxed ∧ swapped = left.boxed ∧ left.boxed.key = right.boxed.key) ∧
      Converted (widenNumbers cx t) t' ∧ Converted (widenNumbers cx e) e' ∧
      Node.Fits cx.classes ty t' ∧ Node.Fits cx.classes ty e' := by
  obtain ⟨left, hleft⟩ := Option.isSome_iff_exists.1 (widened_typed cx hl)
  obtain ⟨right, hright⟩ := Option.isSome_iff_exists.1 (widened_typed cx hr)
  obtain ⟨t', e', made, converted, converted', fits, fits'⟩ := Widening.conditional_fits ht
    (acyclic _) (acyclic _) (c := widenNumbers cx c) span hleft hright
  obtain ⟨_, _, swapped, -⟩ := Widening.conditional_fits ht
    (acyclic _) (acyclic _) (c := widenNumbers cx c) span hright hleft
  refine ⟨left, right, _, Widening.branchTy cx.classes right left, t', e', hleft, hright,
    (widened_conditional ..).trans made, ?_, Widening.branchTy_comm_iff ht (acyclic _), fun h => ?_,
    converted, converted', fits, fits'⟩
  · rw [widened_conditional, swapped]
  · exact ⟨Widening.branchTy_of_interchangeable ht (acyclic _) h,
      Widening.branchTy_of_interchangeable ht (acyclic _) h.symm, h.key_eq ht (acyclic _)⟩

theorem ClassTable.builtin_named : ClassTable.builtin.SupersNamed := by
  have named : ∀ d ∈ ClassTable.builtin.classes, (d.superclass.all (·.className?.isSome)) = true ∧
      ∀ i ∈ d.interfaces, i.className?.isSome = true := by decide
  intro d hd
  obtain ⟨superclass, interfaces⟩ := named d hd
  refine ⟨fun s hs => ?_, interfaces⟩
  rw [hs] at superclass
  exact superclass

/-- The classes every script can use are ranked by those that others extend. -/
theorem ClassTable.builtin_acyclic (ty : Ty) : ClassTable.builtin.Acyclic ty := by
  refine acyclic_of_ranks builtin_named
    (["Object", "Comparable", "CharSequence", "Number", "Iterable", "Collection"].idxOf ·)
    (fun key h => ?_) (by decide) ty
  have other : "Object" ≠ key := Ne.symm h
  simp [Ty.key, Ty.object, Ty.ofClass, List.idxOf_cons, other]

/-- A choice between two locals of the given types. -/
def choiceOf (left right : Ty) : Node :=
  .ofKind (.conditional (.ofLiteral (.bool true)) (.localOf "a" left) (.localOf "b" right))

/-- An int and a number meet in the class of numbers. -/
theorem branches_meet_int_number :
    (bareContext.classes.SupersNamed ∧ ∀ ty, bareContext.classes.Acyclic ty) ∧
      ∃ t' e', widenNumbers bareContext (choiceOf (.prim .int) (.ofClass "Number")) =
          ⟨.synthetic, some (.ofClass "Number"), .conditional (.ofLiteral (.bool true)) t' e'⟩ ∧
        t'.ty = some (.ofClass "Integer") ∧
        Node.Fits bareContext.classes (.ofClass "Number") t' ∧
        Node.Fits bareContext.classes (.ofClass "Number") e' := by
  refine ⟨⟨ClassTable.builtin_named, ClassTable.builtin_acyclic⟩, ?_⟩
  obtain ⟨-, -, ty, -, t', e', -, -, made, -, -, -, -, -, fits, fits'⟩ :=
    @branches_meet bareContext ClassTable.builtin_named ClassTable.builtin_acyclic .synthetic
      (.ofLiteral (.bool true)) (.localOf "a" (.prim .int)) (.localOf "b" (.ofClass "Number")) rfl rfl
  have computed : widenNumbers bareContext (choiceOf (.prim .int) (.ofClass "Number")) =
      ⟨.synthetic, some (.ofClass "Number"), .conditional (.ofLiteral (.bool true))
        (Node.localOf "a" (.prim .int)).boxed (.localOf "b" (.ofClass "Number"))⟩ := rfl
  have same := made.symm.trans computed
  injection same with _ hty hkind
  injection hkind with _ ht' he'
  obtain rfl := Option.some.inj hty
  exact ⟨t', e', made, ht' ▸ rfl, fits, fits'⟩

/-- A list of texts and a list of integers meet in the type of the second branch, in either order. -/
theorem branches_order_lists :
    let texts := Ty.generic "List" .string
    let integers := Ty.generic "List" (.ofClass "Integer")
    (bareContext.classes.SupersNamed ∧ ∀ ty, bareContext.classes.Acyclic ty) ∧
      (widenNumbers bareContext (choiceOf texts integers)).ty = some integers ∧
      (widenNumbers bareContext (choiceOf integers texts)).ty = some texts ∧
      integers.same texts = false :=
  ⟨⟨ClassTable.builtin_named, ClassTable.builtin_acyclic⟩, rfl, rfl, rfl⟩

end NavScript
