import NavScript.Proofs.Results

/-!
# Results that are rejected

A result of which the type does not convert to the declared one (`Converts`) is reported once, at its method.
Its body is left as it is, but for one thing (`rejected_result`): what was unboxed to be checked is taken out
of that unboxing again by its shape alone, so a value that was not unboxed and is an unboxing itself loses
it. A value is taken for an unboxed one unless it was rejected as a primitive to be boxed (`TakenBack`).
-/

namespace NavScript

variable {classes : ClassTable} {expected found found' : Ty} {value value' n m : Node} {span : Span}

namespace Returns

/-- A type converts without an unboxing: it is the expected one, a number that is widened, a primitive that
is boxed, or below the expected type. Two kinds of numbers convert by widening alone. -/
inductive Direct (classes : ClassTable) (found expected : Ty) : Prop
  | own (same : found.same expected = true)
  | widen {k k' : NumericKind} (number : NumericKind.ofTy? found = some k)
      (number' : NumericKind.ofTy? expected = some k') (wider : k.promote k' = k')
  | box (other : NumericKind.ofTy? found = none ∨ NumericKind.ofTy? expected = none)
      (primitive : found.isPrimitive = true) (reference : expected.isReference = true)
      (below : classes.isSubtype found.boxed expected = true)
  | below (other : NumericKind.ofTy? found = none ∨ NumericKind.ofTy? expected = none)
      (below : classes.isSubtype found expected = true)

/-- A type converts to the expected one: directly, as null, or as it is unboxed where a primitive is
expected. -/
inductive Converts (classes : ClassTable) (found expected : Ty) : Prop
  | direct (h : Direct classes found expected)
  | null (null : found = .null) (reference : expected.isReference = true)
  | unboxed {prim : Ty} (held : found.unboxed? = some prim) (primitive : expected.isPrimitive = true)
      (h : Direct classes prim expected)

/-- A value is rejected as a primitive that has to be boxed. -/
def RejectedBox (found expected : Ty) : Prop :=
  (NumericKind.ofTy? found = none ∨ NumericKind.ofTy? expected = none) ∧
    found.isPrimitive = true ∧ expected.isReference = true

instance : Decidable (RejectedBox found expected) := by unfold RejectedBox; infer_instance

/-- Below a reference there is no primitive. -/
theorem not_isSubtype_of_primitive (primitive : found.isPrimitive = true)
    (reference : expected.isReference = true) :
    classes.isSubtype found expected = false := by
  obtain ⟨p, rfl⟩ := Ty.exists_prim primitive
  cases expected <;> simp_all [ClassTable.isSubtype, Ty.isReference, Ty.isPrimitive, Ty.same]

/-- Two different kinds of numbers convert if the one is promoted to the other. -/
theorem direct_numbers {k k' : NumericKind} (unlike : ¬ found.same expected = true)
    (number : NumericKind.ofTy? found = some k) (number' : NumericKind.ofTy? expected = some k') :
    Direct classes found expected ↔ k.promote k' = k' := by
  have numbers : ¬ (NumericKind.ofTy? found = none ∨ NumericKind.ofTy? expected = none) := by
    simp [number, number']
  constructor
  · intro direct
    cases direct with
    | own same => exact absurd same unlike
    | widen left right wider =>
      obtain rfl := Option.some.inj (number.symm.trans left)
      obtain rfl := Option.some.inj (number'.symm.trans right)
      exact wider
    | box other => exact absurd other numbers
    | below other => exact absurd other numbers
  · exact .widen number number'

/-- Where one is not a number, a type converts to another one if its box or the type is below it. -/
theorem direct_others (unlike : ¬ found.same expected = true)
    (other : NumericKind.ofTy? found = none ∨ NumericKind.ofTy? expected = none) :
    Direct classes found expected ↔
      if found.isPrimitive = true ∧ expected.isReference = true then
        classes.isSubtype found.boxed expected = true
      else classes.isSubtype found expected = true := by
  constructor
  · intro direct
    cases direct with
    | own same => exact absurd same unlike
    | widen number number' => simp [number, number'] at other
    | box _ primitive reference below => rwa [if_pos ⟨primitive, reference⟩]
    | below _ below =>
      rwa [if_neg]
      rintro ⟨primitive, reference⟩
      rw [not_isSubtype_of_primitive primitive reference] at below
      cases below
  · split
    · rename_i boxing
      exact .box other boxing.1 boxing.2
    · exact .below other

/-- Once it is unboxed if need be, a value converts if its type does directly, and is rejected otherwise. -/
theorem convert_decided (classes : ClassTable) (unboxed : unboxFor expected found value = (value', found'))
    (later : ¬ (found.same expected || (found = .null && expected.isReference)) = true) :
    (Direct classes found' expected ∧ ∃ result, convert classes expected found value = .ok result) ∨
      (¬ Direct classes found' expected ∧ convert classes expected found value =
        .error (if RejectedBox found' expected then value' else beforeUnbox value')) := by
  unfold convert
  rw [if_neg later, unboxed]
  simp only
  by_cases same : found'.same expected = true
  · exact .inl ⟨.own same, value', if_pos same⟩
  rw [if_neg same]
  split
  · rename_i k k' number number'
    have numbers : ¬ RejectedBox found' expected := fun h => by simp [RejectedBox, number, number'] at h
    rw [direct_numbers same number number', if_neg numbers]
    by_cases wider : k.promote k' = k' <;> simp [wider]
  · rename_i unnumbered
    have other : NumericKind.ofTy? found' = none ∨ NumericKind.ofTy? expected = none := by
      cases number : NumericKind.ofTy? found' with
      | none => exact .inl rfl
      | some k => exact .inr (Option.eq_none_iff_forall_ne_some.2 fun k' => unnumbered k k' number)
    rw [direct_others same other]
    by_cases boxing : found'.isPrimitive = true ∧ expected.isReference = true
    · have box : RejectedBox found' expected := ⟨other, boxing⟩
      rw [if_pos boxing, if_pos box, boxing.1, boxing.2]
      by_cases below : classes.isSubtype found'.boxed expected = true <;> simp [below]
    · rw [if_neg boxing, if_neg fun h : RejectedBox found' expected => boxing h.2]
      rw [← Bool.and_eq_true, Bool.not_eq_true] at boxing
      by_cases below : classes.isSubtype found' expected = true <;> simp [below, boxing]

/-- No value of the type is unboxed to be checked. -/
def Unopened (found expected : Ty) : Prop := found.unboxed? = none ∨ expected.isReference = true

instance : Decidable (Unopened found expected) := by unfold Unopened; infer_instance

theorem unboxFor_unopened (h : Unopened found expected) (value : Node) :
    unboxFor expected found value = (value, found) := by
  obtain made | ⟨prim, held, primitive, -⟩ := unboxFor_cases expected found value
  · exact made
  · exact absurd h (by simp [Unopened, held, primitive, Ty.isReference])

theorem unboxFor_opened (h : ¬ Unopened found expected) (value : Node) :
    ∃ prim, found.unboxed? = some prim ∧ expected.isPrimitive = true ∧
      unboxFor expected found value = (.convertTo .unbox value prim, prim) := by
  obtain ⟨boxed, primitive⟩ := not_or.1 h
  obtain ⟨prim, held⟩ := Option.ne_none_iff_exists'.1 boxed
  have primitive : expected.isPrimitive = true := by simpa [Ty.isReference] using primitive
  exact ⟨prim, held, primitive, by simp [unboxFor, held, primitive]⟩

/-- A box does not convert to a primitive unless it is unboxed. -/
theorem not_direct_of_opened (h : ¬ Unopened found expected) : ¬ Direct classes found expected := by
  obtain ⟨prim, held, primitive, -⟩ := unboxFor_opened h default
  intro direct
  obtain ⟨p, rfl⟩ := Ty.exists_prim primitive
  have boxed : found.isPrimitive = false := by
    cases found <;> simp_all [Ty.unboxed?, Ty.isPrimitive]
  have unlike : ¬ found.same (.prim p) = true := by
    cases found <;> simp_all [Ty.unboxed?, Ty.same]
  cases direct with
  | own same => exact unlike same
  | widen number => simp [NumericKind.unboxed?_of_ofTy? number] at held
  | box _ primitive => simp [boxed] at primitive
  | below _ below => exact unlike (ClassTable.same_of_isSubtype_primitive rfl below)

/-- A rejected value is taken for one that was unboxed to be checked, though it was not. -/
def TakenBack (found expected : Ty) : Prop := Unopened found expected ∧ ¬ RejectedBox found expected

instance : Decidable (TakenBack found expected) := by unfold TakenBack; infer_instance

/-- What is left of a rejected value. -/
def rejected (found expected : Ty) (value : Node) : Node :=
  if TakenBack found expected then beforeUnbox value else value

/-- A value is accepted if its type converts, and rejected otherwise. -/
theorem convert_cases (classes : ClassTable) (found expected : Ty) (value : Node) :
    (Converts classes found expected ∧ ∃ result, convert classes expected found value = .ok result) ∨
      (¬ Converts classes found expected ∧
        convert classes expected found value = .error (rejected found expected value)) := by
  by_cases early : (found.same expected || (found = .null && expected.isReference)) = true
  · refine .inl ⟨?_, value, by unfold convert; rw [if_pos early]⟩
    obtain same | ⟨null, reference⟩ : found.same expected = true ∨ found = .null ∧
        expected.isReference = true := by simpa using early
    · exact .direct (.own same)
    · exact .null null reference
  have unlike : ¬ (found = .null ∧ expected.isReference = true) := fun h => early (by simp [h])
  by_cases closed : Unopened found expected
  · obtain ⟨direct, accepted⟩ | ⟨other, rejects⟩ :=
      convert_decided classes (unboxFor_unopened closed value) early
    · exact .inl ⟨.direct direct, accepted⟩
    · refine .inr ⟨fun converts => ?_, ?_⟩
      · cases converts with
        | direct direct => exact other direct
        | null null reference => exact unlike ⟨null, reference⟩
        | unboxed held primitive => simp [Unopened, held, primitive, Ty.isReference] at closed
      · rw [rejects, rejected]
        simp [TakenBack, closed]
  · obtain ⟨prim, held, primitive, unboxed⟩ := unboxFor_opened closed value
    obtain ⟨direct, accepted⟩ | ⟨other, rejects⟩ :=
      convert_decided classes unboxed early
    · exact .inl ⟨.unboxed held primitive direct, accepted⟩
    · refine .inr ⟨fun converts => ?_, ?_⟩
      · cases converts with
        | direct direct => exact not_direct_of_opened closed direct
        | null null reference => exact unlike ⟨null, reference⟩
        | unboxed held' _ direct =>
          obtain rfl := Option.some.inj (held.symm.trans held')
          exact other direct
      · rw [rejects, rejected, if_neg fun h : RejectedBox prim expected => ?_,
          if_neg fun h : TakenBack found expected => closed h.1]
        · rfl
        · simpa [Ty.isReference, primitive] using h.2.2

theorem beforeUnbox_eq_iff : beforeUnbox value = value ↔ ¬ ∃ e, value.kind = .convert .unbox e := by
  obtain ⟨span, ty, kind⟩ := value
  constructor
  · rintro same ⟨e, rfl⟩
    -- an operand is smaller than its unboxing
    have smaller := congrArg sizeOf (show e = ⟨span, ty, .convert .unbox e⟩ from same)
    simp at smaller
    omega
  · intro other
    unfold beforeUnbox
    split
    · rename_i e unboxing
      exact absurd ⟨e, unboxing⟩ other
    · rfl

theorem rejected_eq_iff : rejected found expected value = value ↔
    ¬ (TakenBack found expected ∧ ∃ e, value.kind = .convert .unbox e) := by
  unfold rejected
  split
  · rename_i back
    rw [beforeUnbox_eq_iff]
    simp [back]
  · rename_i kept
    simp [kept]

theorem checkBody_rejected {method : String} {before : List Node} {last : Node} (typed : last.ty = some found)
    (unlike : ¬ Converts classes found expected) :
    checkBody classes span method expected (before ++ [last]) =
      (before ++ [rejected found expected last],
        [.returnMismatch method expected found (rejected found expected last).span]) := by
  obtain ⟨converts, -⟩ | ⟨-, made⟩ := convert_cases classes found expected last
  · exact absurd converts unlike
  · simp [checkBody, typed, made]

/-- Under conversions there are the same nodes, but for conversions. -/
theorem mem_nodes_converted {x : Node} (other : x.label ≠ "Convert") (h : Converted n m) :
    x ∈ m.nodes ↔ x ∈ n.nodes := by
  induction h with
  | refl => rfl
  | convert _ span ty c ih =>
    rw [Node.nodes_mk, List.mem_cons, or_iff_right fun same => other (by rw [same]; rfl)]
    simpa [Kind.children] using ih

/-- So there are in a value that is accepted or rejected. -/
theorem mem_nodes_convert {x : Node} (other : x.label ≠ "Convert")
    (h : convert classes expected found value = .ok n ∨ convert classes expected found value = .error n) :
    x ∈ n.nodes ↔ x ∈ value.nodes := by
  have unboxed := mem_nodes_converted other (unboxFor_converted expected found value)
  obtain rfl | rfl | rfl | ⟨c, t, rfl⟩ := convert_made h
  · rfl
  · exact unboxed
  · rw [← mem_nodes_converted other (beforeUnbox_converted _), unboxed]
  · rw [mem_nodes_converted other (Converted.refl.convertTo ..), unboxed]

theorem mem_nodes_checkBody {method : String} {body : List Node} {c x : Node} (other : x.label ≠ "Convert")
    (hc : c ∈ body) (hx : x ∈ c.nodes) :
    ∃ c' ∈ (checkBody classes span method expected body).1, x ∈ c'.nodes := by
  obtain ⟨rfl, -⟩ | ⟨before, last, value, rfl, made, result⟩ :=
    checkBody_made classes span method expected body
  · cases hc
  · rw [made]
    obtain hc | hc := List.mem_append.1 hc
    · exact ⟨c, List.mem_append_left _ hc, hx⟩
    · obtain rfl := List.mem_singleton.1 hc
      refine ⟨value, by simp, ?_⟩
      obtain ⟨-, rfl⟩ | ⟨found, -, result⟩ := result
      · exact hx
      · exact (mem_nodes_convert other result).2 hx

/-- The check of a node keeps all that is below it, but for conversions. -/
theorem mem_nodes_returned {c x : Node} (other : x.label ≠ "Convert") (hc : c ∈ n.kind.children)
    (hx : x ∈ c.nodes) : x ∈ (returned classes n).nodes := by
  have below : ∃ c' ∈ (returned classes n).kind.children, x ∈ c'.nodes := by
    obtain ⟨span, ty, kind⟩ := n
    cases kind
    case methodDecl d =>
      show ∃ c' ∈ (checkDecl classes span d).1.body, x ∈ c'.nodes
      by_cases checked : ∃ expected, d.returnTy = some expected ∧ expected.isVoid = false
      · obtain ⟨expected, declared, notVoid⟩ := checked
        rw [checkDecl_declared declared notVoid]
        exact mem_nodes_checkBody other hc hx
      · rw [checkDecl_open (by simpa using checked)]
        exact ⟨c, hc, hx⟩
    all_goals exact ⟨c, hc, hx⟩
  obtain ⟨c', hc', hx⟩ := below
  exact Node.mem_nodes_of_child hc' hx

end Returns

/-- The body of a method is checked first, then its result. -/
theorem checkReturns_methodDecl (cx : Context) (span : Span) (ty : Option Ty) (d : Method Node) :
    checkReturns cx ⟨span, ty, .methodDecl d⟩ =
      let made := Returns.checkDecl cx.classes span
        { d with body := d.body.map fun c => (checkReturns cx c).1 }
      (⟨span, ty, .methodDecl made.1⟩, d.body.flatMap (fun c => (checkReturns cx c).2) ++ made.2) := by
  simp only [checkReturns_met, Node.transform_mk, Node.met_mk, Kind.map, Kind.children,
    List.flatMap_append, List.flatMap_assoc, List.flatMap_singleton]
  rfl

/-- The result of a method, anywhere in a tree, that does not convert to the declared type is reported once,
behind what is reported inside the method, with its type and its region. The method keeps its body; of an
unboxing that is taken for one that was put there to check the value only the operand is left, and it is
the operand's region that is reported. -/
theorem rejected_result {cx : Context} {root : Node} {d : Method Node} {before : List Node} {last : Node}
    (declares : n ∈ root.nodes) (method : n.kind = .methodDecl d) (declared : d.returnTy = some expected)
    (notVoid : expected.isVoid = false)
    (body : d.body.map (fun c => (checkReturns cx c).1) = before ++ [last]) (typed : last.ty = some found)
    (unlike : ¬ Returns.Converts cx.classes found expected) :
    let value := Returns.rejected found expected last
    let checked : Node := ⟨n.span, n.ty, .methodDecl { d with body := before ++ [value] }⟩
    let reported := d.body.flatMap (fun c => (checkReturns cx c).2) ++
      [.returnMismatch d.name expected found value.span]
    checkReturns cx n = (checked, reported) ∧
      checked ∈ (checkReturns cx root).1.nodes ∧ reported <:+: (checkReturns cx root).2 ∧
      (value = last ↔ ¬ (Returns.TakenBack found expected ∧ ∃ e, last.kind = .convert .unbox e)) := by
  intro value checked reported
  obtain ⟨span, ty, kind⟩ := n
  subst method
  have made : checkReturns cx ⟨span, ty, .methodDecl d⟩ = (checked, reported) := by
    rw [checkReturns_methodDecl, body, Returns.checkDecl_declared (d := { d with body := before ++ [last] })
      declared notVoid]
    simp only [Returns.checkBody_rejected typed unlike]
    rfl
  refine ⟨made, ?_, ?_, Returns.rejected_eq_iff⟩
  · rw [checkReturns_met] at made ⊢
    rw [← (Prod.mk.inj made).1]
    refine Node.transform_mem_nodes (P := fun x => x.label ≠ "Convert") ?_ declares ?_
    · exact fun m x other c hc hx => Returns.mem_nodes_returned other hc hx
    · rw [(Prod.mk.inj made).1]
      simp [checked, Node.label, Kind.label]
  · rw [checkReturns_met] at made ⊢
    rw [← (Prod.mk.inj made).2]
    obtain ⟨front, rest, split⟩ := Node.met_infix (f := returned cx.classes) declares
    exact ⟨front.flatMap (reports cx.classes), rest.flatMap (reports cx.classes), by
      simp only [← split, List.flatMap_append]⟩

/-- A method that returns a long as an int. -/
def narrowOf (value : Node) : Node :=
  .ofKind (.methodDecl ⟨"narrow", [], some (.prim .int), [value]⟩)

/-- A boxed long is unboxed to be checked, and stays as it was written when it is rejected. -/
theorem rejected_result_boxed :
    let long := Node.localOf "n" (.ofClass "Long")
    let root := Node.ofKind (.script [oneOf, narrowOf long])
    narrowOf long ∈ root.nodes ∧ ¬ Returns.Converts bareContext.classes (.ofClass "Long") (.prim .int) ∧
      checkReturns bareContext (narrowOf long) =
        (narrowOf long, [.returnMismatch "narrow" (.prim .int) (.ofClass "Long") {}]) ∧
      narrowOf long ∈ (checkReturns bareContext root).1.nodes := by
  intro long root
  have inside : narrowOf long ∈ root.nodes := by
    refine Node.mem_nodes_of_child (c := narrowOf long) ?_ (Node.mem_nodes_self _)
    simp [root, Node.ofKind, Kind.children]
  have unlike : ¬ Returns.Converts bareContext.classes (.ofClass "Long") (.prim .int) := by
    obtain ⟨-, accepted, made⟩ | ⟨unlike, -⟩ :=
      Returns.convert_cases bareContext.classes (.ofClass "Long") (.prim .int) long
    · cases made
    · exact unlike
  have body : [long].map (fun c => (checkReturns bareContext c).1) = [] ++ [long] := rfl
  obtain ⟨made, kept, -, -⟩ := rejected_result inside rfl rfl rfl body rfl unlike
  exact ⟨inside, unlike, made, kept⟩

/-- An unboxing that was written is taken for one put there by the check: the method loses it, and the
region reported is that of the operand. -/
theorem rejected_result_unboxed :
    let long := (Node.localOf "n" (.ofClass "Long")).withSpan
      { start := ⟨1, 8⟩, stop := ⟨1, 9⟩, offset := 7, len := 1 }
    let last := (Node.convertTo .unbox long (.prim .long)).withSpan
      { start := ⟨1, 1⟩, stop := ⟨1, 9⟩, len := 8 }
    ¬ Returns.Converts bareContext.classes (.prim .long) (.prim .int) ∧
      checkReturns bareContext (narrowOf last) =
        (narrowOf long, [.returnMismatch "narrow" (.prim .int) (.prim .long) long.span]) ∧
      narrowOf long ≠ narrowOf last ∧ long.span ≠ last.span := by
  intro long last
  refine ⟨?_, rfl, ?_, by decide⟩
  · obtain ⟨-, accepted, made⟩ | ⟨unlike, -⟩ :=
      Returns.convert_cases bareContext.classes (.prim .long) (.prim .int) last
    · cases made
    · exact unlike
  · simp [narrowOf, last, long, Node.ofKind, Node.withSpan, Node.localOf, Node.convertTo]

end NavScript
