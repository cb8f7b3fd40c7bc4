import NavScript.Proofs.Branches

/-!
# Results that are accepted

Where the check of results reports nothing, each declared result is met by the last node of its body, and
checking once more changes nothing (`accepted_results`). `Accepts` says in which ways a value is accepted:
as it is, or under a conversion that is lawful (`Conversion.Lawful`). Each of them leaves a value that is
accepted as it is (`convert_again`), which passes from the value to the body, the method and, the inner
methods first, to the tree (`Stable`).
-/

namespace NavScript

variable {classes : ClassTable} {expected found ty : Ty} {value value' n m : Node} {span : Span}

/-- A primitive goes to its box, a box to its primitive, and a number to a kind that is promoted to itself
beside the kind of the number. -/
inductive Conversion.Lawful : Conversion → Ty → Ty → Prop
  | box (p : Prim) : Lawful .box (.prim p) (Ty.prim p).boxed
  | unbox {found prim : Ty} (held : found.unboxed? = some prim) : Lawful .unbox found prim
  | widen {found ty : Ty} {k k' : NumericKind} (number : NumericKind.ofTy? found = some k)
      (number' : NumericKind.ofTy? ty = some k') (wider : k.promote k' = k') : Lawful .widen found ty

/-- A value under lawful conversions. -/
inductive Coerced (n : Node) : Node → Prop
  | refl : Coerced n n
  | convert {m : Node} {c : Conversion} {found ty : Ty} (h : Coerced n m) (typed : m.ty = some found)
      (lawful : c.Lawful found ty) : Coerced n (.convertTo c m ty)

theorem Coerced.trans {value : Node} (h : Coerced n m) (h' : Coerced m value) : Coerced n value := by
  induction h' with
  | refl => exact h
  | convert _ typed lawful ih => exact ih.convert typed lawful

theorem Coerced.converted (h : Coerced n m) : Converted n m := by
  induction h with
  | refl => exact .refl
  | convert _ _ _ ih => exact ih.convertTo ..

theorem Ty.exists_prim (h : ty.isPrimitive = true) : ∃ p, ty = .prim p := by
  cases ty
  case prim p => exact ⟨p, rfl⟩
  all_goals cases h

/-- Below a primitive there is nothing but itself. -/
theorem ClassTable.same_of_isSubtype_primitive {a b : Ty} (primitive : b.isPrimitive = true)
    (h : classes.isSubtype a b = true) : a.same b = true := by
  obtain ⟨p, rfl⟩ := Ty.exists_prim primitive
  cases a
  case array | null => all_goals simp [isSubtype, Ty.isReference, Ty.isPrimitive, Ty.same] at h
  all_goals simpa [isSubtype, Ty.isReference, Ty.isPrimitive] using h

theorem NumericKind.ofTy?_boxed_prim (p : Prim) : NumericKind.ofTy? (Ty.prim p).boxed = none := by
  cases p <;> rfl

namespace Returns

/-- The ways in which a value of type `found` is accepted, unboxed before where a primitive is expected, and
what comes of it. -/
inductive Accepts (classes : ClassTable) (expected found : Ty) (value : Node) : Node → Prop
  | own (h : found.same expected = true) : Accepts classes expected found value value
  | widen {k k' : NumericKind} (number : NumericKind.ofTy? found = some k)
      (number' : NumericKind.ofTy? expected = some k') (wider : k.promote k' = k') :
      Accepts classes expected found value (.convertTo .widen value expected)
  | box (primitive : found.isPrimitive = true) (reference : expected.isReference = true)
      (below : classes.isSubtype found.boxed expected = true) :
      Accepts classes expected found value (.convertTo .box value found.boxed)
  | below (h : classes.isSubtype found expected = true) : Accepts classes expected found value value

theorem accepts_of_unboxed {found' : Ty} {result : Node}
    (unboxed : unboxFor expected found value = (value', found'))
    (later : ¬ (found.same expected || (found = .null && expected.isReference)) = true)
    (h : convert classes expected found value = .ok result) :
    Accepts classes expected found' value' result := by
  unfold convert at h
  rw [if_neg later, unboxed] at h
  simp only at h
  split at h
  · obtain rfl := Except.ok.inj h
    exact .own ‹_›
  · split at h
    · split at h
      · obtain rfl := Except.ok.inj h
        exact .widen ‹_› ‹_› ‹_›
      · cases h
    · split at h
      · rename_i kinds
        obtain ⟨primitive, reference⟩ := Bool.and_eq_true _ _ ▸ kinds
        split at h
        · obtain rfl := Except.ok.inj h
          exact .box primitive reference ‹_›
        · cases h
      · split at h
        · obtain rfl := Except.ok.inj h
          exact .below ‹_›
        · cases h

/-- A result is accepted as null, by its own type, or as it is unboxed where a primitive is expected. -/
theorem accepts_of_ok (h : convert classes expected found value = .ok value') :
    (found = .null ∧ expected.isReference = true ∧ value' = value) ∨
      Accepts classes expected found value value' ∨
      ∃ prim, found.unboxed? = some prim ∧ expected.isPrimitive = true ∧
        Accepts classes expected prim (.convertTo .unbox value prim) value' := by
  by_cases early : (found.same expected || (found = .null && expected.isReference)) = true
  · have kept : convert classes expected found value = .ok value := by
      unfold convert
      rw [if_pos early]
    obtain rfl := Except.ok.inj (kept.symm.trans h)
    obtain same | ⟨null, reference⟩ : found.same expected = true ∨ found = .null ∧
        expected.isReference = true := by simpa using early
    · exact .inr (.inl (.own same))
    · exact .inl ⟨null, reference, rfl⟩
  · obtain plain | ⟨prim, held, primitive, unboxed⟩ := unboxFor_cases expected found value
    · exact .inr (.inl (accepts_of_unboxed plain early h))
    · exact .inr (.inr ⟨prim, held, primitive, accepts_of_unboxed unboxed early h⟩)

theorem Accepts.coerced (h : Accepts classes expected found value value')
    (typed : value.ty = some found) : Coerced value value' := by
  cases h with
  | own | below => exact .refl
  | widen number number' wider => exact .convert .refl typed (.widen number number' wider)
  | box primitive =>
    obtain ⟨p, rfl⟩ := Ty.exists_prim primitive
    exact .convert .refl typed (.box p)

theorem convert_coerced (h : convert classes expected found value = .ok value')
    (typed : value.ty = some found) : Coerced value value' := by
  obtain ⟨-, -, rfl⟩ | accepts | ⟨prim, held, -, accepts⟩ := accepts_of_ok h
  · exact .refl
  · exact accepts.coerced typed
  · exact (Coerced.convert .refl typed (.unbox held)).trans (accepts.coerced rfl)

theorem convert_of_same (classes : ClassTable) (value : Node) (h : found.same expected = true) :
    convert classes expected found value = .ok value := by
  unfold convert
  rw [h]
  rfl

/-- A box below the expected type is accepted as it is. -/
theorem convert_of_boxed (p : Prim) (value : Node) (reference : expected.isReference = true)
    (below : classes.isSubtype (Ty.prim p).boxed expected = true) :
    convert classes expected (Ty.prim p).boxed value = .ok value := by
  have primitive : expected.isPrimitive = false := by simpa [Ty.isReference] using reference
  have plain : unboxFor expected (Ty.prim p).boxed value = (value, (Ty.prim p).boxed) := by
    obtain plain | ⟨-, -, expects, -⟩ := unboxFor_cases expected (Ty.prim p).boxed value
    · exact plain
    · rw [primitive] at expects
      cases expects
  unfold convert
  rw [plain]
  simp only [NumericKind.ofTy?_boxed_prim, Ty.boxed_reference, below, Bool.false_and,
    Bool.false_eq_true, if_false, if_true, ite_self]

/-- What is made of an accepted value fits the expected type, and is accepted as it is. -/
theorem convert_again (h : convert classes expected found value = .ok value')
    (typed : value.ty = some found) :
    ∃ u, value'.ty = some u ∧ classes.isSubtype u expected = true ∧
      convert classes expected u value' = .ok value' := by
  obtain ⟨rfl, reference, rfl⟩ | accepts | ⟨prim, held, primitive, accepts⟩ := accepts_of_ok h
  · exact ⟨.null, typed, classes.null_isSubtype reference, h⟩
  · cases accepts with
    | own same => exact ⟨found, typed, classes.isSubtype_of_same same, h⟩
    | below below => exact ⟨found, typed, below, h⟩
    | widen =>
      exact ⟨expected, rfl, classes.isSubtype_refl expected, convert_of_same classes _ expected.same_refl⟩
    | box primitive reference below =>
      obtain ⟨p, rfl⟩ := Ty.exists_prim primitive
      exact ⟨_, rfl, below, convert_of_boxed p _ reference below⟩
  · cases accepts with
    | own same => exact ⟨prim, rfl, classes.isSubtype_of_same same, convert_of_same classes _ same⟩
    | below below =>
      have same := ClassTable.same_of_isSubtype_primitive primitive below
      exact ⟨prim, rfl, below, convert_of_same classes _ same⟩
    | widen =>
      exact ⟨expected, rfl, classes.isSubtype_refl expected, convert_of_same classes _ expected.same_refl⟩
    | box _ reference => simp [Ty.isReference, primitive] at reference

/-- What becomes of an accepted body: null stands in for the result of an empty one, and the last node of
another is converted. -/
inductive BodyKept (span : Span) (expected : Ty) : List Node → List Node → Prop
  | null (reference : expected.isReference = true) :
      BodyKept span expected [] [(Node.nullOf expected).withSpan span]
  | value {before : List Node} {last value : Node} (coerced : Coerced last value) :
      BodyKept span expected (before ++ [last]) (before ++ [value])

theorem checkBody_untyped {method : String} {before : List Node} {last : Node} (untyped : last.ty = none) :
    checkBody classes span method expected (before ++ [last]) = (before ++ [last], []) := by
  simp [checkBody, untyped]

theorem checkBody_ok {method : String} {before : List Node} {last : Node} (typed : last.ty = some found)
    (made : convert classes expected found last = .ok value) :
    checkBody classes span method expected (before ++ [last]) = (before ++ [value], []) := by
  simp [checkBody, typed, made]

/-- A body ends in a node that has no type, or one that fits. -/
def BodyFits (classes : ClassTable) (expected : Ty) (body : List Node) : Prop :=
  ∃ before last, body = before ++ [last] ∧ (last.ty = none ∨ last.Fits classes expected)

theorem checkBody_accepted {method : String} {body body' : List Node}
    (h : checkBody classes span method expected body = (body', [])) :
    BodyKept span expected body body' ∧ BodyFits classes expected body' ∧
      checkBody classes span method expected body' = (body', []) := by
  rcases List.eq_nil_or_concat' body with rfl | ⟨before, last, rfl⟩
  · unfold checkBody at h
    simp only [List.getLast?_nil] at h
    cases primitive : expected.isPrimitive with
    | true => simp [primitive] at h
    | false =>
      obtain rfl : [(Node.nullOf expected).withSpan span] = body' := by simpa [primitive] using h
      refine ⟨.null (by simp [Ty.isReference, primitive]),
        ⟨[], _, rfl, .inr ⟨expected, rfl, classes.isSubtype_refl expected⟩⟩, ?_⟩
      rw [← List.nil_append [_], checkBody_ok rfl (convert_of_same classes _ expected.same_refl)]
  · cases typed : last.ty with
    | none =>
      rw [checkBody_untyped typed] at h
      obtain ⟨rfl, -⟩ := Prod.mk.inj h
      exact ⟨.value .refl, ⟨before, last, rfl, .inl typed⟩, checkBody_untyped typed⟩
    | some found =>
      cases made : convert classes expected found last with
      | error value => simp [checkBody, typed, made] at h
      | ok value =>
        rw [checkBody_ok typed made] at h
        obtain ⟨rfl, -⟩ := Prod.mk.inj h
        obtain ⟨u, typed', fits, again⟩ := convert_again made typed
        exact ⟨.value (convert_coerced made typed),
          ⟨before, value, rfl, .inr ⟨u, typed', fits⟩⟩, checkBody_ok typed' again⟩

/-- What becomes of an accepted node over checked children. -/
inductive Kept : Node → Node → Prop
  | same (n : Node) : Kept n n
  | body {span : Span} {ty : Option Ty} {d : Method Node} {expected : Ty} {body : List Node}
      (declared : d.returnTy = some expected) (kept : BodyKept span expected d.body body) :
      Kept ⟨span, ty, .methodDecl d⟩ ⟨span, ty, .methodDecl { d with body }⟩

/-- The method declares no result, or void, or its body ends in a node that has no type or fits. -/
def ResultFits (classes : ClassTable) (d : Method Node) : Prop :=
  ∀ expected, d.returnTy = some expected → expected.isVoid = false → BodyFits classes expected d.body

/-- The check of results leaves the node as it is, reports nothing there, and the result of a method
fits. -/
structure Stable (classes : ClassTable) (n : Node) : Prop where
  fixed : returned classes n = n
  silent : reports classes n = []
  fits : ∀ d, n.kind = .methodDecl d → ResultFits classes d

theorem stable_other (h : n.label ≠ "MethodDecl") : Stable classes n := by
  obtain ⟨span, ty, kind⟩ := n
  cases kind
  case methodDecl => exact absurd rfl h
  all_goals exact ⟨rfl, rfl, by rintro d ⟨⟩⟩

theorem stable_methodDecl {d : Method Node} {ty : Option Ty} (again : checkDecl classes span d = (d, []))
    (fits : ResultFits classes d) : Stable classes ⟨span, ty, .methodDecl d⟩ where
  fixed := by
    show (⟨span, ty, .methodDecl (checkDecl classes span d).1⟩ : Node) = _
    rw [again]
  silent := congrArg Prod.snd again
  fits := by
    rintro d ⟨⟩
    exact fits

theorem checkDecl_declared {d : Method Node} (declared : d.returnTy = some expected)
    (other : expected.isVoid = false) : checkDecl classes span d =
      ({ d with body := (checkBody classes span d.name expected d.body).1 },
        (checkBody classes span d.name expected d.body).2) := by
  unfold checkDecl
  rw [declared]
  simp [other]

/-- A method without a result to check is left as it is. -/
theorem checkDecl_open {d : Method Node}
    (h : ∀ expected, d.returnTy = some expected → expected.isVoid = true) :
    checkDecl classes span d = (d, []) := by
  unfold checkDecl
  cases declared : d.returnTy with
  | none => rfl
  | some expected => simp [h expected declared]

theorem checkDecl_accepted {d d' : Method Node} (ty : Option Ty) (h : checkDecl classes span d = (d', [])) :
    Kept ⟨span, ty, .methodDecl d⟩ ⟨span, ty, .methodDecl d'⟩ ∧ ResultFits classes d' ∧
      checkDecl classes span d' = (d', []) := by
  by_cases checked : ∃ expected, d.returnTy = some expected ∧ expected.isVoid = false
  · obtain ⟨expected, declared, other⟩ := checked
    rcases made : checkBody classes span d.name expected d.body with ⟨body, new⟩
    rw [checkDecl_declared declared other, made] at h
    obtain ⟨rfl, rfl⟩ := Prod.mk.inj h
    obtain ⟨kept, fits, again⟩ := checkBody_accepted made
    refine ⟨.body declared kept, fun expected' declared' _ => ?_, ?_⟩
    · obtain rfl := Option.some.inj (declared.symm.trans declared')
      exact fits
    · rw [checkDecl_declared (d := { d with body }) declared other]
      simp only
      rw [again]
  · have skipped : ∀ expected, d.returnTy = some expected → expected.isVoid = true := by
      simpa using checked
    obtain rfl := (Prod.mk.inj ((checkDecl_open skipped).symm.trans h)).1
    refine ⟨.same _, fun expected declared other => ?_, h⟩
    rw [skipped expected declared] at other
    cases other

/-- A node over checked children at which nothing is reported is stable once it is checked. -/
theorem returned_stable {n : Node} (accepted : reports classes n = []) :
    Kept n (returned classes n) ∧ Stable classes (returned classes n) := by
  by_cases h : n.label = "MethodDecl"
  · obtain ⟨span, ty, kind⟩ := n
    cases kind
    case methodDecl d =>
      obtain ⟨kept, fits, again⟩ := checkDecl_accepted ty (Prod.ext rfl accepted :
        checkDecl classes span d = ((checkDecl classes span d).1, []))
      exact ⟨kept, stable_methodDecl again fits⟩
    all_goals exact absurd h (by simp [Node.label, Kind.label])
  · have stable : Stable classes n := stable_other h
    rw [stable.fixed]
    exact ⟨.same n, stable⟩

/-- What holds of conversions, of constants and in a body holds in what is kept of it. -/
theorem BodyKept.nodes {P : Node → Prop} {body body' : List Node} (h : BodyKept span expected body body')
    (conversion : ∀ x : Node, x.label = "Convert" → P x) (constant : ∀ x : Node, x.label = "Literal" → P x)
    (held : ∀ c ∈ body, ∀ x ∈ c.nodes, P x) : ∀ c ∈ body', ∀ x ∈ c.nodes, P x := by
  cases h with
  | null =>
    rw [List.forall_mem_singleton]
    intro x hx
    have leaf : Node.nodes ((Node.nullOf expected).withSpan span) = [(Node.nullOf expected).withSpan span] :=
      Node.nodes_mk ..
    rw [leaf, List.mem_singleton] at hx
    exact hx ▸ constant _ rfl
  | value coerced =>
    rw [List.forall_mem_append, List.forall_mem_singleton] at held ⊢
    exact ⟨held.1, coerced.converted.nodes conversion held.2⟩

theorem Kept.nodes {P : Node → Prop} (h : Kept n m) (own : P m)
    (conversion : ∀ x : Node, x.label = "Convert" → P x) (constant : ∀ x : Node, x.label = "Literal" → P x)
    (below : ∀ c ∈ n.kind.children, ∀ x ∈ c.nodes, P x) : ∀ x ∈ m.nodes, P x := by
  have children : ∀ c ∈ m.kind.children, ∀ x ∈ c.nodes, P x := by
    cases h with
    | same => exact below
    | body _ kept => exact kept.nodes conversion constant below
  obtain ⟨span, ty, kind⟩ := m
  exact Node.forall_nodes_mk.2 ⟨own, children⟩

theorem stable_nodes {root : Node} (accepted : ∀ n ∈ root.met (returned classes), reports classes n = []) :
    ∀ n ∈ (root.transform (returned classes)).nodes, Stable classes n := by
  refine Node.nodes_transform fun span ty kind met below => ?_
  obtain ⟨kept, stable⟩ := returned_stable (accepted _ met)
  exact kept.nodes stable (fun x hx => stable_other (by simp [hx])) (fun x hx => stable_other (by simp [hx]))
    below

end Returns

/-- Where the check of results reports nothing, each method that declares a result other than void ends in
a node that has no type or fits. Nothing but the end of a body is changed: it is put under lawful
conversions, or null stands in for it. Checking once more changes nothing and reports nothing. -/
theorem accepted_results {cx : Context} {root : Node} (accepted : (checkReturns cx root).2 = []) :
    (∀ n ∈ (checkReturns cx root).1.nodes, ∀ d, n.kind = .methodDecl d → Returns.ResultFits cx.classes d) ∧
      (∀ n ∈ root.nodes, Returns.Kept ⟨n.span, n.ty, n.kind.map fun c => (checkReturns cx c).1⟩
        (checkReturns cx n).1) ∧
      checkReturns cx (checkReturns cx root).1 = ((checkReturns cx root).1, []) := by
  have silent : ∀ n ∈ root.met (returned cx.classes), reports cx.classes n = [] := by
    rw [checkReturns_met] at accepted
    exact List.flatMap_eq_nil_iff.1 accepted
  have stable := Returns.stable_nodes silent
  simp only [checkReturns_met]
  refine ⟨fun n hn => (stable n hn).fits, fun n hn => ?_, ?_⟩
  · have accepted := silent _ ((Node.mem_met root).2 ⟨n, hn, rfl⟩)
    obtain ⟨span, ty, kind⟩ := n
    rw [Node.transform_mk]
    exact (Returns.returned_stable accepted).1
  · have fixed : ∀ n ∈ (root.transform (returned cx.classes)).nodes, returned cx.classes n = n :=
      fun n hn => (stable n hn).fixed
    rw [Node.transform_fixed fixed]
    refine Prod.ext rfl (List.flatMap_eq_nil_iff.2 fun n hn => ?_)
    exact (stable n (Node.mem_nodes_of_met fixed n hn)).silent

/-- A method that returns a number as an object, inside one that returns a boxed int as a long. -/
def totalOf (unit total : Node) : Node :=
  .ofKind (.methodDecl ⟨"total", [], some (.prim .long),
    [.ofKind (.methodDecl ⟨"unit", [], some .object, [unit]⟩), total]⟩)

/-- The results of both methods are converted. -/
theorem accepted_results_total :
    let integer := Node.localOf "n" (.ofClass "Integer")
    let total := totalOf oneOf integer
    let checked := totalOf oneOf.boxed
      (.convertTo .widen (.convertTo .unbox integer (.prim .int)) (.prim .long))
    checkReturns bareContext total = (checked, []) ∧
      (∀ n ∈ checked.nodes, ∀ d, n.kind = .methodDecl d → Returns.ResultFits bareContext.classes d) ∧
      checkReturns bareContext checked = (checked, []) := by
  intro integer total checked
  have made : checkReturns bareContext total = (checked, []) := rfl
  obtain ⟨fits, -, again⟩ := accepted_results (congrArg Prod.snd made)
  rw [made] at fits again
  exact ⟨made, fits, again⟩

end NavScript
