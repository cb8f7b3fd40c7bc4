import NavScript.Class.Members
import NavScript.Navigator.Registry
import NavScript.Operator.Table
import NavScript.Proofs.Climbing

/-!
# Subtyping and what is looked up along it

Between named types a walk lists exactly what can be reached upwards (`mem_walk`), and what can be
reached hangs on the keys alone. Subtyping is reachability, so it is a preorder, and everything
that is looked up along a walk is found from below wherever it is found from above
(`lookups_monotone`).
-/

namespace NavScript

namespace ClassTable

variable {t : ClassTable} {ty : Ty}

/-- One key is right above another. -/
def Under (t : ClassTable) (a b : String) : Prop := ∃ s ∈ t.supers (.ofClass a), s.key = b

/-- One key is above another, or the same. -/
def Below (t : ClassTable) : String → String → Prop := Relation.ReflTransGen t.Under

/-- What is above a named type is above its key. -/
theorem Above.below (ht : t.SupersNamed) (named : ty.Named) {s : Ty} (h : t.Above ty s) :
    t.Below ty.key s.key := by
  induction h with
  | refl => exact .refl
  | tail above hs ih =>
    rw [supers_key (above_named ht named above)] at hs
    exact ih.tail ⟨_, hs, rfl⟩

/-- What is above the key of a named type is the key of a type above. -/
theorem Below.above (ht : t.SupersNamed) (named : ty.Named) {k : String} (h : t.Below ty.key k) :
    ∃ s, t.Above ty s ∧ s.key = k := by
  induction h with
  | refl => exact ⟨ty, .refl, rfl⟩
  | tail _ hk ih =>
    obtain ⟨s, above, rfl⟩ := ih
    obtain ⟨p, hp, rfl⟩ := hk
    rw [← supers_key (above_named ht named above)] at hp
    exact ⟨p, above.tail hp, rfl⟩

/-- A walk lists named types, with the keys above the one it starts with. -/
theorem mem_walk (ht : t.SupersNamed) (named : ty.Named) :
    (∀ s ∈ t.walk ty, s.Named) ∧ ∀ k, k ∈ (t.walk ty).map Ty.key ↔ t.Below ty.key k := by
  refine ⟨fun s hs => above_named ht named (above_of_mem_walk ht hs), fun k => ?_⟩
  rw [mem_keys_walk ht]
  constructor
  · rintro ⟨s, above, rfl⟩
    exact above.below ht named
  · exact Below.above ht named

/-- Between named types subtyping is reachability. -/
theorem isSubtype_iff (ht : t.SupersNamed) {a b : Ty} (ha : a.Named) (hb : b.Named) :
    t.isSubtype a b = true ↔ t.Below a.key b.key := by
  have unfolded : t.isSubtype a b = (a.same b || (t.walk a).any (·.key == b.key)) := by
    cases a
    case named | app =>
      all_goals
        cases b
        case named | app => all_goals rfl
        all_goals cases hb
    all_goals cases ha
  have listed : (t.walk a).any (·.key == b.key) = true ↔ b.key ∈ (t.walk a).map Ty.key := by
    simp [List.any_eq_true, List.mem_map]
  rw [unfolded, Bool.or_eq_true, listed, (mem_walk ht ha).2]
  exact ⟨fun h => h.elim (fun same => Ty.key_of_same same ▸ .refl) id, .inr⟩

/-- A member is found exactly if a class above declares one. -/
theorem member?_isSome (ht : t.SupersNamed) (named : ty.Named) (find : ClassDef → Option Ty) :
    (t.member? ty find).isSome ↔
      ∃ k, t.Below ty.key k ∧ ∃ d, t.class? k = some d ∧ (find d).isSome := by
  obtain ⟨allNamed, keys⟩ := mem_walk ht named
  unfold member?
  rw [List.findSome?_isSome_iff]
  constructor
  · rintro ⟨owner, howner, found⟩
    have howner := List.mem_reverse.1 howner
    rw [(allNamed owner howner).className?] at found
    refine ⟨owner.key, (keys _).1 (List.mem_map_of_mem howner), ?_⟩
    cases hd : t.class? owner.key with
    | none =>
      simp [hd] at found
    | some d =>
      refine ⟨d, rfl, ?_⟩
      cases hf : find d with
      | none => simp [hd, hf] at found
      | some declared => rfl
  · rintro ⟨k, hk, d, hd, found⟩
    obtain ⟨owner, howner, rfl⟩ := List.mem_map.1 ((keys k).2 hk)
    refine ⟨owner, List.mem_reverse.2 howner, ?_⟩
    obtain ⟨declared, hf⟩ := Option.isSome_iff_exists.1 found
    rw [(allNamed owner howner).className?]
    simp [hd, hf]

end ClassTable

/-- The candidates for a step are those filed under a key above the receiver's. -/
theorem Registry.mem_lookup_iff {t : ClassTable} (ht : t.SupersNamed) {ty : Ty} (named : ty.Named)
    (r : Registry) (step : Step Node) (navigator : Navigator) :
    navigator ∈ r.lookup t ty step ↔
      ∃ k, t.Below ty.key k ∧ navigator ∈ r.candidatesAt step.axis (.ofTest step.test) k := by
  obtain ⟨-, keys⟩ := ClassTable.mem_walk ht named
  unfold lookup
  rw [List.mem_flatMap]
  constructor
  · rintro ⟨super, hsuper, found⟩
    exact ⟨super.key, (keys _).1 (List.mem_map_of_mem hsuper), found⟩
  · rintro ⟨k, hk, found⟩
    obtain ⟨super, hsuper, rfl⟩ := List.mem_map.1 ((keys k).2 hk)
    exact ⟨super, hsuper, found⟩

namespace OperatorTable

theorem mem_operandTypes {t : ClassTable} (ht : t.SupersNamed) {ty : Ty} (named : ty.Named)
    (k : String) : k ∈ (operandTypes t ty).map Ty.key ↔ t.Below ty.key k := by
  have plain : operandTypes t ty = (t.walk ty).reverse := by
    cases ty
    case null => cases named
    all_goals rfl
  rw [plain, List.map_reverse, List.mem_reverse, (ClassTable.mem_walk ht named).2]

/-- An implementation is found exactly if one is filed under keys of the operands. -/
theorem lookup_isSome (ops : OperatorTable) (t : ClassTable) (op : Operator) (left right : Ty) :
    (ops.lookup t op left right).isSome ↔
      ∃ l ∈ (operandTypes t left).map Ty.key, ∃ r ∈ (operandTypes t right).map Ty.key,
        (ops.find? op l r).isSome := by
  unfold lookup
  simp only [List.findSome?_isSome_iff, List.mem_map, exists_exists_and_eq_and]

end OperatorTable

/-- Over named supertypes, subtyping of named types is reflexive and transitive, and whatever is looked
up along the supertypes of a type is also found for the types below it: properties, methods,
navigators, and operators for either operand. -/
theorem lookups_monotone {t : ClassTable} (ht : t.SupersNamed) :
    (∀ a : Ty, a.Named → t.isSubtype a a = true) ∧
      (∀ a b c : Ty, a.Named → b.Named → c.Named →
        t.isSubtype a b = true → t.isSubtype b c = true → t.isSubtype a c = true) ∧
      ∀ a b : Ty, a.Named → b.Named → t.isSubtype a b = true →
        (∀ name, (t.property? b name).isSome → (t.property? a name).isSome) ∧
        (∀ name arity, (t.method? b name arity).isSome → (t.method? a name arity).isSome) ∧
        (∀ (r : Registry) step, ∀ navigator ∈ r.lookup t b step, navigator ∈ r.lookup t a step) ∧
        ∀ (ops : OperatorTable) op other,
          ((ops.lookup t op b other).isSome → (ops.lookup t op a other).isSome) ∧
          ((ops.lookup t op other b).isSome → (ops.lookup t op other a).isSome) := by
  refine ⟨fun a ha => (ClassTable.isSubtype_iff ht ha ha).2 .refl,
    fun a b c ha hb hc hab hbc => ?_, fun a b ha hb hab => ?_⟩
  · rw [ClassTable.isSubtype_iff ht ha hb] at hab
    rw [ClassTable.isSubtype_iff ht hb hc] at hbc
    rw [ClassTable.isSubtype_iff ht ha hc]
    exact hab.trans hbc
  · have below : t.Below a.key b.key := (ClassTable.isSubtype_iff ht ha hb).1 hab
    have member (find : ClassDef → Option Ty) (h : (t.member? b find).isSome) :
        (t.member? a find).isSome := by
      obtain ⟨k, hk, found⟩ := (ClassTable.member?_isSome ht hb find).1 h
      exact (ClassTable.member?_isSome ht ha find).2 ⟨k, below.trans hk, found⟩
    have operand (k : String) (h : k ∈ (OperatorTable.operandTypes t b).map Ty.key) :
        k ∈ (OperatorTable.operandTypes t a).map Ty.key := by
      rw [OperatorTable.mem_operandTypes ht hb] at h
      exact (OperatorTable.mem_operandTypes ht ha k).2 (below.trans h)
    refine ⟨fun name => member _, fun name arity => member _, fun r step navigator h => ?_,
      fun ops op other => ⟨fun h => ?_, fun h => ?_⟩⟩
    · obtain ⟨k, hk, found⟩ := (Registry.mem_lookup_iff ht hb r step navigator).1 h
      exact (Registry.mem_lookup_iff ht ha r step navigator).2 ⟨k, below.trans hk, found⟩
    · rw [OperatorTable.lookup_isSome] at h ⊢
      obtain ⟨l, hl, found⟩ := h
      exact ⟨l, operand l hl, found⟩
    · rw [OperatorTable.lookup_isSome] at h ⊢
      obtain ⟨l, hl, r, hr, found⟩ := h
      exact ⟨l, hl, r, operand r hr, found⟩

/-- Two classes that extend each other, the second over an interface that is not declared. -/
def cyclicClasses : ClassTable :=
  ⟨[{ className := ⟨"A", none⟩, superclass := some (.ofClass "B") },
    { className := ⟨"B", none⟩
      superclass := some (.ofClass "A")
      interfaces := [.generic "I" (.ofClass "A")]
      properties := [("size", .prim .int)] }]⟩

theorem lookups_monotone_cycle :
    let a := Ty.ofClass "A"
    let i := Ty.generic "I" Ty.string
    cyclicClasses.SupersNamed ∧ (a.Named ∧ i.Named) ∧ cyclicClasses.isSubtype a i = true ∧
      cyclicClasses.isSubtype a a = true ∧
      (cyclicClasses.property? a "size").isSome ∧
      (OperatorTable.standard.lookup cyclicClasses .eq a i).isSome := by
  intro a i
  have named : cyclicClasses.SupersNamed := by
    intro d hd
    rcases List.mem_cons.1 hd with rfl | hd
    · refine ⟨fun s hs => ?_, fun _ hs => absurd hs List.not_mem_nil⟩
      cases hs
      rfl
    · rw [List.mem_singleton.1 hd]
      refine ⟨fun s hs => ?_, fun s hs => ?_⟩
      · cases hs
        rfl
      · rw [List.mem_singleton.1 hs]
        rfl
  obtain ⟨reflexive, transitive, monotone⟩ := lookups_monotone named
  have ab : cyclicClasses.isSubtype a (.ofClass "B") = true := by decide
  have bi : cyclicClasses.isSubtype (.ofClass "B") i = true := by decide
  have ai := transitive a (.ofClass "B") i rfl rfl rfl ab bi
  obtain ⟨property, -, -, -⟩ := monotone a (.ofClass "B") rfl rfl ab
  obtain ⟨-, -, -, operator⟩ := monotone a i rfl rfl ai
  exact ⟨named, ⟨rfl, rfl⟩, ai, reflexive a rfl, property "size" (by decide),
    (operator .standard .eq i).1 (by decide)⟩

end NavScript
