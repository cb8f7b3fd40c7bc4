import NavScript.Proofs.Subtyping

/-!
# The order of a walk

Where no type above a type has itself above it, a walk is a linear extension of what is above: a type
comes after everything above it (`before_of_above`), `Object` first. The owner of a member is the last
type of the walk that declares it, and what is below the owner stands after it.
-/

namespace NavScript.ClassTable

variable {t : ClassTable} {ty s p : Ty}

theorem walk_last (t : ClassTable) (ty : Ty) : (t.walk ty).getLast? = some ty := by
  unfold walk
  rw [climb_up List.not_mem_nil]
  simp

/-- Where nothing above a type has itself above it, every type of the walk has what is above it
before it. -/
theorem before_of_above (ht : t.SupersNamed) (acyclic : t.Acyclic ty) {pre post : List Ty}
    (split : t.walk ty = pre ++ s :: post) (h : t.StrictlyAbove s p) : p.key ∈ pre.map Ty.key := by
  obtain ⟨_, -, ordered⟩ := added_walk ht ty
  -- the step from `s` leads to a type whose key is listed before `s`, and the rest of the path to
  -- `p` can be taken from there
  suffices from_key : ∀ a, t.StrictlyAbove a p → t.Above ty a → ∀ pre b post,
      t.walk ty = pre ++ b :: post → b.key = a.key → p.key ∈ pre.map Ty.key by
    have hs : s ∈ t.walk ty := by simp [split]
    exact from_key s h (above_of_mem_walk ht hs) pre s post split rfl
  intro a path
  induction path using Relation.TransGen.head_induction_on with
  | single hp =>
    intro above pre b post split hkey
    have hb : b ∈ t.walk ty := by simp [split]
    rw [← supers_of_key ht (above_of_mem_walk ht hb) above hkey] at hp
    simpa using ordered acyclic pre b post split p hp
  | @head a q hq _ ih =>
    intro above pre b post split hkey
    have hb : b ∈ t.walk ty := by simp [split]
    have hq' : q ∈ t.supers b := supers_of_key ht (above_of_mem_walk ht hb) above hkey ▸ hq
    have before : q.key ∈ pre.map Ty.key := by simpa using ordered acyclic pre b post split q hq'
    obtain ⟨x, hx, hkey⟩ := List.mem_map.1 before
    obtain ⟨front, back, rfl⟩ := List.append_of_mem hx
    have := ih (above.tail hq) front x (back ++ b :: post) (by simp [split]) hkey
    simp_all

/-- What is below a type of the walk stands after it. -/
theorem after_of_above (ht : t.SupersNamed) (acyclic : t.Acyclic ty) {pre post : List Ty}
    (split : t.walk ty = pre ++ p :: post) (hs : s ∈ t.walk ty) {q : Ty} (h : t.StrictlyAbove s q)
    (hkey : q.key = p.key) : s ∈ post := by
  have unlisted : p.key ∉ pre.map Ty.key := by
    have nodup := nodup_walk ht ty
    rw [split, List.map_append, List.map_cons, List.nodup_append] at nodup
    exact fun hp => nodup.2.2 _ hp _ (List.mem_cons_self ..) rfl
  rw [split] at hs
  rcases List.mem_append.1 hs with hs | hs
  · obtain ⟨front, back, rfl⟩ := List.append_of_mem hs
    have split : t.walk ty = front ++ s :: (back ++ p :: post) := by simp [split]
    have before := before_of_above ht acyclic split h
    rw [hkey] at before
    rw [List.map_append] at unlisted
    exact absurd (List.mem_append_left _ before) unlisted
  · rcases List.mem_cons.1 hs with rfl | hs
    · exact absurd (hkey ▸ before_of_above ht acyclic split h) unlisted
    · exact hs

/-- What a search from the end of a walk finds is at a type of the walk below which the search finds
nothing. -/
theorem find_specific {β : Type} {find : Ty → Option β} {x : β} (ht : t.SupersNamed)
    (acyclic : t.Acyclic ty) (h : (t.walk ty).reverse.findSome? find = some x) :
    ∃ o ∈ t.walk ty, find o = some x ∧
      ∀ s ∈ t.walk ty, ∀ q, t.StrictlyAbove s q → q.key = o.key → find s = none := by
  obtain ⟨back, o, front, split, found, skipped⟩ := List.findSome?_eq_some_iff.1 h
  have split : t.walk ty = front.reverse ++ o :: back.reverse := by
    simpa using congrArg List.reverse split
  refine ⟨o, by simp [split], found, fun s hs q above hkey => skipped s ?_⟩
  exact List.mem_reverse.1 (after_of_above ht acyclic split hs above hkey)

/-- The first type of a walk has nothing above it. -/
theorem walk_first (ht : t.SupersNamed) (acyclic : t.Acyclic ty) (reference : ty.isReference = true)
    (some_value : ty ≠ .null) : (t.walk ty).head?.map Ty.key = some Ty.object.key := by
  rcases split : t.walk ty with _ | ⟨s, post⟩
  · simpa [split] using walk_last t ty
  · have top : t.supers s = [] := by
      refine List.eq_nil_iff_forall_not_mem.2 fun p hp => ?_
      have first : t.walk ty = [] ++ s :: post := split
      simpa using before_of_above ht acyclic first (.single hp)
    have object (named : s.Named) : s.key = Ty.object.key := by
      rw [supers_key named] at top
      by_contra hkey
      cases hd : t.class? s.key with
      | none => simp [supers_undeclared hkey hd] at top
      | some d => simp [supers_declared hkey hd] at top
    have above : t.Above ty s := above_of_mem_walk ht (by simp [split])
    have named : s.Named := by
      by_cases named : ty.Named
      · exact above_named ht named above
      · rcases above_unnamed named above with rfl | ⟨rfl, -⟩
        · rcases s with k | c | ⟨c, args⟩ | elem | _
          · simp [Ty.isReference, Ty.isPrimitive] at reference
          · rfl
          · rfl
          · simp [supers] at top
          · exact absurd rfl some_value
        · exact Ty.named_object
    simp [object named]

/-- What the class of a type declares, and the class. -/
def declared? (t : ClassTable) (find : ClassDef → Option Ty) (owner : Ty) : Option (ClassDef × Ty) := do
  let d ← t.class? (← owner.className?)
  let declared ← find d
  pure (d, declared)

theorem declared?_eq_some {find : ClassDef → Option Ty} {owner declared : Ty} {d : ClassDef} :
    t.declared? find owner = some (d, declared) ↔ owner.className? = some d.className.name ∧
      t.class? d.className.name = some d ∧ find d = some declared := by
  simp only [declared?, Option.pure_def, Option.bind_eq_bind, Option.bind_eq_some_iff,
    Option.some.injEq, Prod.mk.injEq]
  constructor
  · rintro ⟨key, hkey, x, hx, y, hy, rfl, rfl⟩
    obtain ⟨-, rfl⟩ := mem_of_class? hx
    exact ⟨hkey, hx, hy⟩
  · rintro ⟨hkey, hd, hf⟩
    exact ⟨_, hkey, d, hd, declared, hf, rfl, rfl⟩

theorem member?_eq (t : ClassTable) (ty : Ty) (find : ClassDef → Option Ty) :
    t.member? ty find = (t.walk ty).reverse.findSome? fun owner =>
      (t.declared? find owner).map fun found => ⟨owner, found.1.seenFrom ty found.2⟩ := by
  refine congrArg (List.findSome? · _) (funext fun owner => ?_)
  rcases hc : owner.className? with _ | key
  · simp [declared?, hc]
  · rcases hd : t.class? key with _ | d
    · simp [declared?, hc, hd]
    · rcases hf : find d <;> simp [declared?, hc, hd, hf]

/-- A subtype that is filed under another key. -/
def ProperSubtype (t : ClassTable) (a b : Ty) : Prop := t.isSubtype a b = true ∧ a.key ≠ b.key

theorem key_of_isSubtype (hs : s ≠ .null) (below : t.isSubtype s p = true) :
    s.key = p.key ∨ p.key ∈ (t.walk s).map Ty.key := by
  have plain (h : (s.same p ||
      (s.isReference && p.isReference && (t.walk s).any (·.key == p.key))) = true) :
      s.key = p.key ∨ p.key ∈ (t.walk s).map Ty.key := by
    simp only [Bool.or_eq_true, Bool.and_eq_true, List.any_eq_true, beq_iff_eq] at h
    rcases h with same | ⟨-, x, hx, hkey⟩
    · exact .inl (Ty.key_of_same same)
    · exact .inr (hkey ▸ List.mem_map_of_mem hx)
  rcases s with k | c | ⟨c, args⟩ | elem | _
  · exact plain (by simpa only [isSubtype] using below)
  · exact plain (by simpa only [isSubtype] using below)
  · exact plain (by simpa only [isSubtype] using below)
  · by_cases array : ∃ elem', p = .array elem'
    · obtain ⟨elem', rfl⟩ := array
      exact .inl rfl
    · exact plain (by rwa [isSubtype] at below <;> simp_all)
  · exact absurd rfl hs

theorem strictlyAbove_of_proper (ht : t.SupersNamed) (hs : s ≠ .null) (h : t.ProperSubtype s p) :
    ∃ q, t.StrictlyAbove s q ∧ q.key = p.key := by
  obtain ⟨below, hne⟩ := h
  obtain ⟨q, above, hkey⟩ :=
    (mem_keys_walk ht _).1 ((key_of_isSubtype hs below).resolve_left hne)
  rcases Relation.reflTransGen_iff_eq_or_transGen.1 above with rfl | above
  · exact absurd hkey hne
  · exact ⟨q, above, hkey⟩

/-- A type declares a member, and no other type of the walk that is below it does. -/
def MostSpecific (t : ClassTable) (ty : Ty) (find : ClassDef → Option Ty) (owner : Ty) : Prop :=
  owner ∈ t.walk ty ∧ (t.declared? find owner).isSome ∧
    ∀ s ∈ t.walk ty, t.ProperSubtype s owner → t.declared? find s = none

theorem member?_mostSpecific (ht : t.SupersNamed) (acyclic : t.Acyclic ty)
    {find : ClassDef → Option Ty} {m : Member} (h : t.member? ty find = some m) :
    t.MostSpecific ty find m.owner := by
  rw [member?_eq] at h
  obtain ⟨owner, hmem, found, specific⟩ := find_specific ht acyclic h
  obtain ⟨d, hd, rfl⟩ := Option.map_eq_some_iff.1 found
  refine ⟨hmem, by simp [hd], fun s hs proper => ?_⟩
  by_cases hnull : s = .null
  · rw [hnull]
    rfl
  · obtain ⟨q, above, hkey⟩ := strictlyAbove_of_proper ht hnull proper
    exact Option.map_eq_none_iff.1 (specific s hs q above hkey)

/-- Over named supertypes a walk from any type ends and does not meet the bound on its depth. It
lists the keys above the type, each of them once, and the type itself last. Where no type above has
itself above it, a type stands after everything above it, `Object` first, and a member is that of
the most specific type that declares it. -/
theorem walk_linearizes {t : ClassTable} (ht : t.SupersNamed) (ty : Ty) :
    (∃ w, t.Climbing [ty] {} w ∧ w.listed = t.walk ty ∧
        ∀ more, t.climb (t.size + 3 + more) {} ty = w) ∧
      ((t.walk ty).map Ty.key).Nodup ∧
      (∀ k, k ∈ (t.walk ty).map Ty.key ↔ ∃ s, t.Above ty s ∧ s.key = k) ∧
      (t.walk ty).getLast? = some ty ∧
      (t.Acyclic ty →
        (∀ pre s post, t.walk ty = pre ++ s :: post →
          ∀ p, t.StrictlyAbove s p → p.key ∈ pre.map Ty.key) ∧
        (ty.isReference = true → ty ≠ .null →
          (t.walk ty).head?.map Ty.key = some Ty.object.key) ∧
        (∀ name m, t.property? ty name = some m →
          t.MostSpecific ty (·.property? name) m.owner) ∧
        ∀ name arity m, t.method? ty name arity = some m →
          t.MostSpecific ty (fun d => (d.method? name arity).map (·.result)) m.owner) := by
  refine ⟨⟨_, climbing_walk ht ty 0, rfl, fun more => ?_⟩, nodup_walk ht ty, mem_keys_walk ht,
    walk_last t ty, fun acyclic => ⟨fun pre s post split p h => before_of_above ht acyclic split h,
      walk_first ht acyclic, fun name m h => member?_mostSpecific ht acyclic h,
      fun name arity m h => member?_mostSpecific ht acyclic h⟩⟩
  exact (climbing_walk ht ty more).unique (climbing_walk ht ty 0)

/-- A rank that goes up from the types right above each type of a walk. -/
theorem acyclic_of_rank (ht : t.SupersNamed) (rank : String → Nat)
    (h : ∀ s ∈ t.walk ty, ∀ p ∈ t.supers s, rank p.key < rank s.key) : t.Acyclic ty := by
  have step (a b : Ty) (ha : t.Above ty a) (hb : b ∈ t.supers a) : rank b.key < rank a.key := by
    obtain ⟨s, hs, hkey⟩ := List.mem_map.1 ((mem_keys_walk ht a.key).2 ⟨a, ha, rfl⟩)
    rw [← supers_of_key ht (above_of_mem_walk ht hs) ha hkey] at hb
    exact hkey ▸ h s hs b hb
  intro a above p path
  have lower : t.Above ty p ∧ rank p.key < rank a.key := by
    induction path with
    | single hp => exact ⟨above.tail hp, step _ _ above hp⟩
    | tail _ hp ih => exact ⟨ih.1.tail hp, Nat.lt_trans (step _ _ ih.1 hp) ih.2⟩
  exact fun hkey => absurd lower.2 (by simp [hkey])

/-- A rank of all classes that goes up from the types right above each of them, with `Object` below all
others. -/
theorem acyclic_of_ranks (ht : t.SupersNamed) (rank : String → Nat)
    (object : ∀ key, key ≠ Ty.object.key → rank Ty.object.key < rank key)
    (h : ∀ d ∈ t.classes, d.className.name ≠ Ty.object.key →
      ∀ p ∈ d.superclass.getD .object :: d.interfaces, rank p.key < rank d.className.name)
    (ty : Ty) : t.Acyclic ty := by
  refine acyclic_of_rank ht rank fun s _ p hp => ?_
  by_cases named : s.Named
  · rw [supers_key named] at hp
    by_cases hkey : s.key = Ty.object.key
    · rw [hkey] at hp
      cases hp
    · cases hd : t.class? s.key with
      | none =>
        rw [supers_undeclared hkey hd, List.mem_singleton] at hp
        exact hp ▸ object s.key hkey
      | some d =>
        obtain ⟨declared, hname⟩ := mem_of_class? hd
        rw [supers_declared hkey hd] at hp
        exact hname ▸ h d declared (hname ▸ hkey) p hp
  · obtain rfl | ⟨rfl, other⟩ := above_unnamed named (.single hp)
    · exact absurd (ht.supers_all _ _ hp) named
    · exact object s.key other

/-- A cube is a solid and can be drawn, and both have a name. -/
def diamondClasses : ClassTable :=
  ⟨[{ className := ⟨"Named", none⟩, properties := [("name", .string)] },
    { className := ⟨"Solid", none⟩, interfaces := [.ofClass "Named"] },
    { className := ⟨"Drawable", none⟩
      superclass := some (.ofClass "Named")
      properties := [("name", .ofClass "Label")] },
    { className := ⟨"Cube", none⟩
      superclass := some (.ofClass "Solid")
      interfaces := [.ofClass "Drawable"] }]⟩

theorem diamondClasses_named : diamondClasses.SupersNamed := by
  simp [SupersNamed, diamondClasses, Ty.Named, Ty.ofClass, Ty.className?]

theorem diamondClasses_acyclic : diamondClasses.Acyclic (.ofClass "Cube") :=
  acyclic_of_rank diamondClasses_named
    (["Object", "Named", "Solid", "Drawable", "Cube"].idxOf ·) (by decide)

/-- The name of a cube is that of what can be drawn, not that of a named thing. -/
theorem walk_linearizes_diamond :
    let cube := Ty.ofClass "Cube"
    (diamondClasses.SupersNamed ∧ diamondClasses.Acyclic cube) ∧
      (diamondClasses.walk cube).map Ty.key = ["Object", "Named", "Solid", "Drawable", "Cube"] ∧
      (diamondClasses.walk cube).head?.map Ty.key = some Ty.object.key ∧
      diamondClasses.MostSpecific cube (·.property? "name") (.ofClass "Drawable") := by
  intro cube
  have acyclic : diamondClasses.Acyclic cube := diamondClasses_acyclic
  obtain ⟨-, -, -, -, ordered⟩ := walk_linearizes diamondClasses_named cube
  obtain ⟨-, first, property, -⟩ := ordered acyclic
  exact ⟨⟨diamondClasses_named, acyclic⟩, by decide, first rfl (by decide),
    property "name" ⟨.ofClass "Drawable", .ofClass "Label"⟩ (by rfl)⟩

end NavScript.ClassTable
