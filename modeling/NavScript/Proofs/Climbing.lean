import Mathlib.Data.List.Nodup
import Mathlib.Logic.Relation
import NavScript.Class.Hierarchy

/-!
# Walks up the hierarchy

A walk is a search in depth that lists a type when it is left. `Climbing` is that search without a
bound on its depth: each of its runs has one outcome, and the bound of `walk` is never met, since
every type entered on the way down is one class less to enter (`needs`). What a run adds to a walk
(`Added`) has keys of its own and is closed upwards, so a walk lists each key above its type once, also
through cycles, diamonds and classes that are not declared. Where no type above has itself above it,
what is right above a type cannot be on the way when the type is left, so it stands before it
(`Ordered`).
-/

namespace NavScript

/-- A class, applied or not. -/
def Ty.Named (ty : Ty) : Prop := ty.className?.isSome

namespace Ty

variable {ty : Ty}

theorem Named.className? (h : ty.Named) : ty.className? = some ty.key := by
  cases ty
  case named | app => all_goals rfl
  all_goals cases h

theorem named_object : Ty.object.Named := rfl

end Ty

namespace ClassTable

/-- The declared superclasses and interfaces are named types. -/
def SupersNamed (t : ClassTable) : Prop :=
  ∀ d ∈ t.classes, (∀ s, d.superclass = some s → s.Named) ∧ ∀ i ∈ d.interfaces, i.Named

variable {t : ClassTable} {ty s p : Ty} {tys : List Ty} {w w' : Walk} {key : String}

theorem mem_of_class? {d : ClassDef} (h : t.class? key = some d) :
    d ∈ t.classes ∧ d.className.name = key :=
  ⟨List.mem_of_find?_eq_some h, by simpa using List.find?_some h⟩

theorem supers_key (h : ty.Named) : t.supers ty = t.supers (.ofClass ty.key) := by
  cases ty
  case named | app => all_goals rfl
  all_goals cases h

theorem supers_object : t.supers (.ofClass "Object") = [] := rfl

theorem supers_declared {d : ClassDef} (hkey : key ≠ "Object") (h : t.class? key = some d) :
    t.supers (.ofClass key) = d.superclass.getD .object :: d.interfaces := by
  show (if key == "Object" then [] else _) = _
  rw [beq_eq_false_iff_ne.2 hkey, h]
  rfl

theorem supers_undeclared (hkey : key ≠ "Object") (h : t.class? key = none) :
    t.supers (.ofClass key) = [.object] := by
  show (if key == "Object" then [] else _) = _
  rw [beq_eq_false_iff_ne.2 hkey, h]
  rfl

theorem SupersNamed.supers (ht : t.SupersNamed) (h : ty.Named) : ∀ s ∈ t.supers ty, s.Named := by
  intro s hs
  rw [supers_key h] at hs
  by_cases hkey : ty.key = "Object"
  · rw [hkey, supers_object] at hs
    cases hs
  · cases hd : t.class? ty.key with
    | none =>
      rw [supers_undeclared hkey hd, List.mem_singleton] at hs
      rw [hs]
      exact Ty.named_object
    | some d =>
      obtain ⟨superclass, interfaces⟩ := ht d (mem_of_class? hd).1
      rw [supers_declared hkey hd] at hs
      rcases List.mem_cons.1 hs with rfl | hs
      · cases hsuper : d.superclass with
        | none => exact Ty.named_object
        | some s => exact superclass s hsuper
      · exact interfaces s hs

/-- One type is reached from another through the types right above. -/
def Above (t : ClassTable) : Ty → Ty → Prop := Relation.ReflTransGen fun a b => b ∈ t.supers a

/-- One type is reached from another in at least one step. -/
def StrictlyAbove (t : ClassTable) : Ty → Ty → Prop := Relation.TransGen fun a b => b ∈ t.supers a

/-- No type above, or the type itself, has its own key above it. -/
def Acyclic (t : ClassTable) (ty : Ty) : Prop :=
  ∀ s, t.Above ty s → ∀ p, t.StrictlyAbove s p → p.key ≠ s.key

theorem Acyclic.above (h : t.Acyclic ty) (hs : t.Above ty s) : t.Acyclic s :=
  fun x hx => h x (hs.trans hx)

/-- The types right above any type are named. -/
theorem SupersNamed.supers_all (ht : t.SupersNamed) (ty : Ty) : ∀ s ∈ t.supers ty, s.Named := by
  intro s hs
  by_cases named : ty.Named
  · exact ht.supers named s hs
  · rcases ty with k | c | ⟨c, args⟩ | elem | _
    · simp [ClassTable.supers] at hs
    · simp [Ty.Named, Ty.className?] at named
    · simp [Ty.Named, Ty.className?] at named
    · rw [List.mem_singleton.1 hs]
      exact Ty.named_object
    · simp [ClassTable.supers] at hs

theorem above_named (ht : t.SupersNamed) (named : ty.Named) (h : t.Above ty s) : s.Named := by
  rcases Relation.ReflTransGen.cases_tail h with rfl | ⟨x, -, hs⟩
  · exact named
  · exact ht.supers_all x s hs

/-- Above what is no class there is `Object` at most. -/
theorem above_unnamed (unnamed : ¬ ty.Named) (h : t.Above ty s) :
    s = ty ∨ s = .object ∧ ty.key ≠ Ty.object.key := by
  rcases Relation.ReflTransGen.cases_head h with rfl | ⟨x, hx, above⟩
  · exact .inl rfl
  · rcases ty with k | c | ⟨c, args⟩ | elem | _
    · simp [supers] at hx
    · simp [Ty.Named, Ty.className?] at unnamed
    · simp [Ty.Named, Ty.className?] at unnamed
    · rw [List.mem_singleton.1 hx] at above
      rcases Relation.ReflTransGen.cases_head above with rfl | ⟨y, hy, -⟩
      · exact .inr ⟨rfl, by simp [Ty.key, Ty.object, Ty.ofClass]⟩
      · simp [Ty.object, supers_object] at hy
    · simp [supers] at hx

/-- Of two types above one that are filed under one key, both are named, or they are the same. -/
theorem above_of_key (ht : t.SupersNamed) {a b : Ty} (ha : t.Above ty a) (hb : t.Above ty b)
    (h : a.key = b.key) : a = b ∨ a.Named ∧ b.Named := by
  by_cases named : ty.Named
  · exact .inr ⟨above_named ht named ha, above_named ht named hb⟩
  · rcases above_unnamed named ha with rfl | ⟨rfl, other⟩
    · rcases above_unnamed named hb with rfl | ⟨rfl, other⟩
      · exact .inl rfl
      · exact absurd h other
    · rcases above_unnamed named hb with rfl | ⟨rfl, -⟩
      · exact absurd h.symm other
      · exact .inl rfl

/-- Among the types above one, what is right above hangs on the key. -/
theorem supers_of_key (ht : t.SupersNamed) {a b : Ty} (ha : t.Above ty a) (hb : t.Above ty b)
    (h : a.key = b.key) : t.supers a = t.supers b := by
  rcases above_of_key ht ha hb h with rfl | ⟨named, named'⟩
  · rfl
  · rw [supers_key named, supers_key named', h]

/-- The declared classes that have not been entered. -/
def unvisited (t : ClassTable) (entered : List String) : Nat :=
  (t.classes.filter fun d => !entered.contains d.className.name).length

/-- How deep a walk from a key can go: through each declared class that is left, then through one
that is not declared and through `Object`. -/
def needs (t : ClassTable) (entered : List String) (key : String) : Nat :=
  if key = "Object" then 1 else if (t.class? key).isSome then t.unvisited entered + 2 else 2

theorem needs_pos (entered : List String) (key : String) : 1 ≤ t.needs entered key := by
  unfold needs
  split
  · exact Nat.le_refl 1
  · split <;> omega

theorem needs_le (entered : List String) (key : String) : t.needs entered key ≤ t.unvisited entered + 2 := by
  unfold needs
  split
  · omega
  · split <;> omega

theorem unvisited_anti {before after : List String} (h : ∀ k ∈ before, k ∈ after) :
    t.unvisited after ≤ t.unvisited before := by
  refine (List.monotone_filter_right t.classes fun d hd => ?_).length_le
  rw [Bool.not_eq_true', ← Bool.not_eq_true, List.contains_iff_mem] at hd ⊢
  exact fun hmem => hd (h _ hmem)

theorem needs_anti {before after : List String} (h : ∀ k ∈ before, k ∈ after) :
    t.needs after key ≤ t.needs before key := by
  have := t.unvisited_anti h
  unfold needs
  split
  · exact Nat.le_refl 1
  · split <;> omega

/-- A declared class that is entered is one less. -/
theorem unvisited_entered {entered : List String} {d : ClassDef} (hd : t.class? key = some d)
    (fresh : key ∉ entered) : t.unvisited (entered ++ [key]) < t.unvisited entered := by
  obtain ⟨hmem, hname⟩ := mem_of_class? hd
  unfold unvisited
  have narrower : t.classes.filter (fun d => !(entered ++ [key]).contains d.className.name) =
      (t.classes.filter fun d => !entered.contains d.className.name).filter
        fun d => decide (d.className.name ≠ key) := by
    rw [List.filter_filter]
    refine List.filter_congr fun c _ => ?_
    by_cases hc : c.className.name = key <;> simp [hc]
  rw [narrower]
  refine List.length_filter_lt_length_iff_exists.2 ⟨d, ?_, ?_⟩
  · rw [List.mem_filter]
    exact ⟨hmem, by simp [hname, fresh]⟩
  · simp [hname]

/-- What is above a type that has just been entered can be reached with one step of fuel less. -/
theorem needs_above {fuel : Nat} {entered : List String} (named : ty.Named)
    (fresh : ty.key ∉ entered) (enough : t.needs entered ty.key ≤ fuel + 1) :
    ∀ s ∈ t.supers ty, t.needs (entered ++ [ty.key]) s.key ≤ fuel := by
  intro s hs
  rw [supers_key named] at hs
  unfold needs at enough
  by_cases hkey : ty.key = "Object"
  · rw [hkey, supers_object] at hs
    cases hs
  · rw [if_neg hkey] at enough
    cases hd : t.class? ty.key with
    | none =>
      rw [supers_undeclared hkey hd, List.mem_singleton] at hs
      rw [hd] at enough
      rw [hs]
      exact Nat.le_of_succ_le_succ enough
    | some d =>
      rw [hd] at enough
      have enough : t.unvisited entered + 2 ≤ fuel + 1 := enough
      have less := unvisited_entered hd fresh
      have deep := t.needs_le (entered ++ [ty.key]) s.key
      omega

/-! ## The search -/

/-- A walk goes through some types one after the other. What was entered before is passed over, and
another type is listed after what is above it. -/
inductive Climbing (t : ClassTable) : List Ty → Walk → Walk → Prop
  | done (w : Walk) : Climbing t [] w w
  | again {ty : Ty} {rest : List Ty} {w w' : Walk} (entered : ty.key ∈ w.entered)
    (others : Climbing t rest w w') : Climbing t (ty :: rest) w w'
  | up {ty : Ty} {rest : List Ty} {w mid w' : Walk} (fresh : ty.key ∉ w.entered)
    (above : Climbing t (t.supers ty) { w with entered := w.entered ++ [ty.key] } mid)
    (others : Climbing t rest { mid with listed := mid.listed ++ [ty] } w') :
    Climbing t (ty :: rest) w w'

namespace Climbing

theorem unique {a b : Walk} (h : t.Climbing tys w a) (h' : t.Climbing tys w b) : a = b := by
  induction h generalizing b with
  | done w =>
    cases h'
    rfl
  | again entered _ ih =>
    rcases h' with _ | ⟨-, others⟩ | ⟨fresh, -, -⟩
    · exact ih others
    · exact absurd entered fresh
  | up fresh _ _ ihAbove ihOthers =>
    rcases h' with _ | ⟨entered, -⟩ | ⟨-, above, others⟩
    · exact absurd entered fresh
    · rw [← ihAbove above] at others
      exact ihOthers others

theorem grows (h : t.Climbing tys w w') : ∀ k ∈ w.entered, k ∈ w'.entered := by
  induction h with
  | done w => exact fun _ hk => hk
  | again _ _ ih => exact ih
  | up _ _ _ ihAbove ihOthers =>
    exact fun k hk => ihOthers k (ihAbove k (List.mem_append_left _ hk))

end Climbing

theorem climb_again {fuel : Nat} (h : ty.key ∈ w.entered) : t.climb (fuel + 1) w ty = w :=
  if_pos (List.contains_iff_mem.2 h)

theorem climb_up {fuel : Nat} (h : ty.key ∉ w.entered) :
    t.climb (fuel + 1) w ty =
      let mid := (t.supers ty).foldl (t.climb fuel) { w with entered := w.entered ++ [ty.key] }
      { mid with listed := mid.listed ++ [ty] } :=
  if_neg fun hmem => h (List.contains_iff_mem.1 hmem)

/-- With enough fuel the bound on the depth is not met. -/
theorem climbing (ht : t.SupersNamed) (fuel : Nat) (tys : List Ty) (w : Walk)
    (named : ∀ ty ∈ tys, ty.Named) (enough : ∀ ty ∈ tys, t.needs w.entered ty.key ≤ fuel) :
    t.Climbing tys w (tys.foldl (t.climb fuel) w) := by
  -- on the way up the fuel goes down by one, and along the list what has been entered grows
  induction fuel generalizing tys w with
  | zero =>
    rcases tys with _ | ⟨ty, rest⟩
    · exact .done w
    · have := t.needs_pos w.entered ty.key
      have := enough ty (List.mem_cons_self ..)
      omega
  | succ fuel ihFuel =>
    induction tys generalizing w with
    | nil => exact .done w
    | cons ty rest ih =>
      obtain ⟨namedTy, namedRest⟩ := List.forall_mem_cons.1 named
      obtain ⟨enoughTy, enoughRest⟩ := List.forall_mem_cons.1 enough
      rw [List.foldl_cons]
      by_cases hkey : ty.key ∈ w.entered
      · rw [climb_again hkey]
        exact .again hkey (ih w namedRest enoughRest)
      · rw [climb_up hkey]
        have above := ihFuel (t.supers ty) { w with entered := w.entered ++ [ty.key] }
          (ht.supers namedTy) (needs_above namedTy hkey enoughTy)
        refine .up hkey above (ih _ namedRest fun x hx => ?_)
        refine Nat.le_trans (needs_anti fun k hk => ?_) (enoughRest x hx)
        exact above.grows k (List.mem_append_left _ hk)

/-- A walk from any type is such a search, however much deeper it might go. -/
theorem climbing_walk (ht : t.SupersNamed) (ty : Ty) (more : Nat) :
    t.Climbing [ty] {} (t.climb (t.size + 3 + more) {} ty) := by
  have fresh : ty.key ∉ ({} : Walk).entered := List.not_mem_nil
  have fuel : t.size + 3 + more = t.size + 2 + more + 1 := by omega
  rw [fuel, climb_up fresh]
  refine .up fresh (climbing ht _ _ _ (ht.supers_all ty) fun s _ => ?_) (.done _)
  show t.needs ([] ++ [ty.key]) s.key ≤ _
  have deep := t.needs_le ([] ++ [ty.key]) s.key
  have all : t.unvisited ([] ++ [ty.key]) ≤ t.size := List.length_filter_le ..
  omega

/-- What a run through some types adds to a walk: each type once, with a key that was not entered,
above one of the types the run goes through, and closed upwards. -/
structure Added (t : ClassTable) (tys : List Ty) (w w' : Walk) (new : List Ty) : Prop where
  listed : w'.listed = w.listed ++ new
  entered : ∀ k, k ∈ w'.entered ↔ k ∈ w.entered ∨ k ∈ new.map Ty.key
  fresh : ∀ s ∈ new, s.key ∉ w.entered
  nodup : (new.map Ty.key).Nodup
  started : ∀ ty ∈ tys, ty.key ∈ w'.entered
  above : ∀ s ∈ new, ∃ ty ∈ tys, t.Above ty s
  closed : ∀ s ∈ new, ∀ p ∈ t.supers s, p.key ∈ w'.entered

namespace Added

variable {mid : Walk} {rest newAbove newOthers new : List Ty}

theorem nothing (w : Walk) : Added t [] w w [] where
  listed := by simp
  entered := by simp
  fresh := by simp
  nodup := by simp
  started := by simp
  above := by simp
  closed := by simp

theorem only_rest (entered : ty.key ∈ w.entered) (h : Added t rest w w' new) :
    Added t (ty :: rest) w w' new where
  listed := h.listed
  entered := h.entered
  fresh := h.fresh
  nodup := h.nodup
  started := by
    rintro x (_ | ⟨_, hx⟩)
    · exact (h.entered _).2 (.inl entered)
    · exact h.started x hx
  above s hs := by
    obtain ⟨x, hx, above⟩ := h.above s hs
    exact ⟨x, List.mem_cons_of_mem _ hx, above⟩
  closed := h.closed

theorem above_self_rest (fresh : ty.key ∉ w.entered)
    (ha : Added t (t.supers ty) { w with entered := w.entered ++ [ty.key] } mid newAbove)
    (ho : Added t rest { mid with listed := mid.listed ++ [ty] } w' newOthers) :
    Added t (ty :: rest) w w' (newAbove ++ ty :: newOthers) := by
  have midEntered (k : String) :
      k ∈ mid.entered ↔ k ∈ w.entered ∨ k = ty.key ∨ k ∈ newAbove.map Ty.key := by
    simp [ha.entered, or_assoc]
  have entered (k : String) : k ∈ w'.entered ↔
      k ∈ w.entered ∨ k ∈ (newAbove ++ ty :: newOthers).map Ty.key := by
    rw [ho.entered, midEntered]
    simp only [List.map_append, List.map_cons, List.mem_append, List.mem_cons]
    tauto
  have grows (k : String) (hk : k ∈ mid.entered) : k ∈ w'.entered := (ho.entered k).2 (.inl hk)
  have freshAbove : ∀ s ∈ newAbove, s.key ∉ w.entered ∧ s.key ≠ ty.key := by
    simpa [not_or] using ha.fresh
  have freshOthers : ∀ s ∈ newOthers, s.key ∉ w.entered ∧ s.key ≠ ty.key ∧
      s.key ∉ newAbove.map Ty.key := by
    intro s hs
    have := (midEntered s.key).not.1 (ho.fresh s hs)
    tauto
  refine ⟨?listed, entered, ?fresh, ?nodup, ?started, ?above, ?closed⟩
  case listed => simp [ho.listed, ha.listed]
  case fresh =>
    intro s hs
    rcases List.mem_append.1 hs with hs | hs
    · exact (freshAbove s hs).1
    · rcases List.mem_cons.1 hs with rfl | hs
      · exact fresh
      · exact (freshOthers s hs).1
  case nodup =>
    rw [List.map_append, List.map_cons, List.nodup_append, List.nodup_cons]
    refine ⟨ha.nodup, ⟨?_, ho.nodup⟩, ?_⟩
    · rintro hmem
      obtain ⟨s, hs, hkey⟩ := List.mem_map.1 hmem
      exact (freshOthers s hs).2.1 hkey
    · rintro a hmem b hmem' rfl
      obtain ⟨s, hs, rfl⟩ := List.mem_map.1 hmem
      rcases List.mem_cons.1 hmem' with hkey | hmem'
      · exact (freshAbove s hs).2 hkey
      · obtain ⟨o, ho, hkey⟩ := List.mem_map.1 hmem'
        exact (freshOthers o ho).2.2 (hkey ▸ hmem)
  case started =>
    rintro x (_ | ⟨_, hx⟩)
    · exact grows _ ((midEntered _).2 (.inr (.inl rfl)))
    · exact ho.started x hx
  case above =>
    intro s hs
    rcases List.mem_append.1 hs with hs | hs
    · obtain ⟨x, hx, above⟩ := ha.above s hs
      exact ⟨ty, List.mem_cons_self .., .head hx above⟩
    · rcases List.mem_cons.1 hs with rfl | hs
      · exact ⟨s, List.mem_cons_self .., .refl⟩
      · obtain ⟨x, hx, above⟩ := ho.above s hs
        exact ⟨x, List.mem_cons_of_mem _ hx, above⟩
  case closed =>
    intro s hs p hp
    rcases List.mem_append.1 hs with hs | hs
    · exact grows _ (ha.closed s hs p hp)
    · rcases List.mem_cons.1 hs with rfl | hs
      · exact grows _ (ha.started p hp)
      · exact ho.closed s hs p hp

end Added

/-- Every type of the second list has what is right above it before it, or among some keys. -/
def Ordered (t : ClassTable) (keys : List String) (new : List Ty) : Prop :=
  ∀ pre s post, new = pre ++ s :: post → ∀ p ∈ t.supers s, p.key ∈ keys ∨ p.key ∈ pre.map Ty.key

theorem Ordered.append {keys : List String} {front back : List Ty} (hf : t.Ordered keys front)
    (hb : t.Ordered (keys ++ front.map Ty.key) back) : t.Ordered keys (front ++ back) := by
  intro pre s post split p hp
  rcases List.append_eq_append_iff.1 split with ⟨more, rfl, rfl⟩ | ⟨more, rfl, hsplit⟩
  · rcases hb more s post rfl p hp with h | h
    · rcases List.mem_append.1 h with h | h
      · exact .inl h
      · exact .inr (by simp_all)
    · exact .inr (by simp_all)
  · rcases more with _ | ⟨x, more⟩
    · rcases hb [] s post (by simpa using hsplit.symm) p hp with h | h
      · simpa using h
      · simp at h
    · simp only [List.cons_append, List.cons.injEq] at hsplit
      obtain ⟨rfl, -⟩ := hsplit
      exact hf pre s more rfl p hp

theorem ordered_cons {keys : List String} {rest : List Ty} :
    t.Ordered keys (ty :: rest) ↔
      (∀ p ∈ t.supers ty, p.key ∈ keys) ∧ t.Ordered (keys ++ [ty.key]) rest := by
  constructor
  · intro h
    refine ⟨fun p hp => ?_, fun pre s post split p hp => ?_⟩
    · simpa using h [] ty rest rfl p hp
    · have := h (ty :: pre) s post (by rw [split]; rfl) p hp
      simp at this ⊢
      tauto
  · rintro ⟨first, others⟩ pre s post split p hp
    rcases pre with _ | ⟨x, pre⟩
    · simp only [List.nil_append, List.cons.injEq] at split
      obtain ⟨rfl, -⟩ := split
      exact .inl (first p hp)
    · simp only [List.cons_append, List.cons.injEq] at split
      obtain ⟨rfl, rfl⟩ := split
      have := others pre s post rfl p hp
      simp at this ⊢
      tauto

theorem Ordered.mono {keys more : List String} {new : List Ty} (h : t.Ordered keys new)
    (hk : ∀ k ∈ keys, k ∈ more) : t.Ordered more new :=
  fun pre s post split p hp => (h pre s post split p hp).imp_left (hk _)

theorem Climbing.added (h : t.Climbing tys w w') :
    ∃ new, t.Added tys w w' new ∧ ((∀ ty ∈ tys, t.Acyclic ty) → t.Ordered w.entered new) := by
  induction h with
  | done w => exact ⟨[], .nothing w, fun _ pre s post split => by simp at split⟩
  | again entered _ ih =>
    obtain ⟨new, added, ordered⟩ := ih
    exact ⟨new, added.only_rest entered, fun acyclic => ordered (List.forall_mem_cons.1 acyclic).2⟩
  | @up ty rest w mid w' fresh _ _ ihAbove ihOthers =>
    obtain ⟨newAbove, added, ordered⟩ := ihAbove
    obtain ⟨newOthers, added', ordered'⟩ := ihOthers
    refine ⟨newAbove ++ ty :: newOthers, .above_self_rest fresh added added', fun acyclic => ?_⟩
    obtain ⟨acyclicTy, acyclicRest⟩ := List.forall_mem_cons.1 acyclic
    have away (p : Ty) (hp : t.StrictlyAbove ty p) : p.key ≠ ty.key := acyclicTy ty .refl p hp
    have midEntered (k : String) (hne : k ≠ ty.key) :
        k ∈ mid.entered ↔ k ∈ w.entered ∨ k ∈ newAbove.map Ty.key := by
      simp [added.entered, hne]
    -- a type that is on the way is above none of those it is left for
    have orderedAbove : t.Ordered w.entered newAbove := by
      intro pre s post split p hp
      have hs : s ∈ newAbove := by simp [split]
      obtain ⟨x, hx, above⟩ := added.above s hs
      have hne := away p (.tail' (.head hx above) hp)
      have := ordered (fun x hx => acyclicTy.above (.single hx)) pre s post split p hp
      simpa [hne] using this
    refine orderedAbove.append (ordered_cons.2 ⟨fun p hp => ?_, (ordered' acyclicRest).mono fun k hk => ?_⟩)
    · simpa using (midEntered p.key (away p (.single hp))).1 (added.started p hp)
    · by_cases hne : k = ty.key
      · simp [hne]
      · have := (midEntered k hne).1 hk
        simp only [List.mem_append]
        tauto

/-! ## What a walk lists -/

section Walk

variable (ht : t.SupersNamed)
include ht

theorem added_walk (ty : Ty) : ∃ w, t.Added [ty] {} w (t.walk ty) ∧
    (t.Acyclic ty → t.Ordered [] (t.walk ty)) := by
  obtain ⟨new, added, ordered⟩ := (climbing_walk ht ty 0).added
  have listed : t.walk ty = new := added.listed
  rw [listed]
  exact ⟨_, added, fun acyclic => ordered (by simpa using acyclic)⟩

theorem nodup_walk (ty : Ty) : ((t.walk ty).map Ty.key).Nodup :=
  let ⟨_, added, _⟩ := added_walk ht ty
  added.nodup

theorem above_of_mem_walk (h : s ∈ t.walk ty) : t.Above ty s := by
  obtain ⟨_, added, -⟩ := added_walk ht ty
  obtain ⟨x, hx, above⟩ := added.above s h
  rwa [List.mem_singleton.1 hx] at above

theorem mem_keys_walk (k : String) :
    k ∈ (t.walk ty).map Ty.key ↔ ∃ s, t.Above ty s ∧ s.key = k := by
  constructor
  · rintro hk
    obtain ⟨s, hs, rfl⟩ := List.mem_map.1 hk
    exact ⟨s, above_of_mem_walk ht hs, rfl⟩
  · rintro ⟨s, above, rfl⟩
    obtain ⟨w, added, -⟩ := added_walk ht ty
    have listed (k : String) : k ∈ w.entered ↔ k ∈ (t.walk ty).map Ty.key := by
      rw [added.entered]
      simp
    induction above with
    | refl => exact (listed _).1 (added.started ty (List.mem_singleton_self _))
    | tail above hp ih =>
      obtain ⟨q, hq, hkey⟩ := List.mem_map.1 ih
      rw [← supers_of_key ht (above_of_mem_walk ht hq) above hkey] at hp
      exact (listed _).1 (added.closed q hq _ hp)

end Walk

end ClassTable

end NavScript
