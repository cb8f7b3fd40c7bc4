import Mathlib.Data.Finset.Card
import NavScript.Navigator.Registry

/-!
# The first registration wins

A registry is described by what it has been offered since it was last cleared (`Registry.offered`): a
slot holds the navigator of the first offer for it, and there are as many slots as were ever offered
(`Registry.Keeps`). One offer keeps this and warns exactly if the slot was offered before
(`Keeps.offer`); calls are runs of offers, so that a whole history keeps it (`keeps_history`). Look-ups
see nothing but the first offers, which is why loads of different slots can change places.
-/

namespace NavScript

/-- A navigator offered for one slot. -/
structure Offer where
  declaring : Ty
  axis : Axis
  test : SlotTest
  navigator : Navigator

namespace Offer

def slot (o : Offer) : Slot := ⟨o.declaring.key, o.axis, o.test⟩

/-- The navigator of the first offer for a slot. -/
def first (os : List Offer) (slot : Slot) : Option Navigator :=
  (os.find? fun o => decide (o.slot = slot)).map (·.navigator)

/-- The warning that an offer is dropped for a navigator that was there. -/
def dropped (o : Offer) (kept : Navigator) : Diagnostic :=
  .navigatorConflict o.declaring o.axis o.test.render kept.label o.navigator.label

/-- The warnings of the offers that find their slot offered before, in order. -/
def conflicts : List Offer → List Offer → List Diagnostic
  | _, [] => []
  | before, o :: rest =>
    ((first before o.slot).map o.dropped).toList ++ conflicts (before ++ [o]) rest

/-- What of the warnings a policy lets through. -/
def told (policy : ConflictPolicy) (warnings : List Diagnostic) : List Diagnostic :=
  match policy with
  | .report => warnings
  | .firstWins => []

theorem told_append (policy : ConflictPolicy) (ds ds' : List Diagnostic) :
    told policy (ds ++ ds') = told policy ds ++ told policy ds' := by
  cases policy <;> rfl

theorem first_append (os os' : List Offer) (slot : Slot) :
    first (os ++ os') slot = (first os slot).or (first os' slot) := by
  unfold first
  rw [List.find?_append]
  cases os.find? fun o => decide (o.slot = slot) <;> rfl

theorem first_isSome {os : List Offer} {slot : Slot} :
    (first os slot).isSome ↔ slot ∈ os.map Offer.slot := by
  unfold first
  rw [Option.isSome_map, List.find?_isSome, List.mem_map]
  simp only [decide_eq_true_eq]

theorem first_eq_none {os : List Offer} {slot : Slot} :
    first os slot = none ↔ slot ∉ os.map Offer.slot := by
  rw [← first_isSome, Option.not_isSome_iff_eq_none]

/-- Offers for different slots can be made in either order. -/
theorem first_comm {os os' : List Offer} (h : ∀ o ∈ os, ∀ o' ∈ os', o.slot ≠ o'.slot)
    (slot : Slot) : first (os ++ os') slot = first (os' ++ os) slot := by
  rw [first_append, first_append]
  by_cases hs : slot ∈ os.map Offer.slot
  · have other : first os' slot = none := by
      rw [first_eq_none]
      intro hs'
      obtain ⟨o, ho, rfl⟩ := List.mem_map.1 hs
      obtain ⟨o', ho', same⟩ := List.mem_map.1 hs'
      exact h o ho o' ho' same.symm
    rw [other, Option.or_none, Option.none_or]
  · rw [first_eq_none.2 hs, Option.or_none, Option.none_or]

end Offer

/-- The offers that a registration makes: each axis with each test. -/
def Registration.offers (g : Registration) : List Offer :=
  g.axes.flatMap fun axis => g.tests.map fun test => ⟨g.declaring, axis, test, g.navigator⟩

theorem Registration.length_offers (g : Registration) :
    g.offers.length = g.axes.length * g.tests.length := by
  unfold offers
  simp only [List.length_flatMap, List.length_map, List.map_const', List.sum_replicate_nat]

namespace Registry

/-- What changes a registry: a registration, the registrations of a provider, or a clearance. -/
inductive Call where
  | register (g : Registration)
  | load (gs : List Registration)
  | clear

namespace Call

def offers : Call → List Offer
  | register g => g.offers
  | load gs => gs.flatMap Registration.offers
  | clear => []

/-- The pairs of an axis and a test that a call registers for. -/
def pairs : Call → Nat
  | register g => g.axes.length * g.tests.length
  | load gs => gs.foldr (fun g count => g.axes.length * g.tests.length + count) 0
  | clear => 0

theorem length_offers (c : Call) : c.offers.length = c.pairs := by
  cases c with
  | register g => exact g.length_offers
  | load gs =>
    unfold offers pairs
    simp only
    induction gs with
    | nil => rfl
    | cons g rest ih => rw [List.flatMap_cons, List.length_append, List.foldr_cons, ih, g.length_offers]
  | clear => rfl

def perform (r : Registry) : Call → Registry × List Diagnostic
  | register g => r.register g
  | load gs => r.load gs
  | clear => (r.clear, [])

end Call

/-- The registry behind calls. -/
def behind (r : Registry) (calls : List Call) : Registry :=
  calls.foldl (fun r c => (c.perform r).1) r

/-- What is offered behind calls since the last clearance, with what was offered before them. -/
def offered (before : List Offer) (calls : List Call) : List Offer :=
  calls.foldl (fun os c => match c with
    | .clear => []
    | c => os ++ c.offers) before

/-- Changes one after another, with all that they warn of. -/
def run {α : Type} (change : Registry → α → Registry × List Diagnostic) :
    Registry → List α → Registry × List Diagnostic
  | r, [] => (r, [])
  | r, a :: rest => ((run change (change r a).1 rest).1, (change r a).2 ++ (run change (change r a).1 rest).2)

variable {α β : Type} {change : Registry → α → Registry × List Diagnostic}

variable (change) in
theorem foldl_eq_run (as : List α) (r : Registry) (warnings : List Diagnostic) :
    as.foldl (fun (r, warnings) a =>
      let (r, new) := change r a
      (r, warnings ++ new)) (r, warnings) = ((run change r as).1, warnings ++ (run change r as).2) := by
  induction as generalizing r warnings with
  | nil => rw [List.foldl_nil, run, List.append_nil]
  | cons a rest ih =>
    rw [List.foldl_cons, ih, run, List.append_assoc]

theorem run_append (r : Registry) (as bs : List α) :
    run change r (as ++ bs) =
      ((run change (run change r as).1 bs).1,
        (run change r as).2 ++ (run change (run change r as).1 bs).2) := by
  induction as generalizing r with
  | nil => rfl
  | cons a rest ih =>
    rw [List.cons_append, run, ih, run]
    simp only [List.append_assoc]

theorem run_map (f : β → α) (r : Registry) (bs : List β) :
    run change r (bs.map f) = run (fun r b => change r (f b)) r bs := by
  induction bs generalizing r with
  | nil => rfl
  | cons b rest ih => rw [List.map_cons, run, run, ih]

/-- A run of runs is one run. -/
theorem run_flatMap (f : β → List α) (r : Registry) (bs : List β) :
    run change r (bs.flatMap f) = run (fun r b => run change r (f b)) r bs := by
  induction bs generalizing r with
  | nil => rfl
  | cons b rest ih => rw [List.flatMap_cons, run_append, ih, run]

def takes (r : Registry) (o : Offer) : Registry × List Diagnostic :=
  r.offer o.declaring o.axis o.test o.navigator

theorem takes_eq (r : Registry) (o : Offer) : r.takes o =
    match r.holder? o.slot with
    | none => ({ r with slots := r.slots ++ [(o.slot, o.navigator)] }, [])
    | some kept =>
      match r.policy with
      | .firstWins => (r, [])
      | .report => (r, [o.dropped kept]) :=
  rfl

theorem register_eq (r : Registry) (g : Registration) : r.register g = run takes r g.offers := by
  have pairs : g.offers = (g.axes.flatMap fun axis => g.tests.map fun test => (axis, test)).map
      fun pair => ⟨g.declaring, pair.1, pair.2, g.navigator⟩ := by
    unfold Registration.offers
    rw [List.map_flatMap]
    simp only [List.map_map, Function.comp_def]
  rw [pairs, run_map]
  exact foldl_eq_run (fun r (pair : Axis × SlotTest) => r.offer g.declaring pair.1 pair.2 g.navigator)
    _ r []

theorem load_eq (r : Registry) (gs : List Registration) :
    r.load gs = run takes r (gs.flatMap Registration.offers) := by
  rw [run_flatMap]
  have each : (fun (r : Registry) (g : Registration) => run takes r g.offers) = register := by
    funext r g
    exact (register_eq r g).symm
  rw [each]
  exact foldl_eq_run register gs r []

/-- The slots hold the first of some offers, each slot once. -/
structure Keeps (r : Registry) (os : List Offer) : Prop where
  holds : ∀ slot, r.holder? slot = Offer.first os slot
  distinct : (r.slots.map Prod.fst).Nodup

variable {r : Registry} {os : List Offer}

theorem holder?_isSome {slot : Slot} : (r.holder? slot).isSome ↔ slot ∈ r.slots.map Prod.fst := by
  unfold holder?
  rw [← not_iff_not, Option.not_isSome_iff_eq_none, List.lookup_eq_none_iff, List.mem_map]
  constructor
  · rintro h ⟨entry, hmem, rfl⟩
    have := h entry hmem
    rw [bne_self_eq_false] at this
    cases this
  · intro h entry hmem
    rw [bne_iff_ne]
    rintro rfl
    exact h ⟨entry, hmem, rfl⟩

/-- There are as many slots as were offered. -/
theorem Keeps.size (h : Keeps r os) : r.size = (os.map Offer.slot).toFinset.card := by
  have same : (r.slots.map Prod.fst).toFinset = (os.map Offer.slot).toFinset := by
    ext slot
    rw [List.mem_toFinset, List.mem_toFinset, ← holder?_isSome, h.holds, Offer.first_isSome]
  rw [← same, List.toFinset_card_of_nodup h.distinct, List.length_map]
  rfl

/-- What offers do to a registry that has had others before. -/
structure Changes (r : Registry) (os new : List Offer) (after : Registry × List Diagnostic) : Prop where
  keeps : Keeps after.1 (os ++ new)
  policy : after.1.policy = r.policy
  warnings : after.2 = Offer.told r.policy (Offer.conflicts os new)
  growth : after.1.size + (Offer.conflicts os new).length = r.size + new.length

theorem Keeps.offer (h : Keeps r os) (o : Offer) : Changes r os [o] (r.takes o) := by
  have single : Offer.first [o] = fun slot => if o.slot = slot then some o.navigator else none := by
    funext slot
    by_cases hs : o.slot = slot <;> simp [Offer.first, hs]
  have conflict : Offer.conflicts os [o] = ((Offer.first os o.slot).map o.dropped).toList :=
    List.append_nil _
  cases held : r.holder? o.slot with
  | none =>
    have fresh : o.slot ∉ r.slots.map Prod.fst := by
      rw [← holder?_isSome, held]
      exact Bool.false_ne_true
    have step : r.takes o = ({ r with slots := r.slots ++ [(o.slot, o.navigator)] }, []) := by
      rw [takes_eq, held]
    rw [h.holds] at held
    rw [step]
    refine ⟨⟨fun slot => ?_, ?_⟩, rfl, ?_, ?_⟩
    · show (r.slots ++ [(o.slot, o.navigator)]).lookup slot = _
      rw [List.lookup_append, Offer.first_append, ← h.holds slot, single]
      congr 1
      by_cases hs : o.slot = slot
      · simp only [hs, List.lookup_cons_self, if_true]
      · have other : (slot == o.slot) = false := beq_eq_false_iff_ne.2 fun e => hs e.symm
        simp only [hs, List.lookup_cons, other, List.lookup_nil, if_false]
    · rw [List.map_append, List.nodup_append]
      refine ⟨h.distinct, List.nodup_singleton _, ?_⟩
      rintro slot hslot _ hs rfl
      rw [List.mem_singleton.1 hs] at hslot
      exact fresh hslot
    · rw [conflict, held]
      cases r.policy <;> rfl
    · rw [conflict, held]
      exact List.length_append
  | some kept =>
    have step : r.takes o = (r, Offer.told r.policy [o.dropped kept]) := by
      rw [takes_eq, held]
      cases hp : r.policy with
      | firstWins => simp only [Offer.told]
      | report => simp only [Offer.told]
    rw [h.holds] at held
    rw [step]
    refine ⟨⟨fun slot => ?_, h.distinct⟩, rfl, ?_, ?_⟩
    · rw [Offer.first_append, ← h.holds slot, single]
      by_cases hs : o.slot = slot
      · rw [← hs, h.holds, held]
        rfl
      · simp [hs]
    · rw [conflict, held]
      cases r.policy <;> rfl
    · rw [conflict, held]
      rfl

theorem Keeps.run (h : Keeps r os) (new : List Offer) : Changes r os new (run takes r new) := by
  induction new generalizing r os with
  | nil =>
    refine ⟨?_, rfl, ?_, rfl⟩
    · rw [List.append_nil]
      exact h
    · cases r.policy <;> rfl
  | cons o rest ih =>
    have first := h.offer o
    have others := ih first.keeps
    refine ⟨?_, others.policy.trans first.policy, ?_, ?_⟩
    · rw [List.append_cons]
      exact others.keeps
    · show (r.takes o).2 ++ (Registry.run takes (r.takes o).1 rest).2 = _
      rw [others.warnings, first.warnings, first.policy, ← Offer.told_append]
      simp only [Offer.conflicts, List.append_nil]
    · have hfirst := first.growth
      have hothers := others.growth
      simp only [Offer.conflicts, List.length_append, List.length_nil, List.length_cons,
        Nat.add_zero] at hfirst hothers ⊢
      show (Registry.run takes (r.takes o).1 rest).1.size + _ = _
      omega

/-- A call other than a clearance makes its offers. -/
theorem Keeps.call (h : Keeps r os) {c : Call} (hc : c ≠ .clear) :
    Changes r os c.offers (c.perform r) := by
  cases c with
  | register g =>
    show Changes r os g.offers (r.register g)
    rw [register_eq]
    exact h.run _
  | load gs =>
    show Changes r os (gs.flatMap Registration.offers) (r.load gs)
    rw [load_eq]
    exact h.run _
  | clear => exact absurd rfl hc

theorem keeps_empty (policy : ConflictPolicy) : Keeps { policy } [] :=
  ⟨fun _ => rfl, List.nodup_nil⟩

theorem Keeps.perform (h : Keeps r os) (c : Call) :
    Keeps (c.perform r).1 (offered os [c]) ∧ (c.perform r).1.policy = r.policy := by
  cases hc : c with
  | clear => exact ⟨⟨fun _ => rfl, List.nodup_nil⟩, rfl⟩
  | register | load =>
    all_goals
      have changes := h.call (c := c) (by rw [hc]; simp)
      rw [hc] at changes
      exact ⟨changes.keeps, changes.policy⟩

theorem keeps_history (h : Keeps r os) (calls : List Call) :
    Keeps (r.behind calls) (offered os calls) ∧ (r.behind calls).policy = r.policy := by
  induction calls generalizing r os with
  | nil => exact ⟨h, rfl⟩
  | cons c rest ih =>
    obtain ⟨keeps, same⟩ := h.perform c
    obtain ⟨keeps', same'⟩ := ih keeps
    exact ⟨keeps', same'.trans same⟩

/-- The fallback of a name or a call. -/
def wildcard? : Test Node → Option SlotTest
  | .name _ => some .anyName
  | .call _ _ => some .anyCall
  | _ => none

/-- What offers make of a look-up. -/
def found (os : List Offer) (classes : ClassTable) (ty : Ty) (step : Step Node) : List Navigator :=
  (classes.walk ty).flatMap fun super =>
    (Offer.first os ⟨super.key, step.axis, .ofTest step.test⟩).toList ++
      ((wildcard? step.test).bind fun wide => Offer.first os ⟨super.key, step.axis, wide⟩).toList

theorem Keeps.lookup (h : Keeps r os) (classes : ClassTable) (ty : Ty) (step : Step Node) :
    r.lookup classes ty step = found os classes ty step := by
  unfold Registry.lookup found candidatesAt
  refine congrArg (List.flatMap · _) (funext fun super => ?_)
  have wide : (SlotTest.ofTest step.test).fallback? = wildcard? step.test := by
    cases step.test <;> rfl
  have each : (fun wide => r.holder? ⟨super.key, step.axis, wide⟩) =
      fun wide => Offer.first os ⟨super.key, step.axis, wide⟩ := funext fun _ => h.holds _
  rw [h.holds, wide, each]

/-- Histories whose first offers agree have the same first offers behind the same calls. -/
theorem first_offered {os os' : List Offer} (h : ∀ slot, Offer.first os slot = Offer.first os' slot)
    (calls : List Call) (slot : Slot) :
    Offer.first (offered os calls) slot = Offer.first (offered os' calls) slot := by
  induction calls generalizing os os' with
  | nil => exact h slot
  | cons c rest ih =>
    cases c with
    | clear => rfl
    | register | load =>
      all_goals
        refine ih fun slot => ?_
        simp only [Offer.first_append, h]

/-- A registry that started empty is a map in which the first registration wins: slots hold the first
offer since the last clearance, and each is counted once. A call that is not a clearance fills the
slots that it is the first to offer, and the rest of its pairs are dropped, with a warning each under
the policy to report. Look-ups go up the supertypes, at each of them from the exact slot to its
wildcard, and do not see in which order loads of different slots were made. -/
theorem first_registration_wins (policy : ConflictPolicy) (calls : List Call) :
    let r : Registry := behind { policy } calls
    let os := offered [] calls
    (∀ slot, r.holder? slot = Offer.first os slot) ∧
      r.size = (os.map Offer.slot).toFinset.card ∧
      (∀ c : Call, c ≠ .clear →
        (c.perform r).1.size + (Offer.conflicts os c.offers).length = r.size + c.pairs ∧
        (c.perform r).2 = Offer.told policy (Offer.conflicts os c.offers)) ∧
      (∀ classes ty step, r.lookup classes ty step = found os classes ty step) ∧
      ∀ gs hs : List Registration,
        (∀ o ∈ gs.flatMap Registration.offers, ∀ o' ∈ hs.flatMap Registration.offers,
          o.slot ≠ o'.slot) →
        ∀ later classes ty step,
          (r.behind (.load gs :: .load hs :: later)).lookup classes ty step =
            (r.behind (.load hs :: .load gs :: later)).lookup classes ty step := by
  intro r os
  obtain ⟨keeps, same⟩ := keeps_history (keeps_empty policy) calls
  refine ⟨keeps.holds, keeps.size, fun c hc => ?_, keeps.lookup, fun gs hs apart later classes ty step => ?_⟩
  · have changes := keeps.call hc
    refine ⟨?_, ?_⟩
    · rw [← c.length_offers]
      exact changes.growth
    · rw [changes.warnings, same]
  · rw [(keeps_history keeps _).1.lookup, (keeps_history keeps _).1.lookup]
    have agree (slot : Slot) :
        Offer.first (offered os (.load gs :: .load hs :: later)) slot =
          Offer.first (offered os (.load hs :: .load gs :: later)) slot := by
      refine first_offered (fun slot => ?_) later slot
      show Offer.first (os ++ gs.flatMap Registration.offers ++ hs.flatMap Registration.offers) slot =
        Offer.first (os ++ hs.flatMap Registration.offers ++ gs.flatMap Registration.offers) slot
      rw [List.append_assoc, List.append_assoc, Offer.first_append, Offer.first_append os,
        Offer.first_comm apart]
    unfold found
    rw [funext agree]

/-- A registration with a repeated test, behind a clearance and then once more. -/
theorem first_registration_wins_repeated :
    let g : Registration := ⟨.object, [.child], [.name "a", .name "a"], .namedProperty⟩
    let h : Registration := ⟨.string, [.child], [.name "a"], .identity⟩
    let r : Registry := behind { policy := .report } [.load [g, h], .clear, .register g]
    (r.size = 1 ∧ r.holder? ⟨"String", .child, .name "a"⟩ = none) ∧
      (r.register g).1.size + 2 = r.size + 2 ∧
      (r.register g).2 = [.navigatorConflict .object .child "a" "reflect-property" "reflect-property",
        .navigatorConflict .object .child "a" "reflect-property" "reflect-property"] ∧
      ∀ later classes ty step,
        (r.behind (.load [g] :: .load [h] :: later)).lookup classes ty step =
          (r.behind (.load [h] :: .load [g] :: later)).lookup classes ty step := by
  intro g h r
  obtain ⟨holds, size, calls, -, commute⟩ :=
    first_registration_wins .report [.load [g, h], .clear, .register g]
  obtain ⟨growth, warnings⟩ := calls (.register g) (by simp)
  refine ⟨⟨size, holds _⟩, growth, warnings, commute [g] [h] fun o ho o' ho' => ?_⟩
  have left : o.slot.key = "Object" := by
    have all : ∀ o ∈ [g].flatMap Registration.offers, o.slot.key = "Object" := by decide
    exact all o ho
  have right : o'.slot.key = "String" := by
    have all : ∀ o ∈ [h].flatMap Registration.offers, o.slot.key = "String" := by decide
    exact all o' ho'
  intro same
  rw [← same, left] at right
  exact absurd right (by decide)

end Registry

end NavScript
