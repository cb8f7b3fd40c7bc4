import NavScript.Proofs.Ledger
import NavScript.Proofs.Registrations

/-!
# What becomes of arguments

A call is answered by a call of a method, which has the arguments of the step, or by the read of a
property, which has none (`Scopes.resolve_call`, `Setup.Installed.callSlots`). So an answer that is no read
has what is in the arguments (`given_of_answer`), and where no property is filed under calls only steps
without arguments are read (`children_of_read`).
-/

namespace NavScript

def SlotTest.isCall : SlotTest → Bool
  | .call _ | .anyCall => true
  | _ => false

/-- A call of a method with the arguments of the step. -/
def Request.Called (r : Request) (n : Node) : Prop := ∃ owner name ty, n = r.methodCall owner name ty

def Node.isRead (n : Node) : Bool := n.label == "PropertyRead"

/-- Whatever the navigator answers is as wanted. -/
def Navigator.Answers (wanted : Request → Node → Prop) (navigator : Navigator) : Prop :=
  ∀ r n, navigator.apply r = some n → wanted r n

namespace Navigator

theorem namedMethod_called : namedMethod.Answers Request.Called := by
  intro r n h
  obtain ⟨name, -, h⟩ := Option.bind_eq_some_iff.1 h
  obtain ⟨found, -, rfl⟩ := Option.map_eq_some_iff.1 h
  exact ⟨_, _, _, rfl⟩

theorem fixedMethod_called (label method : String) : (fixedMethod label method).Answers Request.Called := by
  intro r n h
  obtain ⟨found, -, rfl⟩ := Option.map_eq_some_iff.1 h
  exact ⟨_, _, _, rfl⟩

theorem fixedProperty_read (label property : String) :
    (fixedProperty label property).Answers fun _ n => n.isRead = true := by
  intro r n h
  obtain ⟨found, -, rfl⟩ := Option.map_eq_some_iff.1 h
  rfl

theorem Alias.answers {navigator : Navigator} (h : navigator.Alias) :
    navigator.Answers fun r n => r.Called n ∨ n.isRead = true := by
  intro r n found
  cases h with
  | property label property => exact .inr (fixedProperty_read label property r n found)
  | method label method => exact .inl (fixedMethod_called label method r n found)

end Navigator

namespace Registry

/-- What is filed under calls answers as wanted. -/
def CallSlots (wanted : Request → Node → Prop) (r : Registry) : Prop :=
  ∀ slot ∈ r.slots, slot.1.test.isCall = true → slot.2.Answers wanted

variable {wanted : Request → Node → Prop}

theorem CallSlots.load {r : Registry} (h : r.CallSlots wanted) {gs : List Registration}
    (hgs : ∀ g ∈ gs, ∀ test ∈ g.tests, test.isCall = true → g.navigator.Answers wanted) :
    (r.load gs).1.CallSlots wanted := by
  rw [load_eq]
  have offers : ∀ o ∈ gs.flatMap Registration.offers, o.test.isCall = true →
      o.navigator.Answers wanted := by
    intro o ho
    obtain ⟨g, hg, ho⟩ := List.mem_flatMap.1 ho
    obtain ⟨axis, -, ho⟩ := List.mem_flatMap.1 ho
    obtain ⟨test, htest, rfl⟩ := List.mem_map.1 ho
    exact hgs g hg test htest
  generalize gs.flatMap Registration.offers = os at offers
  induction os generalizing r with
  | nil => exact h
  | cons o rest ih =>
    refine ih ?_ fun o' ho' => offers o' (List.mem_cons_of_mem _ ho')
    rw [takes_eq]
    split
    · intro slot hs
      rcases List.mem_append.1 hs with hs | hs
      · exact h slot hs
      · rw [List.mem_singleton.1 hs]
        exact offers o (List.mem_cons_self ..)
    · split <;> exact h

theorem callSlots_standard (policy : ConflictPolicy) (called : ∀ r n, r.Called n → wanted r n) :
    (standard policy).CallSlots wanted := by
  have none : CallSlots wanted { policy } := fun _ h => absurd h List.not_mem_nil
  refine none.load fun g hg => ?_
  simp only [Navigator.standard, List.mem_cons, List.not_mem_nil, or_false] at hg
  rcases hg with rfl | rfl | rfl
  · intro test ht hc
    rw [List.mem_singleton.1 ht] at hc
    cases hc
  · intro test ht hc
    rw [List.mem_singleton.1 ht] at hc
    cases hc
  · exact fun _ _ _ r n h => called r n (Navigator.namedMethod_called r n h)

theorem CallSlots.mem_lookup {r : Registry} (h : r.CallSlots wanted) {classes : ClassTable} {ty : Ty}
    {step : Step Node} {x : String} {args : List Node} (test : step.test = .call x args)
    {navigator : Navigator} (mem : navigator ∈ r.lookup classes ty step) : navigator.Answers wanted := by
  have held {slot : Slot} (call : slot.test.isCall = true)
      (hk : navigator ∈ (r.holder? slot).toList) : navigator.Answers wanted := by
    rw [Option.mem_toList] at hk
    obtain ⟨before, after, heq, -⟩ := List.lookup_eq_some_iff.1 hk
    exact h (slot, navigator) (by rw [heq]; simp) call
  simp only [lookup, candidatesAt, test, List.mem_flatMap, List.mem_append] at mem
  obtain ⟨super, -, mem | mem⟩ := mem
  · exact held rfl mem
  · exact held rfl mem

end Registry

/-- Under calls there are methods, and what manifests file there. -/
theorem Setup.Installed.callSlots {s : Setup} (h : s.Installed) :
    s.navigators.CallSlots fun r n => r.Called n ∨ n.isRead = true := by
  induction h with
  | ofConfig config => exact Registry.callSlots_standard _ fun _ _ => .inl
  | install _ read ih =>
    exact ih.load fun g hg _ _ _ => (Manifest.read_alias read g hg).answers

section

variable {wanted : Request → Node → Prop} (called : ∀ r n, r.Called n → wanted r n)
include called

/-- An answer to a call is a call of a method, or comes from a navigator that is filed under calls. -/
theorem Scope.resolve_call {cx : Lookup} (slots : cx.navigators.CallSlots wanted) {scope : Scope}
    {step : Step Node} {place : Place} {x : String} {args : List Node} (test : step.test = .call x args)
    {n : Node} (h : scope.resolve cx step place = some n) :
    ∃ r : Request, r.step = step ∧ wanted r n := by
  have unnamed : step.childName? = none := by
    unfold Step.childName?
    rw [test]
    cases step.axis <;> rfl
  have candidate {ty : Ty} {receiver : Node} (h : resolveFrom cx ty receiver step = some n) :
      ∃ r : Request, r.step = step ∧ wanted r n := by
    obtain ⟨navigator, mem, found⟩ := List.exists_of_findSome?_eq_some h
    exact ⟨_, rfl, slots.mem_lookup test mem _ _ found⟩
  cases scope with
  | imports names =>
    cases place <;> simp [resolve, resolveImport, unnamed] at h
  | method locals =>
    cases place <;> simp [resolve, resolveLocal, unnamed] at h
  | typeDecl ty methods =>
    cases place with
    | tail => cases h
    | head =>
      unfold resolve resolveMember at h
      simp only [test] at h
      cases haxis : step.axis <;> simp only [haxis, reduceCtorEq] at h
      split at h
      · cases h
        exact ⟨_, rfl, called _ _ ⟨_, _, _, rfl⟩⟩
      · obtain ⟨found, -, rfl⟩ := Option.map_eq_some_iff.1 h
        exact ⟨_, rfl, called _ _ ⟨_, _, _, rfl⟩⟩
  | bound ty origin =>
    cases origin <;> cases place
    · cases h
    · exact candidate h
    · exact candidate h
    · cases h

theorem Scopes.resolve_call {cx : Lookup} (slots : cx.navigators.CallSlots wanted) {scopes : Scopes}
    {step : Step Node} {place : Place} {x : String} {args : List Node} (test : step.test = .call x args)
    {n : Node} (h : scopes.resolve cx step place = some n) :
    ∃ r : Request, r.step = step ∧ wanted r n := by
  obtain ⟨scope, -, h⟩ := List.exists_of_findSome?_eq_some h
  exact Scope.resolve_call called slots test h

end

theorem Test.children_of_ne_call {α : Type} {t : Test α} (h : ∀ x args, t ≠ .call x args) :
    t.children = [] := by
  cases t
  case call x args => exact absurd rfl (h x args)
  all_goals rfl

section

variable {α : Type} {own : Node → List α} {bind : String → List α}

/-- An answer that is no read has what is in the arguments. -/
theorem given_of_answer (carried : Carried own bind) {cx : Lookup}
    (slots : cx.navigators.CallSlots fun r n => r.Called n ∨ n.isRead = true) {scopes : Scopes}
    {step : Step Node} {place : Place} {n : Node} (h : scopes.resolve cx step place = some n)
    (other : n.isRead = false) : step.given own ⊆ n.gather own := by
  by_cases call : ∃ x args, step.test = .call x args
  · obtain ⟨x, args, test⟩ := call
    obtain ⟨r, rfl, ⟨owner, name, ty, rfl⟩ | read⟩ :=
      Scopes.resolve_call (fun _ _ => .inl) slots test h
    · rw [Request.methodCall, carried.gather_methodCall]
      exact List.subset_append_right ..
    · rw [other] at read
      cases read
  · unfold Step.given
    rw [Test.children_of_ne_call fun x args test => call ⟨x, args, test⟩]
    exact List.nil_subset _

end

/-- Where methods alone are filed under calls, what is read has no arguments. -/
theorem children_of_read {cx : Lookup} (slots : cx.navigators.CallSlots Request.Called) {scopes : Scopes}
    {step : Step Node} {place : Place} {n : Node} (h : scopes.resolve cx step place = some n)
    (read : n.isRead = true) : step.test.children = [] := by
  refine Test.children_of_ne_call fun x args test => ?_
  obtain ⟨r, -, owner, name, ty, rfl⟩ := Scopes.resolve_call (fun _ _ => id) slots test h
  exact absurd read (by simp [Node.isRead, Node.label, Request.methodCall, Kind.label])

end NavScript
