import Mathlib.Data.Multiset.AddSub
import NavScript.Proofs.Traverse

/-!
# Attempts

An attempt is a value with the accesses that were made for it, in no order, or nothing where the
evaluation failed. Two evaluations that do not depend on each other may be done in either order
(`Attempt.bind_comm`), so a list can be worked on element by element or step by step
(`Attempt.mapM_bind`).
-/

namespace NavScript

inductive Attempt (ε α : Type) where
  | failed
  | done (a : α) (accesses : Multiset ε)

namespace Attempt

variable {ε α β γ : Type}

/-- The attempt after some accesses more. -/
def after (s : Multiset ε) : Attempt ε α → Attempt ε α
  | failed => failed
  | done a t => done a (s + t)

instance : Monad (Attempt ε) where
  pure a := done a 0
  bind
    | failed, _ => failed
    | done a s, f => (f a).after s

@[simp] theorem failed_bind (f : α → Attempt ε β) : failed >>= f = failed := rfl

@[simp] theorem done_bind (a : α) (s : Multiset ε) (f : α → Attempt ε β) :
    done a s >>= f = (f a).after s := rfl

@[simp] theorem after_zero (x : Attempt ε α) : x.after 0 = x := by
  cases x with
  | failed => rfl
  | done a s => rw [after, Multiset.zero_add]

theorem after_after (s t : Multiset ε) (x : Attempt ε α) : (x.after t).after s = x.after (s + t) := by
  cases x with
  | failed => rfl
  | done a u => simp only [after, Multiset.add_assoc]

theorem after_bind (s : Multiset ε) (x : Attempt ε α) (f : α → Attempt ε β) :
    x.after s >>= f = (x >>= f).after s := by
  cases x with
  | failed => rfl
  | done a t => exact (after_after s t (f a)).symm

instance : LawfulMonad (Attempt ε) := by
  refine LawfulMonad.mk' _ (fun x => ?_) (fun a f => ?_) (fun x f g => ?_)
  · cases x with
    | failed => rfl
    | done a s =>
      show done a (s + 0) = done a s
      rw [Multiset.add_zero]
  · exact after_zero _
  · cases x with
    | failed => rfl
    | done a s => rw [done_bind, done_bind, after_bind]

/-- Evaluations that do not depend on each other can change places. -/
theorem bind_comm (x : Attempt ε α) (y : Attempt ε β) (f : α → β → Attempt ε γ) :
    (x >>= fun a => y >>= fun b => f a b) = y >>= fun b => x >>= fun a => f a b := by
  cases x with
  | failed => cases y <;> rfl
  | done a s =>
    cases y with
    | failed => rfl
    | done b t => simp only [done_bind, after_after, Multiset.add_comm s t]

/-- The value that an attempt has, if it has one. -/
instance : Membership α (Attempt ε α) := ⟨fun x a => ∃ s, x = done a s⟩

theorem mem_done {a b : α} {s : Multiset ε} : b ∈ done a s ↔ b = a := by
  constructor
  · rintro ⟨t, h⟩
    cases h
    rfl
  · rintro rfl
    exact ⟨s, rfl⟩

@[simp] theorem mem_pure {a b : α} : b ∈ (pure a : Attempt ε α) ↔ b = a := mem_done

@[simp] theorem not_mem_failed {a : α} : a ∉ (failed : Attempt ε α) := by
  rintro ⟨s, h⟩
  cases h

theorem mem_after {x : Attempt ε α} {s : Multiset ε} {a : α} : a ∈ x.after s ↔ a ∈ x := by
  cases x with
  | failed => rfl
  | done b t => rw [after, mem_done, mem_done]

@[simp] theorem mem_bind {x : Attempt ε α} {f : α → Attempt ε β} {b : β} :
    b ∈ x >>= f ↔ ∃ a ∈ x, b ∈ f a := by
  cases x with
  | failed => simp
  | done a s => simp only [done_bind, mem_after, mem_done, exists_eq_left]

@[simp] theorem mem_map {x : Attempt ε α} {f : α → β} {b : β} :
    b ∈ f <$> x ↔ ∃ a ∈ x, b = f a := by
  rw [← bind_pure_comp, mem_bind]
  simp only [mem_pure]

/-- What comes behind an evaluation matters at its result only. -/
theorem bind_congr {x : Attempt ε α} {f g : α → Attempt ε β} (h : ∀ a ∈ x, f a = g a) :
    x >>= f = x >>= g := by
  cases x with
  | failed => rfl
  | done a s => rw [done_bind, done_bind, h a ⟨s, rfl⟩]

/-- Attempts run without a state. -/
def runs : Runs (Attempt ε) Unit where
  rel x _ a _ := a ∈ x
  pure_iff := by simp
  bind_iff := by simp

theorem mapM_pairs {f : α → Attempt ε β} {as : List α} {bs : List β} (h : bs ∈ as.mapM f) :
    ∃ zs : List (α × β), zs.map Prod.fst = as ∧ zs.map Prod.snd = bs ∧ ∀ z ∈ zs, z.2 ∈ f z.1 := by
  have run : runs.rel (as.mapM f) () bs () := h
  obtain ⟨zs, has, hbs, all⟩ := runs.runs_mapM.1 run
  refine ⟨zs, has, hbs, fun z hz => ?_⟩
  obtain ⟨_, _, own⟩ := all.each z hz
  exact own

theorem mem_mapM {f : α → Attempt ε β} {as : List α} {bs : List β} (h : bs ∈ as.mapM f) :
    ∀ b ∈ bs, ∃ a ∈ as, b ∈ f a := by
  obtain ⟨zs, rfl, rfl, own⟩ := mapM_pairs h
  intro b hb
  obtain ⟨z, hz, rfl⟩ := List.mem_map.1 hb
  exact ⟨z.1, List.mem_map_of_mem hz, own z hz⟩

theorem length_of_mem_mapM {f : α → Attempt ε β} {as : List α} {bs : List β}
    (h : bs ∈ as.mapM f) : bs.length = as.length := by
  obtain ⟨zs, rfl, rfl, -⟩ := mapM_pairs h
  rw [List.length_map, List.length_map]

theorem exists_mem_mapM {f : α → Attempt ε β} {as : List α} (h : ∀ a ∈ as, ∃ b, b ∈ f a) :
    ∃ bs, bs ∈ as.mapM f := by
  induction as with
  | nil => exact ⟨[], mem_pure.2 rfl⟩
  | cons a as ih =>
    obtain ⟨b, hb⟩ := h a (List.mem_cons_self ..)
    obtain ⟨bs, hbs⟩ := ih fun c hc => h c (List.mem_cons_of_mem _ hc)
    refine ⟨b :: bs, ?_⟩
    rw [List.mapM_cons]
    exact mem_bind.2 ⟨b, hb, mem_bind.2 ⟨bs, hbs, mem_pure.2 rfl⟩⟩

theorem mapM_congr {f g : α → Attempt ε β} {as : List α} (h : ∀ a ∈ as, f a = g a) :
    as.mapM f = as.mapM g := by
  induction as with
  | nil => rfl
  | cons a as ih =>
    rw [List.mapM_cons, List.mapM_cons, h a (List.mem_cons_self ..),
      ih fun b hb => h b (List.mem_cons_of_mem _ hb)]

theorem mapM_pure (f : α → β) (as : List α) :
    (as.mapM fun a => pure (f a) : Attempt ε (List β)) = pure (as.map f) := by
  induction as with
  | nil => rfl
  | cons a as ih => simp only [List.mapM_cons, ih, pure_bind, List.map_cons]

theorem mapM_map (φ : β → γ) (f : α → Attempt ε β) (as : List α) :
    (as.mapM fun a => φ <$> f a) = List.map φ <$> as.mapM f := by
  induction as with
  | nil => rfl
  | cons a as ih =>
    rw [List.mapM_cons, List.mapM_cons, ih]
    simp only [map_eq_pure_bind, bind_assoc, pure_bind, List.map_cons]

/-- Two steps on every element, or the first on all and then the second on all. -/
theorem mapM_bind (f : α → Attempt ε β) (g : β → Attempt ε γ) (as : List α) :
    (as.mapM fun a => f a >>= g) = as.mapM f >>= fun bs => bs.mapM g := by
  induction as with
  | nil => simp only [List.mapM_nil, pure_bind]
  | cons a as ih =>
    simp only [List.mapM_cons, ih, bind_assoc, pure_bind]
    refine bind_congr fun b _ => ?_
    exact bind_comm (g b) (as.mapM f) fun c bs => bs.mapM g >>= fun cs => pure (c :: cs)

end Attempt

end NavScript
