/-!
# Sets of code points

A character property is a table of ranges of code points, first and last included. Each range starts
after the one before it has ended, so a search can stop at the first that starts behind the code
point (`contains_iff`).
-/

namespace NavScript.Text

/-- Each range starts after the one before it has ended. -/
def ascending : List (Nat × Nat) → Bool
  | [] => true
  | [(first, last)] => first ≤ last
  | (first, last) :: (next, stop) :: rest =>
    first ≤ last && last < next && ascending ((next, stop) :: rest)

structure Ranges where
  table : List (Nat × Nat)
  sorted : ascending table = true := by decide +kernel

namespace Ranges

def search : List (Nat × Nat) → Nat → Bool
  | [], _ => false
  | (first, last) :: rest, n => if n < first then false else n ≤ last || search rest n

def contains (r : Ranges) (n : Nat) : Bool := search r.table n

theorem ascending_cons {first last : Nat} {rest : List (Nat × Nat)}
    (h : ascending ((first, last) :: rest) = true) :
    first ≤ last ∧ (∀ range ∈ rest, last < range.1) ∧ ascending rest = true := by
  induction rest generalizing first last with
  | nil => exact ⟨by simpa [ascending] using h, by simp, rfl⟩
  | cons range rest ih =>
    simp only [ascending, Bool.and_eq_true, decide_eq_true_eq] at h
    obtain ⟨⟨le, lt⟩, others⟩ := h
    obtain ⟨le', behind, -⟩ := ih others
    refine ⟨le, fun r hr => ?_, others⟩
    rcases List.mem_cons.1 hr with rfl | hr
    · exact lt
    · have := behind r hr
      omega

/-- The search misses no range, although it stops early. -/
theorem search_iff {table : List (Nat × Nat)} (sorted : ascending table = true) (n : Nat) :
    search table n = true ↔ ∃ range ∈ table, range.1 ≤ n ∧ n ≤ range.2 := by
  induction table with
  | nil => simp [search]
  | cons range rest ih =>
    obtain ⟨first, last⟩ := range
    obtain ⟨le, behind, others⟩ := ascending_cons sorted
    simp only [search, List.mem_cons, exists_eq_or_imp]
    by_cases hn : n < first
    · simp only [hn, if_true, Bool.false_eq_true, false_iff, not_or, not_exists, not_and]
      refine ⟨fun h => by omega, fun r hr h => ?_⟩
      have := behind r hr
      omega
    · simp only [hn, if_false, Bool.or_eq_true, decide_eq_true_eq, ih others]
      have : first ≤ n := by omega
      simp [this]

/-- A code point is found if and only if a range of the table holds it. -/
theorem contains_iff (r : Ranges) (n : Nat) :
    r.contains n = true ↔ ∃ range ∈ r.table, range.1 ≤ n ∧ n ≤ range.2 :=
  search_iff r.sorted n

end Ranges

end NavScript.Text
