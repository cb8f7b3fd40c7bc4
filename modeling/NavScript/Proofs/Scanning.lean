import Mathlib.Data.List.TakeWhile

/-!
# Scanning a run of characters

A scanner takes the longest run of characters of one kind. The run is the one that was written if
what follows it does not continue it.
-/

namespace NavScript

variable {p : Char → Bool} {run rest : List Char}

/-- What follows does not continue a run. -/
def Stopped (p : Char → Bool) (rest : List Char) : Prop := ∀ c ∈ rest.head?, p c = false

theorem stopped_nil : Stopped p [] := nofun

theorem stopped_cons {c : Char} (h : p c = false) (rest : List Char) : Stopped p (c :: rest) := by
  intro d hd
  obtain rfl : c = d := by simpa using hd
  exact h

theorem takeWhile_run (hr : ∀ c ∈ run, p c = true) (h : Stopped p rest) :
    (run ++ rest).takeWhile p = run := by
  rw [List.takeWhile_append_of_pos hr]
  cases rest with
  | nil => simp
  | cons c rest => simp [h c rfl]

theorem dropWhile_run (hr : ∀ c ∈ run, p c = true) (h : Stopped p rest) :
    (run ++ rest).dropWhile p = rest := by
  rw [List.dropWhile_append_of_pos hr]
  cases rest with
  | nil => simp
  | cons c rest => simp [h c rfl]

/-- What a scanner leaves does not continue the run. -/
theorem stopped_dropWhile (cs : List Char) : Stopped p (cs.dropWhile p) := by
  intro c hc
  have := List.head?_dropWhile_not p cs
  rw [Option.mem_def.1 hc] at this
  simpa using this

end NavScript
