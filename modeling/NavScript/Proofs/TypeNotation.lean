import NavScript.Proofs.Scanning
import NavScript.Ty.Text

/-!
# The notation of types

What a text denotes is a relation between texts and types, built like the grammar

    type := (primitive | `null` | path [`<` type (`,` type)* `>`]) (`[]`)*

with blanks in front of every token. `readType` takes the longest path there is and never goes
back, and still finds every derivation: no token that may follow a path starts with a path
character, and where a path may be followed by `<` it is always read as the opening bracket.
So reading and the grammar agree (`parse?_eq_some`), each text denotes one type at most, and the
types a text can denote are those whose rendering denotes them again (`Notable`).
-/

namespace NavScript

/-- Path characters make up the whole name and package, the name has no dot, and what is written
without a package is neither empty nor a word that stands for another type. -/
structure ClassName.Notable (c : ClassName) : Prop where
  undotted : '.' ∉ c.name.toList
  name : ∀ x ∈ c.name.toList, Ty.isPathChar x = true
  package : ∀ p ∈ c.package, ∀ x ∈ p.toList, Ty.isPathChar x = true
  free : c.package = none → c.name ≠ "" ∧ Prim.ofName? c.name = none ∧ c.name ≠ "null"

namespace Ty

/-- Blanks, which may stand in front of a token. -/
def Blank (s : List Char) : Prop := ∀ c ∈ s, c = ' '

/-- A path that names a class: not empty, made of path characters and no reserved word. -/
structure IsPath (p : List Char) : Prop where
  nonempty : p ≠ []
  chars : ∀ c ∈ p, isPathChar c = true
  kind : Prim.ofName? (String.ofList p) = none
  word : p ≠ "null".toList

mutual

/-- The text denotes the type, with blanks in front of its tokens and none at the end. The name of
a class is what follows the last dot of its path. -/
inductive Written : List Char → Ty → Prop
  | prim {s} (k : Prim) : Blank s → Written (s ++ k.name.toList) (.prim k)
  | null {s} : Blank s → Written (s ++ "null".toList) .null
  | named {s} {c : ClassName} :
      Blank s → IsPath c.render.toList → '.' ∉ c.name.toList →
        Written (s ++ c.render.toList) (.named c)
  | app {s w u v} {c : ClassName} {t ts} :
      Blank s → IsPath c.render.toList → '.' ∉ c.name.toList → Blank w → Written u t →
        WrittenRest v ts → Written (s ++ c.render.toList ++ w ++ '<' :: (u ++ v)) (.app c (t :: ts))
  | array {u s t} : Written u t → Blank s → Written (u ++ s ++ ['[', ']']) (.array t)

/-- The text denotes the arguments after the first one, with the closing bracket. -/
inductive WrittenRest : List Char → List Ty → Prop
  | close {s} : Blank s → WrittenRest (s ++ ['>']) []
  | more {s u v t ts} :
      Blank s → Written u t → WrittenRest v ts → WrittenRest (s ++ ',' :: (u ++ v)) (t :: ts)

end

/-- What a whole text denotes, with blanks at its end. -/
def Denotes (text : String) (t : Ty) : Prop :=
  ∃ u s, text.toList = u ++ s ∧ Written u t ∧ Blank s

mutual

/-- The types whose rendering denotes them: each class is written as a path, and a class is applied
to one argument at least. -/
def Notable : Ty → Prop
  | prim _ | null => True
  | named c => c.Notable
  | app c ts => c.Notable ∧ ts ≠ [] ∧ NotableList ts
  | array t => Notable t

def NotableList : List Ty → Prop
  | [] => True
  | t :: ts => Notable t ∧ NotableList ts

end

section Blanks

variable {s s' cs : List Char}

theorem Blank.append (h : Blank s) (h' : Blank s') : Blank (s ++ s') := by
  intro c hc
  rcases List.mem_append.1 hc with hc | hc
  · exact h c hc
  · exact h' c hc

theorem blank_nil : Blank [] := nofun

theorem skipSpaces_blank (h : Blank s) (cs : List Char) : skipSpaces (s ++ cs) = skipSpaces cs := by
  induction s with
  | nil => rfl
  | cons c s ih =>
    obtain rfl : c = ' ' := h c List.mem_cons_self
    exact ih fun x hx => h x (List.mem_cons_of_mem _ hx)

theorem skipSpaces_cons {c : Char} (h : c ≠ ' ') (cs : List Char) :
    skipSpaces (c :: cs) = c :: cs := by
  rw [skipSpaces]
  rintro cs' ⟨⟩
  exact h rfl

/-- What is skipped is blank. -/
theorem skipSpaces_splits (cs : List Char) : ∃ s, Blank s ∧ cs = s ++ skipSpaces cs := by
  fun_induction skipSpaces cs with
  | case1 cs ih =>
    obtain ⟨s, hs, e⟩ := ih
    exact ⟨' ' :: s, fun c hc => (List.mem_cons.1 hc).elim id (hs c), by rw [List.cons_append, ← e]⟩
  | case2 cs _ => exact ⟨[], blank_nil, rfl⟩

theorem skipSpaces_idem (cs : List Char) : skipSpaces (skipSpaces cs) = skipSpaces cs := by
  obtain ⟨s, hs, e⟩ := skipSpaces_splits cs
  rw [← skipSpaces_blank hs, ← e]

theorem skipSpaces_eq_nil : skipSpaces cs = [] ↔ Blank cs := by
  constructor
  · intro h
    obtain ⟨s, hs, e⟩ := skipSpaces_splits cs
    rw [h, List.append_nil] at e
    exact e ▸ hs
  · intro h
    simpa [skipSpaces] using skipSpaces_blank h []

theorem readArguments_skipSpaces (fuel : Nat) (cs : List Char) :
    readArguments fuel (skipSpaces cs) = readArguments fuel cs := by
  cases fuel with
  | zero => rfl
  | succ fuel => rw [readArguments, readArguments, skipSpaces_idem]

/-- Blanks in front of a type belong to its first token. -/
theorem Written.blank_append {u : List Char} {t : Ty} (hs : Blank s) :
    Written u t → Written (s ++ u) t
  | .prim k h => by
    rw [← List.append_assoc]
    exact .prim k (hs.append h)
  | .null h => by
    rw [← List.append_assoc]
    exact .null (hs.append h)
  | .named h hp hd => by
    rw [← List.append_assoc]
    exact .named (hs.append h) hp hd
  | .app h hp hd h' hu hv => by
    simp only [← List.append_assoc]
    simpa only [List.append_assoc] using Written.app (hs.append h) hp hd h' hu hv
  | .array hu h => by
    simp only [← List.append_assoc]
    exact .array (Written.blank_append hs hu) h

theorem WrittenRest.blank_append {v : List Char} {ts : List Ty} (hs : Blank s) :
    WrittenRest v ts → WrittenRest (s ++ v) ts
  | .close h => by
    rw [← List.append_assoc]
    exact .close (hs.append h)
  | .more h hu hv => by
    rw [← List.append_assoc]
    exact .more (hs.append h) hu hv

end Blanks

section Names

variable {c : ClassName} {p q n : List Char}

theorem undotted_reverse (h : '.' ∉ n) : ∀ x ∈ n.reverse, decide (x ≠ '.') = true := by
  intro x hx
  simp only [ne_eq, decide_eq_true_eq]
  rintro rfl
  exact h (List.mem_reverse.1 hx)

theorem classNameOfPath_plain (h : '.' ∉ p) : classNameOfPath p = ⟨String.ofList p, none⟩ := by
  simp only [classNameOfPath, List.dropWhile_eq_nil_iff.2 (undotted_reverse h)]

theorem classNameOfPath_dotted (h : '.' ∉ n) :
    classNameOfPath (q ++ '.' :: n) = ⟨String.ofList n, some (String.ofList q)⟩ := by
  have turned : (q ++ '.' :: n).reverse = n.reverse ++ '.' :: q.reverse := by simp
  have taken : (n.reverse ++ '.' :: q.reverse).takeWhile (· ≠ '.') = n.reverse := by
    rw [List.takeWhile_append_of_pos (undotted_reverse h)]
    simp
  have left : (n.reverse ++ '.' :: q.reverse).dropWhile (· ≠ '.') = '.' :: q.reverse := by
    rw [List.dropWhile_append_of_pos (undotted_reverse h)]
    simp
  simp only [classNameOfPath, turned, taken, left, List.reverse_reverse]

/-- A path has no dot, or it has a last one. -/
theorem path_cases (p : List Char) : '.' ∉ p ∨ ∃ q n, '.' ∉ n ∧ p = q ++ '.' :: n := by
  by_cases h : '.' ∈ p.reverse
  · obtain ⟨n, q, e, hn⟩ := List.eq_append_cons_of_mem h
    refine .inr ⟨q.reverse, n.reverse, by simpa using hn, ?_⟩
    simpa using congrArg List.reverse e
  · exact .inl (by simpa using h)

theorem render_classNameOfPath (p : List Char) :
    (classNameOfPath p).render.toList = p ∧ '.' ∉ (classNameOfPath p).name.toList := by
  obtain h | ⟨q, n, h, rfl⟩ := path_cases p
  · simpa [classNameOfPath_plain h, ClassName.render] using h
  · simpa [classNameOfPath_dotted h, ClassName.render] using h

theorem classNameOfPath_render (h : '.' ∉ c.name.toList) :
    classNameOfPath c.render.toList = c := by
  obtain ⟨n, _ | q⟩ := c
  · simpa [ClassName.render] using classNameOfPath_plain h
  · simpa [ClassName.render] using classNameOfPath_dotted (q := q.toList) h

/-- The words that stand for another type have no dot. -/
theorem undotted_of_reserved (h : Prim.ofName? (String.ofList p) ≠ none ∨ p = "null".toList) :
    '.' ∉ p := by
  rcases h with h | rfl
  · obtain ⟨k, hk⟩ := Option.ne_none_iff_exists'.1 h
    have e : k.name = String.ofList p := by simpa using List.find?_some hk
    have : '.' ∉ k.name.toList := by cases k <;> decide
    simpa [e] using this
  · decide

/-- The rendering of a class is a path exactly when the class is notable. -/
theorem isPath_render (h : '.' ∉ c.name.toList) : IsPath c.render.toList ↔ c.Notable := by
  obtain ⟨n, _ | q⟩ := c
  · constructor
    · rintro ⟨nonempty, chars, kind, word⟩
      refine ⟨h, by simpa [ClassName.render] using chars, nofun, fun _ => ⟨?_, ?_, ?_⟩⟩
      · rintro rfl
        exact nonempty rfl
      · simpa [ClassName.render] using kind
      · rintro rfl
        exact word rfl
    · rintro ⟨-, name, -, free⟩
      obtain ⟨nonempty, kind, word⟩ := free rfl
      refine ⟨?_, by simpa [ClassName.render] using name, by simpa [ClassName.render] using kind, ?_⟩
      · simpa [ClassName.render] using nonempty
      · exact fun e => word (String.toList_injective e)
  · have dotted : '.' ∈ (ClassName.render ⟨n, some q⟩).toList := by simp [ClassName.render]
    constructor
    · rintro ⟨-, chars, -, -⟩
      refine ⟨h, fun x hx => chars x ?_, fun p hp x hx => chars x ?_, nofun⟩
      · simp [ClassName.render, hx]
      · obtain rfl : q = p := by simpa using hp
        simp [ClassName.render, hx]
    · rintro ⟨-, name, package, -⟩
      refine ⟨?_, fun x hx => ?_, ?_, ?_⟩
      · exact List.ne_nil_of_mem dotted
      · have : x ∈ q.toList ∨ x = '.' ∨ x ∈ n.toList := by
          simpa [ClassName.render] using hx
        rcases this with hx | rfl | hx
        · exact package q rfl x hx
        · decide
        · exact name x hx
      · by_contra hk
        exact undotted_of_reserved (.inl hk) dotted
      · exact fun e => undotted_of_reserved (.inr e) dotted

end Names

section Complete

/-- What follows the path of a class: no more of the path, and no opening bracket. -/
structure Stops (rest : List Char) : Prop where
  parted : Stopped isPathChar rest
  bracket : ∀ c ∈ (skipSpaces rest).head?, c ≠ '<'

variable {s p rest : List Char}

theorem Blank.parted (hs : Blank s) (h : Stopped isPathChar rest) : Stopped isPathChar (s ++ rest) := by
  intro c hc
  cases s with
  | nil => exact h c hc
  | cons d s =>
    obtain rfl : d = ' ' := hs d List.mem_cons_self
    obtain rfl : ' ' = c := by simpa using hc
    decide

theorem Blank.stops (hs : Blank s) {c : Char} (hc : isPathChar c = false) (hn : c ≠ '<')
    (hb : c ≠ ' ') (cs : List Char) : Stops (s ++ c :: cs) where
  parted := hs.parted (stopped_cons hc cs)
  bracket x hx := by
    rw [skipSpaces_blank hs, skipSpaces_cons hb] at hx
    obtain rfl : c = x := by simpa using hx
    exact hn

theorem Blank.stops_end (hs : Blank s) : Stops s where
  parted := by simpa using hs.parted stopped_nil
  bracket := by simp [skipSpaces_eq_nil.2 hs]

/-- No path starts with a blank. -/
theorem skipSpaces_path (hs : Blank s) (hp : ∀ c ∈ p, isPathChar c = true) (hn : p ≠ [])
    (rest : List Char) : skipSpaces (s ++ p ++ rest) = p ++ rest := by
  rw [List.append_assoc, skipSpaces_blank hs]
  obtain ⟨c, p', rfl⟩ := List.exists_cons_of_ne_nil hn
  refine skipSpaces_cons ?_ _
  rintro rfl
  exact absurd (hp ' ' List.mem_cons_self) (by decide)

theorem Prim.name_isPath (k : Prim) :
    k.name.toList ≠ [] ∧ (∀ c ∈ k.name.toList, isPathChar c = true) ∧
      Prim.ofName? (String.ofList k.name.toList) = some k := by
  cases k <;> exact ⟨by decide, List.all_eq_true.1 (by decide), by decide⟩

theorem arraySuffixes_blank (hs : Blank s) (t : Ty) (cs : List Char) :
    arraySuffixes t (s ++ cs) = arraySuffixes t cs := by
  induction s with
  | nil => rfl
  | cons c s ih =>
    obtain rfl : c = ' ' := hs c List.mem_cons_self
    exact ih fun x hx => hs x (List.mem_cons_of_mem _ hx)

theorem arraySuffixes_skipSpaces (t : Ty) (cs : List Char) :
    arraySuffixes t (skipSpaces cs) = arraySuffixes t cs := by
  obtain ⟨s, hs, e⟩ := skipSpaces_splits cs
  have := arraySuffixes_blank hs t (skipSpaces cs)
  rwa [← e, eq_comm] at this

/-- Behind a type no suffix is read where the next token is another one. -/
theorem arraySuffixes_close (hs : Blank s) {c : Char} (hb : c ≠ ' ') (ha : c ≠ '[') (t : Ty)
    (cs : List Char) : arraySuffixes t (s ++ c :: cs) = (t, c :: cs) := by
  rw [arraySuffixes_blank hs]
  unfold arraySuffixes
  split
  · rename_i h
    exact absurd (List.cons.inj h).1 hb
  · rename_i h
    exact absurd (List.cons.inj h).1 ha
  · rfl

/-- What the arguments after the first one start with. -/
theorem WrittenRest.starts {v : List Char} {ts : List Ty} (h : WrittenRest v ts) :
    ∃ s c w, Blank s ∧ (c = ',' ∨ c = '>') ∧ v = s ++ c :: w := by
  cases h with
  | close hs => exact ⟨_, '>', [], hs, .inr rfl, rfl⟩
  | more hs hu hv => exact ⟨_, ',', _, hs, .inl rfl, rfl⟩

theorem WrittenRest.stops {v : List Char} {ts : List Ty} (h : WrittenRest v ts) :
    Stops (v ++ rest) := by
  obtain ⟨s, c, w, hs, rfl | rfl, rfl⟩ := h.starts
  all_goals
    rw [List.append_assoc]
    exact hs.stops (by decide) (by decide) (by decide) _

theorem WrittenRest.closes {v : List Char} {ts : List Ty} (h : WrittenRest v ts) (t : Ty) :
    arraySuffixes t (v ++ rest) = (t, skipSpaces (v ++ rest)) := by
  obtain ⟨s, c, w, hs, rfl | rfl, rfl⟩ := h.starts
  all_goals
    rw [List.append_assoc, List.cons_append, arraySuffixes_close hs (by decide) (by decide),
      skipSpaces_blank hs, skipSpaces_cons (by decide)]

end Complete

section Steps

variable {fuel : Nat} {cs rest : List Char}

/-- What a path is read as before suffixes, and what is left then, by what follows the path. -/
inductive Follows (fuel : Nat) (p r : List Char) : Ty → List Char → Prop
  | prim {k} : Prim.ofName? (String.ofList p) = some k → Follows fuel p r (.prim k) r
  | null : p = "null".toList → Follows fuel p r .null r
  | named : IsPath p → (∀ c ∈ (skipSpaces r).head?, c ≠ '<') →
      Follows fuel p r (.named (classNameOfPath p)) r
  | app {r' r₁ r₂ t ts} : IsPath p → skipSpaces r = '<' :: r' → readType fuel r' = some (t, r₁) →
      readArguments fuel r₁ = some (ts, r₂) → Follows fuel p r (.app (classNameOfPath p) (t :: ts)) r₂

/-- A type is read behind blanks, from the longest path there. -/
theorem readType_eq_some {x : Ty × List Char} :
    readType (fuel + 1) cs = some x ↔
      ∃ s p r t r', cs = s ++ p ++ r ∧ Blank s ∧ p ≠ [] ∧ (∀ c ∈ p, isPathChar c = true) ∧
        Stopped isPathChar r ∧ Follows fuel p r t r' ∧ arraySuffixes t r' = x := by
  constructor
  · intro h
    obtain ⟨s, hs, e⟩ := skipSpaces_splits cs
    have parts := List.takeWhile_append_dropWhile (p := isPathChar) (l := skipSpaces cs)
    have chars : ∀ c ∈ (skipSpaces cs).takeWhile isPathChar, isPathChar c = true :=
      fun c hc => List.mem_takeWhile_imp hc
    have parted := stopped_dropWhile (p := isPathChar) (skipSpaces cs)
    rw [readType] at h
    dsimp only at h
    generalize (skipSpaces cs).takeWhile isPathChar = p at h parts chars
    generalize (skipSpaces cs).dropWhile isPathChar = r at h parts parted
    rw [← parts, ← List.append_assoc] at e
    split at h
    · contradiction
    rename_i hn
    suffices found : ∃ t r', Follows fuel p r t r' ∧ arraySuffixes t r' = x by
      obtain ⟨t, r', hf, hx⟩ := found
      exact ⟨s, p, r, t, r', e, hs, by simpa using hn, chars, parted, hf, hx⟩
    split at h
    · rename_i k hk
      exact ⟨_, _, .prim hk, Option.some.inj h⟩
    rename_i hk
    split at h
    · rename_i hw
      exact ⟨_, _, .null hw, Option.some.inj h⟩
    rename_i hw
    have path : IsPath p := ⟨by simpa using hn, chars, hk, hw⟩
    split at h
    · rename_i r' hr
      obtain ⟨⟨t, r₁⟩, ht, h⟩ := Option.bind_eq_some_iff.1 h
      obtain ⟨⟨ts, r₂⟩, hts, h⟩ := Option.bind_eq_some_iff.1 h
      exact ⟨_, _, .app path hr ht hts, Option.some.inj h⟩
    · rename_i hr
      rw [arraySuffixes_skipSpaces] at h
      refine ⟨_, _, .named path fun c hc => ?_, Option.some.inj h⟩
      obtain ⟨r', hr'⟩ := List.head?_eq_some_iff.1 hc
      rintro rfl
      exact hr r' hr'
  · rintro ⟨s, p, r, t, r', rfl, hs, hn, hp, hr, hf, rfl⟩
    rw [readType]
    simp only [skipSpaces_path hs hp hn, takeWhile_run hp hr, dropWhile_run hp hr,
      List.isEmpty_iff, hn, if_false]
    cases hf with
    | prim hk => simp only [hk]
    | null hw =>
      subst hw
      rfl
    | named path hb =>
      simp only [path.kind, path.word, if_false]
      split
      · rename_i h
        exact absurd rfl (hb '<' (by rw [h]; rfl))
      · rw [arraySuffixes_skipSpaces]
    | app path hb ht hts =>
      simp only [path.kind, path.word, if_false, hb]
      simp [ht, hts]

theorem readArguments_eq_some {ts : List Ty} :
    readArguments (fuel + 1) cs = some (ts, rest) ↔
      (∃ r t r₁ ts', skipSpaces cs = ',' :: r ∧ readType fuel r = some (t, r₁) ∧
        readArguments fuel r₁ = some (ts', rest) ∧ ts = t :: ts') ∨
      (skipSpaces cs = '>' :: rest ∧ ts = []) := by
  rw [readArguments]
  constructor
  · intro h
    split at h
    · rename_i r hr
      obtain ⟨⟨t, r₁⟩, ht, h⟩ := Option.bind_eq_some_iff.1 h
      obtain ⟨⟨ts', r₂⟩, hts, h⟩ := Option.bind_eq_some_iff.1 h
      obtain ⟨rfl, rfl⟩ := Prod.mk.inj (Option.some.inj h)
      exact .inl ⟨r, t, r₁, ts', hr, ht, hts, rfl⟩
    · rename_i r hr
      obtain ⟨rfl, rfl⟩ := Prod.mk.inj (Option.some.inj h)
      exact .inr ⟨hr, rfl⟩
    · contradiction
  · rintro (⟨r, t, r₁, ts', hr, ht, hts, rfl⟩ | ⟨hr, rfl⟩)
    · simp [hr, ht, hts]
    · simp [hr]

end Steps

/-! ## What is written is read -/

mutual

/-- A type is read from a text that denotes it, whatever follows that is no part of it. -/
theorem Written.read {u : List Char} {t : Ty} :
    Written u t → ∀ {fuel : Nat} {rest : List Char}, u.length < fuel → Stops rest →
      readType fuel (u ++ rest) = some (arraySuffixes t rest)
  | .prim k hs, fuel + 1, rest, _, hr => by
    obtain ⟨hn, hp, hk⟩ := Prim.name_isPath k
    exact readType_eq_some.2 ⟨_, _, rest, _, rest, rfl, hs, hn, hp, hr.parted, .prim hk, rfl⟩
  | .null hs, fuel + 1, rest, _, hr =>
    readType_eq_some.2 ⟨_, _, rest, _, rest, rfl, hs, by decide,
      List.all_eq_true.1 (by decide), hr.parted, .null rfl, rfl⟩
  | .named hs hp hd, fuel + 1, rest, _, hr => by
    refine readType_eq_some.2 ⟨_, _, rest, _, rest, rfl, hs, hp.nonempty, hp.chars, hr.parted,
      .named hp hr.bracket, ?_⟩
    rw [classNameOfPath_render hd]
  | .app (w := s') (u := u) (v := v) hs hp hd hs' hu hv, fuel + 1, rest, hf, hr => by
    have bounds : u.length < fuel ∧ v.length < fuel := by
      simp only [List.length_append, List.length_cons] at hf
      omega
    have opening : skipSpaces (s' ++ '<' :: (u ++ (v ++ rest))) = '<' :: (u ++ (v ++ rest)) := by
      rw [skipSpaces_blank hs', skipSpaces_cons (by decide)]
    have parted : Stopped isPathChar (s' ++ '<' :: (u ++ (v ++ rest))) :=
      hs'.parted (stopped_cons (by decide) _)
    have first := hu.read bounds.1 (show Stops (v ++ rest) from hv.stops)
    have others : readArguments fuel (v ++ rest) = _ := hv.read bounds.2
    rw [hv.closes] at first
    rw [← readArguments_skipSpaces] at others
    refine readType_eq_some.2 ⟨_, _, s' ++ '<' :: (u ++ (v ++ rest)), _, rest, by simp, hs,
      hp.nonempty, hp.chars, parted, .app hp opening first others, ?_⟩
    rw [classNameOfPath_render hd]
  | .array (s := s) (u := u) hu hs, fuel, rest, hf, hr => by
    have shape : u ++ s ++ ['[', ']'] ++ rest = u ++ (s ++ '[' :: ']' :: rest) := by simp
    rw [shape, hu.read (by simp only [List.length_append] at hf; omega)
      (hs.stops (by decide) (by decide) (by decide) _), arraySuffixes_blank hs]
    rfl

/-- The arguments are read up to the bracket that closes them. -/
theorem WrittenRest.read {v : List Char} {ts : List Ty} :
    WrittenRest v ts → ∀ {fuel : Nat} {rest : List Char}, v.length < fuel →
      readArguments fuel (v ++ rest) = some (ts, rest)
  | .close (s := s) hs, fuel + 1, rest, _ => by
    refine readArguments_eq_some.2 (.inr ⟨?_, rfl⟩)
    rw [List.append_assoc, skipSpaces_blank hs]
    exact skipSpaces_cons (by decide) rest
  | .more (s := s) (u := u) (v := v) hs hu hv, fuel + 1, rest, hf => by
    have bounds : u.length < fuel ∧ v.length < fuel := by
      simp only [List.length_append, List.length_cons] at hf
      omega
    have comma : skipSpaces (s ++ ',' :: (u ++ v) ++ rest) = ',' :: (u ++ (v ++ rest)) := by
      rw [List.append_assoc, skipSpaces_blank hs, List.cons_append, skipSpaces_cons (by decide),
        List.append_assoc]
    have first := hu.read bounds.1 (show Stops (v ++ rest) from hv.stops)
    have others : readArguments fuel (v ++ rest) = _ := hv.read bounds.2
    rw [hv.closes] at first
    rw [← readArguments_skipSpaces] at others
    exact readArguments_eq_some.2 (.inl ⟨_, _, _, _, comma, first, others, rfl⟩)

end

/-! ## What is read is written -/

section Sound

/-- Blanks and suffixes behind a type. -/
theorem arraySuffixes_written {t t' : Ty} {u s cs rest : List Char} (hu : Written u t)
    (hs : Blank s) (h : arraySuffixes t cs = (t', rest)) :
    ∃ u' s', u ++ s ++ cs = u' ++ s' ++ rest ∧ Written u' t' ∧ Blank s' := by
  fun_induction arraySuffixes t cs generalizing u s with
  | case1 t cs ih =>
    obtain ⟨u', s', e, hu', hs'⟩ := ih hu (hs.append (show Blank [' '] by simp [Blank])) h
    exact ⟨u', s', by rw [← e]; simp, hu', hs'⟩
  | case2 t cs ih =>
    obtain ⟨u', s', e, hu', hs'⟩ := ih (hu.array hs) blank_nil h
    exact ⟨u', s', by rw [← e]; simp, hu', hs'⟩
  | case3 t cs =>
    obtain ⟨rfl, rfl⟩ := Prod.mk.inj h
    exact ⟨u, s, rfl, hu, hs⟩

/-- What a successful reading consumed is the text of the type and the blanks behind it. -/
theorem read_written (fuel : Nat) :
    (∀ {cs t rest}, readType fuel cs = some (t, rest) →
      ∃ u s, cs = u ++ s ++ rest ∧ Written u t ∧ Blank s) ∧
    (∀ {cs ts rest}, readArguments fuel cs = some (ts, rest) →
      ∃ v, cs = v ++ rest ∧ WrittenRest v ts) := by
  induction fuel with
  | zero => exact ⟨nofun, nofun⟩
  | succ fuel ih =>
    obtain ⟨ihType, ihRest⟩ := ih
    constructor
    · intro cs t rest h
      obtain ⟨s, p, r, t₀, r₀, rfl, hs, -, -, -, hf, ha⟩ := readType_eq_some.1 h
      suffices front : ∃ u, s ++ p ++ r = u ++ r₀ ∧ Written u t₀ by
        obtain ⟨u, e, hu⟩ := front
        obtain ⟨u', s', e', hu', hs'⟩ := arraySuffixes_written hu blank_nil ha
        exact ⟨u', s', by rw [e, ← e']; simp, hu', hs'⟩
      have path := render_classNameOfPath p
      cases hf with
      | @prim k hk =>
        have e : p = k.name.toList := by
          have : k.name = String.ofList p := by simpa using List.find?_some hk
          simp [this]
        exact ⟨s ++ p, rfl, e ▸ .prim k hs⟩
      | null hw => exact ⟨s ++ p, rfl, hw ▸ .null hs⟩
      | named hp hb =>
        refine ⟨s ++ p, rfl, ?_⟩
        have := Written.named hs (path.1.symm ▸ hp) path.2
        rwa [path.1] at this
      | app hp hb ht hts =>
        obtain ⟨u, s₁, rfl, hu, hs₁⟩ := ihType ht
        obtain ⟨v, rfl, hv⟩ := ihRest hts
        obtain ⟨s', hs', e⟩ := skipSpaces_splits r
        rw [hb] at e
        refine ⟨s ++ p ++ s' ++ '<' :: (u ++ (s₁ ++ v)), by rw [e]; simp, ?_⟩
        have := Written.app hs (path.1.symm ▸ hp) path.2 hs' hu (hv.blank_append hs₁)
        rwa [path.1] at this
    · intro cs ts rest h
      obtain ⟨s, hs, e⟩ := skipSpaces_splits cs
      obtain ⟨r, t, r₁, ts', hr, ht, hts, rfl⟩ | ⟨hr, rfl⟩ := readArguments_eq_some.1 h
      · obtain ⟨u, s₁, rfl, hu, hs₁⟩ := ihType ht
        obtain ⟨v, rfl, hv⟩ := ihRest hts
        exact ⟨s ++ ',' :: (u ++ (s₁ ++ v)), by rw [e, hr]; simp, .more hs hu (hv.blank_append hs₁)⟩
      · exact ⟨s ++ ['>'], by rw [e, hr]; simp, .close hs⟩

end Sound

section Whole

variable {text : String} {t : Ty}

/-- A text is read as a type exactly when it denotes this type. -/
theorem parse?_eq_some : parse? text = some t ↔ Denotes text t := by
  constructor
  · intro h
    unfold parse? at h
    split at h
    · rename_i t' rest hr
      obtain ⟨hb, ht⟩ := Option.ite_none_right_eq_some.1 h
      obtain rfl := Option.some.inj ht
      obtain ⟨u, s, e, hu, hs⟩ := (read_written _).1 hr
      have hrest : Blank rest := skipSpaces_eq_nil.1 (List.isEmpty_iff.1 hb)
      exact ⟨u, s ++ rest, by rw [e, List.append_assoc], hu, hs.append hrest⟩
    · contradiction
  · rintro ⟨u, s, e, hu, hs⟩
    have short : u.length < text.length + 1 := by
      rw [← String.length_toList, e, List.length_append]
      omega
    have suffix : arraySuffixes t s = (t, []) := by
      simpa [arraySuffixes] using arraySuffixes_blank hs t []
    simp [parse?, e, hu.read short hs.stops_end, suffix, skipSpaces]

theorem Denotes.unique {t' : Ty} (h : Denotes text t) (h' : Denotes text t') : t = t' :=
  Option.some.inj ((parse?_eq_some.2 h).symm.trans (parse?_eq_some.2 h'))

mutual

/-- What a text denotes is notable. -/
theorem Written.notable {u : List Char} {t : Ty} : Written u t → Notable t
  | .prim _ _ | .null _ => trivial
  | .named _ hp hd => (isPath_render hd).1 hp
  | .app _ hp hd _ hu hv => ⟨(isPath_render hd).1 hp, nofun, hu.notable, hv.notable⟩
  | .array hu _ => hu.notable

theorem WrittenRest.notable {v : List Char} {ts : List Ty} : WrittenRest v ts → NotableList ts
  | .close _ => trivial
  | .more _ hu hv => ⟨hu.notable, hv.notable⟩

end

mutual

/-- A notable type is denoted by its rendering. -/
theorem written_render : ∀ t : Ty, t.Notable → Written t.render.toList t
  | .prim k, _ => .prim k blank_nil
  | .null, _ => .null blank_nil
  | .named c, h => .named blank_nil ((isPath_render h.undotted).2 h) h.undotted
  | .app c (t :: ts), ⟨hc, _, ht, hts⟩ => by
    obtain ⟨v, e, hv⟩ := writtenRest_render t ts hts
    have := Written.app blank_nil ((isPath_render hc.undotted).2 hc) hc.undotted blank_nil
      (written_render t ht) hv
    simpa [render, e] using this
  | .array t, h => by
    have := (written_render t h).array blank_nil
    simpa [render] using this

/-- The arguments behind the first one are written with a blank behind each comma. -/
theorem writtenRest_render : ∀ (t : Ty) (ts : List Ty), NotableList ts →
    ∃ v, (renderList (t :: ts)).toList ++ ['>'] = t.render.toList ++ v ∧ WrittenRest v ts
  | t, [], _ => ⟨['>'], rfl, .close blank_nil⟩
  | t, t' :: ts, ⟨ht', hts⟩ => by
    obtain ⟨v, e, hv⟩ := writtenRest_render t' ts hts
    have blank : Blank [' '] := by simp [Blank]
    refine ⟨',' :: ' ' :: ((renderList (t' :: ts)).toList ++ ['>']), by simp [renderList], ?_⟩
    have := WrittenRest.more blank_nil ((written_render t' ht').blank_append blank) hv
    simpa [e] using this

end

theorem denotes_render (h : t.Notable) : Denotes t.render t :=
  ⟨t.render.toList, [], (List.append_nil _).symm, written_render t h, blank_nil⟩

theorem parse?_render (h : t.Notable) : parse? t.render = some t :=
  parse?_eq_some.2 (denotes_render h)

end Whole

/-- The notation is read exactly: a text is accepted if and only if the grammar derives it, with
the type it denotes as the result; an accepted type rendered and read again is the same type,
packages included, and so is each type made of names as they are read. -/
theorem notation_exact (text : String) (t : Ty) :
    (parse? text = some t ↔ Denotes text t) ∧
    (parse? text = some t → parse? t.render = some t) ∧
    (t.Notable → parse? t.render = some t) := by
  refine ⟨parse?_eq_some, fun h => ?_, parse?_render⟩
  obtain ⟨u, s, -, hu, -⟩ := parse?_eq_some.1 h
  exact parse?_render hu.notable

/-- An array of a class with package and two arguments, with blanks in odd places. -/
theorem notation_exact_spaced :
    let t := array (app ⟨"Map", some "util"⟩ [array (prim .int), .null])
    Denotes " util.Map < int [], null> []" t ∧ parse? t.render = some t ∧
      t.array.Notable ∧ parse? t.array.render = some t.array := by
  intro t
  obtain ⟨denotes, again, -⟩ := notation_exact " util.Map < int [], null> []" t
  obtain ⟨-, -, rendered⟩ := notation_exact "" t.array
  have accepted : parse? " util.Map < int [], null> []" = some t := by decide
  have package : ∀ p ∈ some "util", ∀ x ∈ p.toList, isPathChar x = true := by
    rintro p ⟨⟩
    exact List.all_eq_true.1 (by decide)
  have map : ClassName.Notable ⟨"Map", some "util"⟩ :=
    ⟨by decide, List.all_eq_true.1 (by decide), package, nofun⟩
  have notable : t.array.Notable := ⟨map, nofun, trivial, trivial, trivial⟩
  exact ⟨denotes.1 accepted, again accepted, notable, rendered notable⟩

example : parse? "int<String>" = none := by decide

end Ty

end NavScript
