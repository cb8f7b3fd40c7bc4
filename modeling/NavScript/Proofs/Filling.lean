import Mathlib.Data.List.Basic
import NavScript.Proofs.Trees

/-!
# Children in their places

The outline of a node keeps all of its own data and the number of children in each place. Children
can be put into a node exactly if there are as many as it has places (`Kind.exists_fill_iff`); what is
made of them has the same outline, and is the only node that has it and these children
(`Kind.fill_eq_some`). An action on the children in their places is the action on the list of them, from
the first to the last, with its results put in (`Kind.fill_mapM`).
-/

namespace NavScript

variable {α β γ : Type}

def Test.outline (t : Test α) : Test Unit := t.map fun _ => ()

def Step.outline (s : Step α) : Step Unit := s.map fun _ => ()

/-- The own data of a node, with only the number of children in each place. -/
def Kind.outline (k : Kind α) : Kind Unit := k.map fun _ => ()

theorem Test.length_of_outline {t : Test α} {t' : Test β} (h : t'.outline = t.outline) :
    t'.children.length = t.children.length := by
  simpa [outline] using congrArg (fun u => u.children.length) h

theorem Kind.length_of_outline {k : Kind α} {k' : Kind β} (h : k'.outline = k.outline) :
    k'.children.length = k.children.length := by
  simpa [outline] using congrArg (fun u => u.children.length) h

theorem fillList_map (f : α → γ) (old : List α) (new : List β) :
    fillList (old.map f) new = fillList old new := by
  simp [fillList]

theorem Test.outline_fill (t : Test α) (new : List β) : t.outline.fill new = t.fill new := by
  cases t
  case call n args => simp only [outline, map, fill, fillList_map]
  all_goals rfl

theorem Step.outline_fill (s : Step α) (new : List β) : s.outline.fill new = s.fill new := by
  have count : s.outline.test.children.length = s.test.children.length :=
    Test.length_of_outline (t := s.test) (Test.map_map _ _ s.test)
  have test : s.outline.test.fill (new.take s.test.children.length) =
      s.test.fill (new.take s.test.children.length) := s.test.outline_fill _
  have predicates : fillList s.outline.predicates (new.drop s.test.children.length) =
      fillList s.predicates (new.drop s.test.children.length) := fillList_map _ _ _
  simp only [fill, count, test, predicates]
  rfl

theorem fillSteps_outline : ∀ (steps : List (Step α)) (new : List β),
    fillSteps (steps.map (·.outline)) new = fillSteps steps new
  | [], [] => rfl
  | [], _ :: _ => rfl
  | s :: rest, new => by
    have count : s.outline.children.length = s.children.length := by simp [Step.outline]
    simp only [List.map_cons, fillSteps, count, Step.outline_fill, fillSteps_outline rest]

theorem Kind.outline_fill (k : Kind α) (new : List β) : k.outline.fill new = k.fill new := by
  cases k
  case stream steps =>
    simp only [outline, map, fill]
    exact congrArg (Option.map stream) (fillSteps_outline steps new)
  case script | sequence | call | methodDecl => simp only [outline, map, fill, fillList_map]
  case methodCall => cases new <;> simp only [outline, map, fill, fillList_map]
  all_goals
    rcases new with _ | ⟨_, _ | ⟨_, _ | ⟨_, _ | _⟩⟩⟩
    all_goals rfl

theorem fillList_self (items : List α) : fillList items items = some items := by
  simp [fillList]

theorem Test.fill_children (t : Test α) : t.fill t.children = some t := by
  cases t <;> simp [fill, children, fillList_self]

theorem Step.fill_children (s : Step α) : s.fill s.children = some s := by
  simp [fill, children, Test.fill_children, fillList_self]

theorem fillSteps_children : ∀ steps : List (Step α),
    fillSteps steps (steps.flatMap (·.children)) = some steps
  | [] => rfl
  | s :: rest => by
    simp [fillSteps, Step.fill_children, fillSteps_children rest]

theorem Kind.fill_children (k : Kind α) : k.fill k.children = some k := by
  cases k <;> simp [fill, children, fillList_self, fillSteps_children]

theorem fillList_made {old : List α} {new items : List β} (h : fillList old new = some items) :
    items = new ∧ items.map (fun _ => ()) = old.map fun _ => () := by
  unfold fillList at h
  split at h
  · cases h
    simpa [List.map_const']
  · cases h

theorem Test.fill_made {t : Test α} {t' : Test β} {new : List β} (h : t.fill new = some t') :
    t'.children = new ∧ t'.outline = t.outline := by
  cases t
  all_goals
    obtain ⟨items, hitems, rfl⟩ := Option.map_eq_some_iff.1 h
    obtain ⟨rfl, hlen⟩ := fillList_made hitems
  case call n args => exact ⟨rfl, congrArg (Test.call n) hlen⟩
  all_goals exact ⟨(List.map_eq_nil_iff.1 hlen).symm, rfl⟩

theorem Step.fill_made {s : Step α} {s' : Step β} {new : List β} (h : s.fill new = some s') :
    s'.children = new ∧ s'.outline = s.outline := by
  simp only [fill, Option.bind_eq_bind, Option.bind_eq_some_iff, Option.pure_def,
    Option.some.injEq] at h
  obtain ⟨test, htest, predicates, hpredicates, rfl⟩ := h
  obtain ⟨htest, tested⟩ := Test.fill_made htest
  obtain ⟨hpredicates, counted⟩ := fillList_made hpredicates
  refine ⟨?_, ?_⟩
  · simp only [children, htest, hpredicates, List.take_append_drop]
  · simp only [Test.outline] at tested
    simp only [outline, map, tested, counted]

theorem fillSteps_made : ∀ {steps : List (Step α)} {steps' : List (Step β)} {new : List β},
    fillSteps steps new = some steps' →
      steps'.flatMap (·.children) = new ∧ steps'.map (·.outline) = steps.map (·.outline)
  | [], _, [], h => by
    cases h
    exact ⟨rfl, rfl⟩
  | s :: rest, _, new, h => by
    simp only [fillSteps, Option.bind_eq_bind, Option.bind_eq_some_iff, Option.pure_def,
      Option.some.injEq] at h
    obtain ⟨step, hstep, steps, hsteps, rfl⟩ := h
    obtain ⟨hstep, outlined⟩ := Step.fill_made hstep
    obtain ⟨hsteps, others⟩ := fillSteps_made hsteps
    simp only [List.flatMap_cons, List.map_cons, hstep, hsteps, outlined, others,
      List.take_append_drop, and_self]

theorem Kind.fill_made {k : Kind α} {k' : Kind β} {new : List β} (h : k.fill new = some k') :
    k'.children = new ∧ k'.outline = k.outline := by
  cases k
  case stream steps =>
    obtain ⟨steps', hsteps, rfl⟩ := Option.map_eq_some_iff.1 h
    obtain ⟨hnew, outlined⟩ := fillSteps_made hsteps
    exact ⟨hnew, congrArg stream outlined⟩
  case script | sequence | call | methodDecl =>
    obtain ⟨items, hitems, rfl⟩ := Option.map_eq_some_iff.1 h
    obtain ⟨rfl, counted⟩ := fillList_made hitems
    simp only [children, outline, map, counted, and_self]
  case methodCall =>
    rcases new with _ | ⟨target, new⟩
    · cases h
    · obtain ⟨args, hargs, rfl⟩ := Option.map_eq_some_iff.1 h
      obtain ⟨rfl, counted⟩ := fillList_made hargs
      simp only [children, outline, map, counted, and_self]
  -- every other kind has a fixed number of places, at most three
  all_goals
    rcases new with _ | ⟨_, _ | ⟨_, _ | ⟨_, _ | _⟩⟩⟩
    all_goals cases h
    all_goals exact ⟨rfl, rfl⟩

/-- An outline and children make one node. -/
theorem Kind.fill_eq_some {k : Kind α} {k' : Kind β} {new : List β} :
    k.fill new = some k' ↔ k'.children = new ∧ k'.outline = k.outline := by
  constructor
  · exact fill_made
  · rintro ⟨rfl, outlined⟩
    rw [← k.outline_fill, ← outlined, k'.outline_fill, k'.fill_children]

theorem exists_fillList {old : List α} {new : List β} (h : new.length = old.length) :
    ∃ items, fillList old new = some items :=
  ⟨new, if_pos h⟩

theorem Test.exists_fill {t : Test α} {new : List β} (h : new.length = t.children.length) :
    ∃ t', t.fill new = some t' := by
  cases t
  all_goals
    obtain ⟨items, hitems⟩ := exists_fillList h
    exact ⟨_, congrArg (Option.map _) hitems⟩

theorem Step.exists_fill {s : Step α} {new : List β} (h : new.length = s.children.length) :
    ∃ s', s.fill new = some s' := by
  simp only [children, List.length_append] at h
  have front : (new.take s.test.children.length).length = s.test.children.length := by
    rw [List.length_take]
    omega
  have back : (new.drop s.test.children.length).length = s.predicates.length := by
    rw [List.length_drop]
    omega
  obtain ⟨test, htest⟩ := Test.exists_fill front
  obtain ⟨predicates, hpredicates⟩ := exists_fillList back
  exact ⟨⟨s.span, s.axis, test, predicates⟩, by simp [fill, htest, hpredicates]⟩

theorem exists_fillSteps : ∀ {steps : List (Step α)} {new : List β},
    new.length = (steps.flatMap (·.children)).length → ∃ steps', fillSteps steps new = some steps'
  | [], [], _ => ⟨[], rfl⟩
  | s :: rest, new, h => by
    simp only [List.flatMap_cons, List.length_append] at h
    have front : (new.take s.children.length).length = s.children.length := by
      rw [List.length_take]
      omega
    have back : (new.drop s.children.length).length = (rest.flatMap (·.children)).length := by
      rw [List.length_drop]
      omega
    obtain ⟨step, hstep⟩ := Step.exists_fill front
    obtain ⟨steps, hsteps⟩ := exists_fillSteps back
    exact ⟨step :: steps, by simp [fillSteps, hstep, hsteps]⟩

theorem Kind.exists_fill {k : Kind α} {new : List β} (h : new.length = k.children.length) :
    ∃ k', k.fill new = some k' := by
  cases k
  case stream steps =>
    obtain ⟨steps', hsteps⟩ := exists_fillSteps h
    exact ⟨_, congrArg (Option.map stream) hsteps⟩
  case script | sequence | call | methodDecl =>
    obtain ⟨items, hitems⟩ := exists_fillList h
    exact ⟨_, congrArg (Option.map _) hitems⟩
  case methodCall t owner n args =>
    obtain ⟨t', args', rfl⟩ := List.exists_cons_of_length_eq_add_one h
    obtain ⟨items, hitems⟩ := exists_fillList (Nat.succ.inj h)
    exact ⟨_, congrArg (Option.map _) hitems⟩
  case literal | name | this | stacked | localRef | typeRef | stackOp =>
    obtain rfl := List.length_eq_zero_iff.1 h
    exact ⟨_, rfl⟩
  case localDecl | propertyRead | convert | toSequence | collect | isNull =>
    obtain ⟨e, rfl⟩ := List.length_eq_one_iff.1 h
    exact ⟨_, rfl⟩
  case binary | operatorCall | pipe | letIn =>
    obtain ⟨l, r, rfl⟩ := List.length_eq_two.1 h
    exact ⟨_, rfl⟩
  case conditional =>
    obtain ⟨c, t, e, rfl⟩ := List.length_eq_three.1 h
    exact ⟨_, rfl⟩

/-- Children can be put in exactly if there are as many as there are places. -/
theorem Kind.exists_fill_iff {k : Kind α} {new : List β} :
    (∃ k', k.fill new = some k') ↔ new.length = k.children.length := by
  constructor
  · rintro ⟨k', h⟩
    obtain ⟨rfl, outlined⟩ := fill_made h
    exact length_of_outline outlined
  · exact exists_fill

section

variable {m : Type → Type} [Monad m] [LawfulMonad m]

/-- What an action on a list results in is as long as the list. -/
theorem bind_mapM_congr {f : α → m β} : ∀ {as : List α} {g h : List β → m γ},
    (∀ bs, bs.length = as.length → g bs = h bs) → as.mapM f >>= g = as.mapM f >>= h
  | [], g, h, same => by simpa using same [] rfl
  | a :: as, g, h, same => by
    simp only [List.mapM_cons, bind_assoc, pure_bind]
    refine bind_congr fun b => bind_mapM_congr fun bs hbs => ?_
    exact same (b :: bs) (by simp [hbs])

theorem fillList_mapM (f : α → m β) (items : List α) (make : List β → γ) :
    (fun bs => (fillList items bs).map make) <$> items.mapM f =
      some <$> (do return make (← items.mapM f)) := by
  simp only [map_eq_pure_bind, bind_assoc, pure_bind]
  exact bind_mapM_congr fun bs hbs => by simp [fillList, hbs]

/-- What is filled from two lists, one behind the other, is filled from what comes of both. -/
theorem append_mapM {δ ε : Type} {f : α → m β} {as as' : List α} {first : List β → Option γ}
    {second : List β → Option δ} {whole : List β → Option ε} {make : γ → δ → ε} {x : m γ} {y : m δ}
    (parted : ∀ front back, front.length = as.length →
      whole (front ++ back) = (first front).bind fun c => (second back).map (make c))
    (hx : first <$> as.mapM f = some <$> x) (hy : second <$> as'.mapM f = some <$> y) :
    whole <$> (as ++ as').mapM f = some <$> (do return make (← x) (← y)) := by
  let rest (c : Option γ) : m (Option ε) :=
    (fun d => c.bind fun c => d.map (make c)) <$> (second <$> as'.mapM f)
  -- what the second list results in is split off by the length of what the first does
  calc whole <$> (as ++ as').mapM f
      = as.mapM f >>= fun front => rest (first front) := by
        simp only [List.mapM_append, map_bind, map_pure]
        refine bind_mapM_congr fun front hfront => ?_
        simp only [rest, map_eq_pure_bind, bind_assoc, pure_bind, parted front _ hfront]
    _ = (first <$> as.mapM f) >>= rest := (bind_map_left ..).symm
    _ = some <$> (do return make (← x) (← y)) := by
        rw [hx]
        simp [rest, hy]

theorem Test.fill_mapM (f : α → m β) (t : Test α) :
    t.fill <$> t.children.mapM f = some <$> t.mapM f := by
  cases t
  case call n args => exact fillList_mapM f args (call n)
  all_goals simp [children, mapM, fill, fillList]

theorem Step.fill_mapM (f : α → m β) (s : Step α) :
    s.fill <$> s.children.mapM f = some <$> s.mapM f := by
  have predicates : fillList s.predicates <$> s.predicates.mapM f =
      some <$> s.predicates.mapM f := by
    simpa using fillList_mapM f s.predicates id
  refine append_mapM (fun front back hfront => ?_) (Test.fill_mapM f s.test) predicates
  simp only [fill, ← hfront, List.take_left, List.drop_left, Option.map_eq_bind]
  rfl

theorem fillSteps_mapM (f : α → m β) : ∀ steps : List (Step α),
    fillSteps steps <$> (steps.flatMap (·.children)).mapM f = some <$> steps.mapM (·.mapM f)
  | [] => by simp [fillSteps]
  | s :: rest => by
    rw [List.flatMap_cons, List.mapM_cons]
    refine append_mapM (fun front back hfront => ?_) (s.fill_mapM f) (fillSteps_mapM f rest)
    simp only [fillSteps, ← hfront, List.take_left, List.drop_left, Option.map_eq_bind]
    rfl

/-- An action on the children of a node: what comes of them in their order is put in their place. -/
theorem Kind.fill_mapM (f : α → m β) (k : Kind α) :
    k.fill <$> k.children.mapM f = some <$> k.mapM f := by
  cases k
  case stream steps =>
    have filled : Option.map stream <$> fillSteps steps <$> (steps.flatMap (·.children)).mapM f =
        Option.map stream <$> some <$> steps.mapM (·.mapM f) := by rw [fillSteps_mapM]
    simp only [Functor.map_map] at filled
    refine filled.trans ?_
    simp [mapM]
  case script items => exact fillList_mapM f items script
  case sequence items => exact fillList_mapM f items sequence
  case call n args => exact fillList_mapM f args (call n)
  case methodDecl d => exact fillList_mapM f d.body fun body => methodDecl { d with body }
  case methodCall t owner n args =>
    simpa [mapM, children, fill] using
      bind_congr fun t => fillList_mapM f args fun args => methodCall t owner n args
  all_goals simp [children, mapM, fill]

end

@[simp] theorem Kind.outline_map (f : α → β) (k : Kind α) : (k.map f).outline = k.outline :=
  k.map_map f _

/-- Where children are put in the place of others, one node holds both in pairs. -/
theorem Kind.exists_pairs {k : Kind α} {k' : Kind β} {zs : List (α × β)}
    (old : zs.map Prod.fst = k.children) (h : k.fill (zs.map Prod.snd) = some k') :
    ∃ z : Kind (α × β), z.children = zs ∧ z.map Prod.fst = k ∧ z.map Prod.snd = k' := by
  obtain ⟨z, hz⟩ : ∃ z, k.fill zs = some z := k.exists_fill (by rw [← old, List.length_map])
  obtain ⟨rfl, outlined⟩ := fill_made hz
  refine ⟨z, rfl, ?_, ?_⟩
  · have same : k.fill k.children = some (z.map Prod.fst) :=
      fill_eq_some.2 ⟨(children_map ..).trans old, (outline_map ..).trans outlined⟩
    exact Option.some.inj (same.symm.trans k.fill_children)
  · have made : k.fill (z.children.map Prod.snd) = some (z.map Prod.snd) :=
      fill_eq_some.2 ⟨children_map .., (outline_map ..).trans outlined⟩
    exact Option.some.inj (made.symm.trans h)

end NavScript
