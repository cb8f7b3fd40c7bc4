import NavScript.Proofs.Chains

/-!
# Links and stages on the machine

Single links: a step reads its receiver from the stack (`Movable.gives`), a condition keeps a value or
makes it null (`gives_keepIf`). Over a lazy sequence steps gather in a run, and a stage does the run on
every element (`Flows`); a filter asks no condition of null.
-/

namespace NavScript

open Machine Lower

variable {W : World} {locals : List (String × Value)} {b : Bool} {v : Value}
  {o : Attempt Access Value} {isA : Ty → Value → Prop} {classes : ClassTable}

/-- The arguments of a call. -/
def Node.arguments (n : Node) : List Node :=
  match n.kind with
  | .methodCall _ _ _ args => args
  | _ => []

/-- The node is evaluated on its own, whatever lies on the stack. -/
def Closed (W : World) (locals : List (String × Value)) (n : Node) : Prop :=
  Gives W locals n [] (W.evaluate locals n)

/-- Arguments are closed, also where an element is bound in front of them, and so are conditions on
every candidate. -/
def Link.Closed (W : World) (locals : List (String × Value)) : Link → Prop
  | step expr _ => ∀ a ∈ expr.arguments, NavScript.Closed W locals a ∧
      ∀ n v, Gives W ((freshName "e" n, v) :: locals) a [] (W.evaluate locals a)
  | predicate x cond _ => ∀ v, NavScript.Closed W ((x, v) :: locals) cond
  | reduce _ _ => True

namespace Movable

variable {receiver ty : Ty} {expr : Node}

theorem first (h : Movable classes receiver expr ty) : ReceiverFirst expr :=
  h.answer.elim fun _ answer => answer.first

theorem receiverTy (h : Movable classes receiver expr ty) : expr.receiverTy = some receiver :=
  h.answer.elim fun _ answer => answer.receiverTy

theorem stacked (h : Movable classes receiver expr ty) (hs : expr.isStacked = true) :
    ty = receiver := by
  obtain ⟨-, typed, step, answer⟩ := h
  cases answer with
  | receiver =>
    cases typed
    rfl
  | property | method => cases hs

theorem gives {locals' : List (String × Value)} (h : Movable classes receiver expr ty)
    (hargs : ∀ a ∈ expr.arguments, Gives W locals' a [] (W.evaluate locals a)) :
    Gives W locals' expr [v] (W.step locals expr v) := by
  obtain ⟨-, -, step, answer⟩ := h
  cases answer with
  | receiver => exact gives_stacked v
  | @property name found has =>
    have stacked : Gives W locals' (.stackedOf receiver) [v] (pure v) := gives_stacked v
    have read : Gives W locals' ⟨step.span, some found.ty, .propertyRead (.stackedOf receiver) name⟩
        [v] (pure v >>= fun v => W.reads v name) := gives_propertyRead stacked name
    rw [pure_bind] at read
    exact read
  | @method name found has =>
    have stacked : Gives W locals' (.stackedOf receiver) [v] (pure v) := gives_stacked v
    let args := Request.args ⟨step, .stackedOf receiver, receiver, classes⟩
    have call : Gives W locals'
        ⟨step.span, some found.ty, .methodCall (.stackedOf receiver) found.owner name args⟩ [v]
        (pure v >>= fun v => args.mapM (W.evaluate locals) >>= fun vs => W.calls v name vs) :=
      gives_methodCall stacked hargs
    rw [pure_bind] at call
    exact call

/-- A step to a primitive never leads to null. -/
theorem nonNull (h : Movable classes receiver expr ty) (hW : W.WellTyped isA classes) {t : Ty}
    (hv : Typed isA t v) (ht : SameMembers classes t receiver) (hnull : v.isNull = false)
    (hprim : ty.isPrimitive = true) {u : Value} (hu : u ∈ W.step locals expr v) :
    u.isNull = false := by
  have step := h.step hW hv ht hnull hu
  cases hs : expr.isStacked with
  | true =>
    rw [h.stacked hs, h.reference] at hprim
    cases hprim
  | false =>
    rw [hs, if_neg (by decide)] at step
    exact step.nonNull hprim

end Movable

theorem Value.eq_ofBool {verdict : Value} {b : Bool} (h : verdict.bool? = some b) :
    verdict = .ofBool b := by
  cases verdict with
  | lit l =>
    cases l <;> cases h
    rfl
  | object | list | seq | type => cases h

theorem gives_conditional {span : Span} {ty : Option Ty} {cond yes no : Node} {top : List Value}
    (h : Gives W locals cond top (pure (.ofBool b)))
    (hbranch : Gives W locals (if b then yes else no) [] o) :
    Gives W locals ⟨span, ty, .conditional cond yes no⟩ top o := by
  refine gives_mk.2 ?_
  rw [← pure_bind (Value.ofBool b) fun _ => o]
  refine Turns.bind h fun verdict hv => ?_
  rw [Attempt.mem_pure.1 hv]
  refine turns_branch ?_
  cases b with
  | true => exact hbranch
  | false => exact hbranch

/-- A condition decides between a value and null. -/
theorem gives_kept {span : Span} {ty : Option Ty} {cond yes no : Node}
    (h : Gives W locals cond [] o) (hyes : Gives W locals yes [] (pure v))
    (hno : Gives W locals no [] (pure .null)) :
    Gives W locals ⟨span, ty, .conditional cond yes no⟩ [] (o >>= Focus.keep v) := by
  refine gives_mk.2 (Turns.bind h fun verdict _ => ?_)
  unfold Focus.keep
  cases hb : verdict.bool? with
  | none =>
    exact fun stack log => ⟨.notBoolean, branch_none hb⟩
  | some kept =>
    rw [Value.eq_ofBool hb]
    refine turns_branch ?_
    cases kept with
    | true => exact hyes
    | false => exact hno

theorem gives_local {x : String} {ty : Ty} : Gives W ((x, v) :: locals) (.localOf x ty) [] (pure v) :=
  gives_localRef List.lookup_cons_self

theorem gives_keepIf {x : String} {cond : Node} {ty : Ty} (h : Closed W ((x, v) :: locals) cond) :
    Gives W locals (keepIf x cond ty) [v] (W.evaluate ((x, v) :: locals) cond >>= Focus.keep v) := by
  unfold keepIf
  rw [← pure_bind v fun v => W.evaluate ((x, v) :: locals) cond >>= Focus.keep v]
  refine gives_letIn (gives_stacked v) fun u hu => ?_
  rw [Attempt.mem_pure.1 hu]
  refine gives_kept h ?_ (gives_literal .null)
  split
  · exact gives_box gives_local
  · exact gives_local

/-- Null satisfies no condition, except that one over primitives is asked of null too. -/
theorem gives_nullSafe {x : String} {cond : Node} {elem : Ty} {blind : Bool}
    (h : Closed W ((x, v) :: locals) cond) (hblind : v.isNull = true → blind = elem.isPrimitive) :
    Gives W ((x, v) :: locals) (nullSafe x cond elem) []
      (if v.isNull && !blind then pure (.ofBool false)
        else W.evaluate ((x, v) :: locals) cond) := by
  have asked : (v.isNull && !blind) = (v.isNull && !elem.isPrimitive) := by
    cases hv : v.isNull with
    | true => rw [hblind hv]
    | false => rfl
  rw [asked]
  unfold nullSafe
  split
  · rename_i he
    rw [he, Bool.not_true, Bool.and_false, if_neg (by decide)]
    exact h
  · rename_i he
    have test : Gives W ((x, v) :: locals)
        { ty := some .boolean, kind := .isNull (.localOf x elem) } []
        (pure (.ofBool v.isNull)) := by
      have candidate : Gives W ((x, v) :: locals) (.localOf x elem) [] (pure v) := gives_local
      have isNull : Gives W ((x, v) :: locals)
          { ty := some .boolean, kind := .isNull (.localOf x elem) } []
          ((fun v => .ofBool v.isNull) <$> pure v) := gives_isNull candidate
      rw [map_pure] at isNull
      exact isNull
    rw [Bool.eq_false_iff.2 he, Bool.not_false, Bool.and_true]
    refine gives_conditional test ?_
    cases v.isNull with
    | true => exact gives_literal (.bool false)
    | false => exact h

theorem streams_filter {n : Node} {top : List Value} {os : Attempt Access (List Value)}
    {x : String} {cond : Node} {elem : Ty} {blind : Bool} (h : Streams W locals n top os)
    (hcond : ∀ v, Closed W ((x, v) :: locals) cond)
    (hblind : ∀ items ∈ os, ∀ i ∈ items, i.isNull = true → blind = elem.isPrimitive) :
    Streams W locals (pipeOf .filter n x (nullSafe x cond elem) elem) top
      (os >>= fun items => List.flatten <$> items.mapM fun v =>
        if v.isNull && !blind then pure []
        else
          (fun verdict => if verdict.bool? = some true then [v] else []) <$>
            W.evaluate ((x, v) :: locals) cond) := by
  have piped : Streams W locals (pipeOf .filter n x (nullSafe x cond elem) elem) top
      (os >>= fun items => List.flatten <$> items.mapM fun v =>
        (fun verdict : Value => if verdict.bool? = some true then [v] else []) <$>
          (if v.isNull && !blind then pure (.ofBool false)
            else W.evaluate ((x, v) :: locals) cond)) :=
    streams_pipe h (fun items hi i hm => gives_nullSafe (hcond i) (hblind items hi i hm))
      fun _ _ _ _ _ _ => rfl
  have same : (fun items : List Value => List.flatten <$> items.mapM fun v =>
      (fun verdict : Value => if verdict.bool? = some true then [v] else []) <$>
        (if v.isNull && !blind then pure (.ofBool false)
          else W.evaluate ((x, v) :: locals) cond)) =
      fun items : List Value => List.flatten <$> items.mapM fun v =>
        if v.isNull && !blind then pure []
        else
          (fun verdict => if verdict.bool? = some true then [v] else []) <$>
            W.evaluate ((x, v) :: locals) cond := by
    funext items
    refine congrArg (List.flatten <$> ·) (Attempt.mapM_congr fun v _ => ?_)
    cases v.isNull && !blind with
    | true => exact map_pure ..
    | false => rfl
  rw [same] at piped
  exact piped

/-- The types of a sequence under construction: of its elements, and of the run on them. -/
inductive Drawn (s : Sight) (source : Source) : List Node → Prop
  | flushed (elem : source.elem = s.ty ∨ source.elem = s.ty.boxed)
    (boxed : s.gaps = .boxed → source.elem.isPrimitive = false)
    (hidden : s.gaps = .hidden → source.elem = s.ty) : Drawn s source []
  | running {run : List Node} (reference : source.elem.isPrimitive = false)
    (chained : Chained run s.ty) (hidden : s.gaps ≠ .hidden) : Drawn s source run

/-- A sequence under construction makes the attempt of the value `v` on the stack: what its elements
are, or what the run on each of them leads to. -/
inductive Flows (isA : Ty → Value → Prop) (W : World) (locals : List (String × Value)) (b : Bool)
    (source : Source) (ty : Ty) (v : Value) : List Node → Attempt Access (List Value) → Prop
  | flushed {os : Attempt Access (List Value)} (h : Streams W locals source.node [v] os) :
    Flows isA W locals b source ty v [] os
  | running {run : List Node} {os : Attempt Access (List Value)} {k : Value → Attempt Access Value}
    (some : run ≠ []) (h : Streams W locals source.node [v] os)
    (leads : ∀ items ∈ os, ∀ i ∈ items, ∀ n,
      Leads W ((freshName "e" n, i) :: locals) b (.localOf (freshName "e" n) source.elem :: run) ty
        [] (k i))
    (typed : ∀ items ∈ os, ∀ i ∈ items, ∀ u ∈ k i, NullOr isA ty u) :
    Flows isA W locals b source ty v run (os >>= fun items => items.mapM k)

section

variable {s : Sight} {source : Source} {run : List Node} {os : Attempt Access (List Value)}

theorem Drawn.reference (h : Drawn s source run) (href : s.ty.isPrimitive = false) :
    source.elem.isPrimitive = false := by
  cases h with
  | flushed elem _ _ =>
    rcases elem with elem | elem
    · rw [elem, href]
    · rw [elem, s.ty.boxed_reference]
  | running reference _ _ => exact reference

/-- Without a run the elements are those in view, or boxes of them. -/
theorem Drawn.elem (h : Drawn s source []) :
    (source.elem = s.ty ∨ source.elem = s.ty.boxed) ∧
      (s.gaps = .boxed → source.elem.isPrimitive = false) ∧
      (s.gaps = .hidden → source.elem = s.ty) := by
  cases h with
  | flushed elem boxed hidden => exact ⟨elem, boxed, hidden⟩
  | running _ chained _ => cases chained.last

theorem Drawn.chained (h : Drawn s source run) (hrun : run ≠ []) : Chained run s.ty := by
  cases h with
  | flushed => exact absurd rfl hrun
  | running _ chained _ => exact chained

/-- The elements of a sequence are what an empty run leads to. -/
theorem Flows.start (h : Flows isA W locals b source s.ty v run os) (drawn : Drawn s source run)
    (href : s.ty.isPrimitive = false)
    (held : ∀ items ∈ os, Focus.Held isA s (.many items)) :
    ∃ (elements : Attempt Access (List Value)) (k : Value → Attempt Access Value),
      Streams W locals source.node [v] elements ∧
      (∀ items ∈ elements, ∀ i ∈ items, ∀ n,
        Leads W ((freshName "e" n, i) :: locals) b (.localOf (freshName "e" n) source.elem :: run)
          s.ty [] (k i)) ∧
      (∀ items ∈ elements, ∀ i ∈ items, ∀ u ∈ k i, NullOr isA s.ty u) ∧
      os = elements >>= fun items => items.mapM k := by
  cases h with
  | running _ h leads typed => exact ⟨_, _, h, leads, typed, rfl⟩
  | flushed h =>
    refine ⟨os, pure, h, fun items _ i _ n => ?_, fun items hi i hm u hu => ?_, ?_⟩
    · refine Leads.single rfl rfl gives_local fun hprim => ?_
      rw [drawn.reference href] at hprim
      cases hprim
    · rw [Attempt.mem_pure.1 hu]
      cases held items hi with
      | many _ all _ _ => exact all i hm
    · have same : (fun items : List Value => items.mapM (pure : Value → Attempt Access Value)) =
          pure := by
        funext items
        exact (Attempt.mapM_pure id items).trans (by rw [List.map_id])
      rw [same, bind_pure]

/-- One step more in the run. -/
theorem Flows.step (h : Flows isA W locals b source s.ty v run os) (drawn : Drawn s source run)
    (hW : W.WellTyped isA classes) (held : ∀ items ∈ os, Focus.Held isA s (.many items))
    {expr : Node} {ty : Ty} (hmove : Movable classes s.ty expr ty)
    (closed : (Link.step expr ty).Closed W locals) :
    Flows isA W locals b source ty v (run ++ [expr])
      (os >>= fun items => items.mapM (unlessNull (W.step locals expr))) := by
  obtain ⟨elements, k, hs, leads, typed, rfl⟩ := h.start drawn hmove.reference held
  have same : ((elements >>= fun items => items.mapM k) >>= fun items =>
      items.mapM (unlessNull (W.step locals expr))) =
        elements >>= fun items => items.mapM fun i => k i >>= unlessNull (W.step locals expr) := by
    rw [bind_assoc]
    exact Attempt.bind_congr fun items _ => (Attempt.mapM_bind ..).symm
  rw [same]
  have self : SameMembers classes s.ty s.ty := ⟨fun _ => rfl, fun _ _ => rfl⟩
  refine .running (by simp) hs (fun items hi i hm n => ?_) fun items hi i hm u hu => ?_
  · refine (leads items hi i hm n).snoc hmove.typed hmove.first hmove.stacked (fun u _ _ => ?_)
      fun hprim u hu hnull w hw => ?_
    · exact hmove.gives fun a ha => (closed a ha).2 n i
    · exact hmove.nonNull hW ((typed items hi i hm u hu).typed hnull) self hnull hprim hw
  · obtain ⟨w, hw, hu⟩ := Attempt.mem_bind.1 hu
    cases hnull : w.isNull with
    | true =>
      rw [Value.eq_null hnull, unlessNull_null, Attempt.mem_pure] at hu
      rw [hu]
      exact .inl rfl
    | false =>
      rw [unlessNull_of hnull] at hu
      have hw' := (typed items hi i hm w hw).typed hnull
      have step := hmove.step hW hw' self hnull hu
      cases hstay : expr.isStacked with
      | true =>
        rw [hstay, if_pos rfl] at step
        rw [step.1, step.2]
        exact .inr hw'
      | false =>
        rw [hstay, if_neg (by decide)] at step
        exact .inr step

theorem flatten_singletons (k : Value → Attempt Access Value) (items : List Value) :
    (List.flatten <$> items.mapM fun i => (fun u => [u]) <$> k i) = items.mapM k := by
  have single : List.flatten ∘ List.map (fun u : Value => [u]) = id := by
    funext us
    exact List.flatMap_singleton' us
  rw [Attempt.mapM_map, ← comp_map, single, id_map]

theorem flatten_elements (k : Value → Attempt Access Value) (items : List Value) :
    (List.flatten <$> items.mapM fun i => Value.elements <$> k i) =
      (fun found => found.flatMap Value.elements) <$> items.mapM k := by
  rw [Attempt.mapM_map, ← comp_map]
  rfl

variable (isA W locals b) in
/-- A stage does the run on every element, and the run is empty again. -/
theorem makes_map (drawn : Drawn s source run) (hrun : run ≠ []) (n : Nat) :
    ∃ next m, Makes (stage b source run false) n next m ∧ next.elem = s.ty.boxed ∧
      next.node.ty.isSome ∧
      ∀ v os, Flows isA W locals b source s.ty v run os → Streams W locals next.node [v] os := by
  have reference : source.elem.isPrimitive = false := by
    cases drawn with
    | flushed => exact absurd rfl hrun
    | running reference _ _ => exact reference
  have element : (Node.localOf (freshName "e" n) source.elem).ty = some source.elem := rfl
  obtain ⟨body, hbody, hty⟩ := guardLinks_boxed (b := b) element reference (drawn.chained hrun)
  refine ⟨⟨pipeOf .map source.node (freshName "e" n) body s.ty.boxed, s.ty.boxed⟩, n + 1,
    makes_stage.2 ⟨body, _, hbody, hty, rfl, ?_⟩, rfl, rfl, fun v os h => ?_⟩
  · rw [if_neg (by decide)]
  · cases h with
    | flushed => exact absurd rfl hrun
    | @running _ elements k _ h leads typed =>
      have piped : Streams W locals (pipeOf .map source.node (freshName "e" n) body s.ty.boxed) [v]
          (elements >>= fun items => List.flatten <$> items.mapM fun i => (fun u => [u]) <$> k i) :=
        streams_pipe h
          (fun items hi i hm => (leads items hi i hm n).gives ((close_other rfl run).trans hbody))
          fun _ _ _ _ _ _ => rfl
      simp only [flatten_singletons] at piped
      exact piped

variable (isA W locals b) in
/-- A run that ends multi-valued is flattened. -/
theorem makes_flatMap {ty elem : Ty} (reference : source.elem.isPrimitive = false)
    (chained : Chained run ty) (helem : ty.element? = some elem) (n : Nat) :
    ∃ next m, Makes (stage b source run true) n next m ∧ next.elem = elem ∧
      next.node.ty.isSome ∧
      ∀ v os, Flows isA W locals b source ty v run os → run ≠ [] →
        Streams W locals next.node [v] ((fun found => found.flatMap Value.elements) <$> os) := by
  have multi : ty.isPrimitive = false := Sight.reference_of_element helem
  have element : (Node.localOf (freshName "e" n) source.elem).ty = some source.elem := rfl
  obtain ⟨body, hbody, hty⟩ := guardLinks_boxed (b := b) element reference chained
  rw [Ty.boxed_of_reference multi] at hty
  let mapped : Node := { ty := some (streamOf elem), kind := .toSequence body }
  refine ⟨⟨pipeOf .flatMap source.node (freshName "e" n) mapped elem, elem⟩, n + 1,
    makes_stage.2 ⟨body, _, hbody, hty, rfl, ?_⟩, rfl, rfl, fun v os h hrun => ?_⟩
  · rw [if_pos rfl]
    exact ⟨elem, helem, rfl⟩
  · cases h with
    | flushed => exact absurd rfl hrun
    | @running _ elements k _ h leads typed =>
      have sequence : ∀ items ∈ elements, ∀ i ∈ items,
          Gives W ((freshName "e" n, i) :: locals)
            { ty := some (streamOf elem), kind := .toSequence body } []
            (.seq <$> (Value.elements <$> k i)) := by
        intro items hi i hm
        have given := (leads items hi i hm n).gives ((close_other rfl run).trans hbody)
        refine streams_iff.2 (streams_toSequence given fun u hu => ?_)
        cases hnull : u.isNull with
        | true => exact .inl rfl
        | false =>
          have typed := (typed items hi i hm u hu).typed hnull
          exact .inr (by rw [typed.items helem hnull]; rfl)
      have piped : Streams W locals (pipeOf .flatMap source.node (freshName "e" n) mapped elem) [v]
          (elements >>= fun items => List.flatten <$> items.mapM fun i =>
            (fun u : Value => u.elements) <$> (Value.seq <$> (Value.elements <$> k i))) :=
        streams_pipe h sequence fun items hi i hm u hu => by
          obtain ⟨inner, -, rfl⟩ := Attempt.mem_map.1 hu
          rfl
      have same (items : List Value) :
          (List.flatten <$> items.mapM fun i =>
            (fun u : Value => u.elements) <$> (Value.seq <$> (Value.elements <$> k i))) =
            (fun found => found.flatMap Value.elements) <$> items.mapM k := by
        rw [← flatten_elements]
        refine congrArg (List.flatten <$> ·) (Attempt.mapM_congr fun i _ => ?_)
        rw [← comp_map]
        exact id_map _
      simp only [same] at piped
      rw [map_bind]
      exact piped

end

end NavScript
