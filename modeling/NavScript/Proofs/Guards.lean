import NavScript.Proofs.Lowered
import NavScript.Proofs.Reading
import NavScript.Proofs.Traverse

/-!
# Guards on the machine

A guarded subject is evaluated once and handed to its body, unless it is null: then the result is
null and the body does not run (`gives_handed`). A node that reads its receiver before anything else
(`ReceiverFirst`) can have a value put in the place of that read (`exec_place`), and what is
handed to a body can be placed in the subject (`guardLinks_place`).
-/

namespace NavScript

open Machine Lower

variable {locals : List (String × Value)} {top : List Value} {W : World} {o : Attempt Access Value}
  {k : Value → Attempt Access Value}

theorem gives_stop (v : Value) (ty : Ty) :
    Gives W locals { ty := some ty, kind := .sequence [.ofStackOp .pop, .nullOf ty] } [v]
      (pure .null) := by
  unfold Gives
  rw [exec_sequence, ← pure_bind () fun _ => pure Value.null]
  have pop : Turns (exec W (.ofStackOp .pop)) locals [v] (pure () : Attempt Access Unit)
      fun _ => [] := by
    rw [Node.ofStackOp, exec_mk]
    exact turns_pop v
  exact turns_runAll_cons pop fun _ _ => turns_runAll_one (gives_literal .null)

/-- Runs a body on a value that lies on the stack twice, or makes null of null. -/
theorem turns_test {ty stackedTy : Ty} {body : Node} {v : Value}
    (h : v.isNull = false → Gives W locals body [v] (k v)) :
    Turns (exec W { ty := some ty
                    kind := .conditional
                      { ty := some .boolean, kind := .isNull (.stackedOf stackedTy) }
                      { ty := some ty, kind := .sequence [.ofStackOp .pop, .nullOf ty] } body })
      locals [v, v] (unlessNull k v) alone := by
  have test : Gives W locals { ty := some .boolean, kind := .isNull (.stackedOf stackedTy) } [v]
      ((fun v => .ofBool v.isNull) <$> pure v) := gives_isNull (gives_stacked v)
  rw [exec_mk, ← pure_bind v fun _ => unlessNull k v]
  refine Turns.bind ((Turns.map_iff.1 test).frame [v]) fun u hu => ?_
  rw [Attempt.mem_pure.1 hu]
  refine turns_branch ?_
  unfold unlessNull
  cases hv : v.isNull with
  | true => exact gives_stop v ty
  | false => exact h hv

theorem gives_guarded {span : Span} {ty stackedTy : Ty} {subject body : Node}
    (h : Gives W locals subject top o)
    (hbody : ∀ v ∈ o, v.isNull = false → Gives W locals body [v] (k v)) :
    Gives W locals (guarded span ty subject stackedTy body) top (o >>= unlessNull k) := by
  unfold Gives
  rw [guarded, exec_sequence]
  refine turns_runAll_cons h fun v hv => ?_
  rw [← pure_bind () fun _ => unlessNull k v]
  have dup : Turns (exec W (.ofStackOp .dup)) locals [v] (pure () : Attempt Access Unit)
      fun _ => [v, v] := by
    rw [Node.ofStackOp, exec_mk]
    exact turns_dup v
  exact turns_runAll_cons dup fun _ _ => turns_runAll_one (turns_test (hbody v hv))

theorem gives_boxedAs {ty : Ty} {n : Node} (h : Gives W locals n top o) :
    Gives W locals (boxedAs ty n) top o := by
  unfold boxedAs
  split
  · exact gives_box h
  · exact h

/-- A subject is evaluated and handed to its body, unless it is null. A subject of primitive type
is never null. -/
theorem gives_handed {b : Bool} {subjectTy bodyTy : Ty} {subject body : Node}
    (h : Gives W locals subject top o)
    (hprim : subjectTy.isPrimitive = true → ∀ v ∈ o, v.isNull = false)
    (hbody : ∀ v ∈ o, v.isNull = false → Gives W locals body [v] (k v)) :
    Gives W locals (handed b subjectTy bodyTy subject body) top (o >>= unlessNull k) := by
  unfold handed
  split
  · rename_i hsubject
    have nonNull := hprim hsubject
    split
    · refine gives_guarded (gives_box h) fun v hv hnull => ?_
      have unboxed : Gives W locals (.convertTo .unbox (.stackedOf subjectTy.boxed) subjectTy) [v]
          (pure v) :=
        gives_unbox (gives_stacked v) fun u hu => by
          rw [Attempt.mem_pure.1 hu]
          exact hnull
      rw [← pure_bind v k]
      refine gives_sequence unboxed fun u hu => ?_
      rw [Attempt.mem_pure.1 hu]
      exact gives_boxedAs (hbody v hv hnull)
    · have run : o >>= unlessNull k = o >>= k :=
        Attempt.bind_congr fun v hv => unlessNull_of (nonNull v hv)
      rw [run]
      exact gives_sequence h fun v hv => hbody v hv (nonNull v hv)
  · exact gives_guarded h fun v hv hnull => gives_boxedAs (hbody v hv hnull)

abbrev placing : Runs (StateM (Option Node)) (Option Node) := .state (Option Node)

/-- Where there is nothing to place, nothing changes. -/
theorem placeStacked_none (n : Node) : ∀ {n' : Node} {s' : Option Node},
    placing.rel (placeStacked n) none n' s' → n' = n ∧ s' = none := by
  induction n using Node.induct with
  | h span ty kind ih =>
    intro n' s' h
    have h : placing.rel (do return ⟨span, ty, ← kind.mapM placeStacked⟩) none n' s' :=
      (placeStacked_other (.inr rfl)).symm.trans h
    simp only [Runs.bind_iff, Runs.pure_iff] at h
    obtain ⟨kind', _, hkind, rfl, rfl⟩ := h
    obtain ⟨z, rfl, rfl, hz⟩ := Runs.runs_kindMapM _ hkind
    have child : ∀ c ∈ z.children, ∀ {mid : Option Node},
        placing.rel (placeStacked c.1) none c.2 mid → c.2 = c.1 ∧ mid = none := by
      intro c hc
      refine ih c.1 ?_
      rw [Kind.children_map]
      exact List.mem_map_of_mem hc
    obtain ⟨hchildren, hs'⟩ := Runs.RunsAll.unchanged child hz
    rw [Kind.map_congr hchildren]
    exact ⟨rfl, hs'⟩

theorem mapM_placeStacked_none {ns ns' : List Node} {s' : Option Node}
    (h : placing.rel (ns.mapM placeStacked) none ns' s') : ns' = ns ∧ s' = none := by
  obtain ⟨zs, rfl, rfl, hz⟩ := (Runs.runs_mapM _).1 h
  obtain ⟨hall, hs'⟩ := Runs.RunsAll.unchanged (fun c _ => placeStacked_none c.1) hz
  exact ⟨List.map_congr_left hall, hs'⟩

/-- The node reads the value on the stack before it does anything else. -/
inductive ReceiverFirst : Node → Prop
  | stacked (span : Span) (ty : Option Ty) : ReceiverFirst ⟨span, ty, .stacked⟩
  | propertyRead {n : Node} (h : ReceiverFirst n) (span : Span) (ty : Option Ty) (name : String) :
    ReceiverFirst ⟨span, ty, .propertyRead n name⟩
  | methodCall {n : Node} (h : ReceiverFirst n) (span : Span) (ty : Option Ty) (owner : Ty)
    (name : String) (args : List Node) : ReceiverFirst ⟨span, ty, .methodCall n owner name args⟩
  | convert {n : Node} (h : ReceiverFirst n) (span : Span) (ty : Option Ty) (c : Conversion) :
    ReceiverFirst ⟨span, ty, .convert c n⟩
  | toSequence {n : Node} (h : ReceiverFirst n) (span : Span) (ty : Option Ty) :
    ReceiverFirst ⟨span, ty, .toSequence n⟩
  | pipe {n : Node} (h : ReceiverFirst n) (span : Span) (ty : Option Ty) (op : StageKind)
    (x : String) (body : Node) : ReceiverFirst ⟨span, ty, .pipe op n x body⟩
  | collect {n : Node} (h : ReceiverFirst n) (span : Span) (ty : Option Ty) (r : Reduction) :
    ReceiverFirst ⟨span, ty, .collect n r⟩
  | letIn {n : Node} (h : ReceiverFirst n) (span : Span) (ty : Option Ty) (x : String)
    (body : Node) : ReceiverFirst ⟨span, ty, .letIn x n body⟩
  | sequence {n : Node} (h : ReceiverFirst n) (span : Span) (ty : Option Ty)
    (rest : List Node) : ReceiverFirst ⟨span, ty, .sequence (n :: rest)⟩

/-- The first node does what the second does on the value that the script is bound to. -/
def FromThis (W : World) (n' n : Node) : Prop := ∀ m, exec W n' m = exec W n (m.push W.this)

theorem FromThis.gives {n n' : Node} (h : FromThis W n' n) (hn : Gives W locals n [W.this] o) :
    Gives W locals n' [] o := by
  intro stack log
  have run := hn stack log
  rw [List.nil_append, h]
  exact run

theorem FromThis.sequence {n n' : Node} (h : FromThis W n' n) (span : Span) (ty : Option Ty)
    (rest : List Node) :
    FromThis W ⟨span, ty, .sequence (n' :: rest)⟩ ⟨span, ty, .sequence (n :: rest)⟩ := by
  intro m
  rw [exec_sequence, exec_sequence]
  show exec W n' m >>= runAll (rest.map (exec W)) =
    exec W n (m.push W.this) >>= runAll (rest.map (exec W))
  rw [h m]

theorem FromThis.convert {n n' : Node} (h : FromThis W n' n) (span span' : Span) (ty : Option Ty)
    (c : Conversion) : FromThis W ⟨span, ty, .convert c n'⟩ ⟨span', ty, .convert c n⟩ := by
  intro m
  rw [exec_mk, exec_mk]
  show exec W n' m >>= _ = exec W n (m.push W.this) >>= _
  rw [h m]

theorem FromThis.handed {n n' : Node} (h : FromThis W n' n) (b : Bool) (subjectTy bodyTy : Ty)
    (body : Node) : FromThis W (handed b subjectTy bodyTy n' body)
      (handed b subjectTy bodyTy n body) := by
  unfold Lower.handed
  split
  · split
    · exact (h.convert _ _ _ _).sequence _ _ _
    · exact h.sequence _ _ _
  · exact h.sequence _ _ _

theorem placing_other {span : Span} {ty : Option Ty} {kind : Kind Node} {value n' : Node}
    {s' : Option Node} (hkind : kind.label ≠ "Stacked")
    (h : placing.rel (placeStacked ⟨span, ty, kind⟩) (some value) n' s') :
    ∃ kind', placing.rel (kind.mapM placeStacked) (some value) kind' s' ∧ n' = ⟨span, ty, kind'⟩ := by
  have h : placing.rel (do return ⟨span, ty, ← kind.mapM placeStacked⟩) (some value) n' s' :=
    (placeStacked_other (.inl hkind)).symm.trans h
  simp only [Runs.bind_iff, Runs.pure_iff] at h
  obtain ⟨kind', _, hmade, rfl, rfl⟩ := h
  exact ⟨kind', hmade, rfl⟩

/-- The second node is the first with a value in the place of the receiver that it reads first. -/
inductive Placed (value : Node) : Node → Node → Prop
  | stacked (span : Span) (ty : Option Ty) : Placed value ⟨span, ty, .stacked⟩ value
  | propertyRead {n n' : Node} (h : Placed value n n') (span : Span) (ty : Option Ty)
    (name : String) : Placed value ⟨span, ty, .propertyRead n name⟩ ⟨span, ty, .propertyRead n' name⟩
  | methodCall {n n' : Node} (h : Placed value n n') (span : Span) (ty : Option Ty) (owner : Ty)
    (name : String) (args : List Node) :
    Placed value ⟨span, ty, .methodCall n owner name args⟩ ⟨span, ty, .methodCall n' owner name args⟩
  | convert {n n' : Node} (h : Placed value n n') (span : Span) (ty : Option Ty) (c : Conversion) :
    Placed value ⟨span, ty, .convert c n⟩ ⟨span, ty, .convert c n'⟩
  | toSequence {n n' : Node} (h : Placed value n n') (span : Span) (ty : Option Ty) :
    Placed value ⟨span, ty, .toSequence n⟩ ⟨span, ty, .toSequence n'⟩
  | pipe {n n' : Node} (h : Placed value n n') (span : Span) (ty : Option Ty) (op : StageKind)
    (x : String) (body : Node) :
    Placed value ⟨span, ty, .pipe op n x body⟩ ⟨span, ty, .pipe op n' x body⟩
  | collect {n n' : Node} (h : Placed value n n') (span : Span) (ty : Option Ty) (r : Reduction) :
    Placed value ⟨span, ty, .collect n r⟩ ⟨span, ty, .collect n' r⟩
  | letIn {n n' : Node} (h : Placed value n n') (span : Span) (ty : Option Ty) (x : String)
    (body : Node) : Placed value ⟨span, ty, .letIn x n body⟩ ⟨span, ty, .letIn x n' body⟩
  | sequence {n n' : Node} (h : Placed value n n') (span : Span) (ty : Option Ty)
    (rest : List Node) : Placed value ⟨span, ty, .sequence (n :: rest)⟩ ⟨span, ty, .sequence (n' :: rest)⟩

/-- What reads its receiver first has the value placed there and nowhere else. -/
theorem ReceiverFirst.placed {n value : Node} (h : ReceiverFirst n) :
    ∀ {n' : Node} {s' : Option Node}, placing.rel (placeStacked n) (some value) n' s' →
      Placed value n n' ∧ s' = none := by
  induction h with
  | stacked span ty =>
    intro n' s' hrun
    have placed : (value, (none : Option Node)) = (n', s') :=
      (placeStacked_stacked span ty value).symm.trans hrun
    cases placed
    exact ⟨.stacked span ty, rfl⟩
  -- the receiver is the only child
  | propertyRead _ _ _ _ ih | convert _ _ _ _ ih | toSequence _ _ _ ih | collect _ _ _ _ ih =>
    intro n' s' hrun
    obtain ⟨kind', hkind, rfl⟩ := placing_other (by simp [Kind.label]) hrun
    simp only [Kind.mapM, Runs.bind_iff, Runs.pure_iff] at hkind
    obtain ⟨t', _, ht, rfl, rfl⟩ := hkind
    obtain ⟨placed, rfl⟩ := ih ht
    exact ⟨by constructor; exact placed, rfl⟩
  | methodCall _ span ty owner name args ih =>
    intro n' s' hrun
    obtain ⟨kind', hkind, rfl⟩ := placing_other (by simp [Kind.label]) hrun
    simp only [Kind.mapM, Runs.bind_iff, Runs.pure_iff] at hkind
    obtain ⟨t', _, ht, args', _, hargs, rfl, rfl⟩ := hkind
    obtain ⟨placed, rfl⟩ := ih ht
    obtain ⟨rfl, rfl⟩ := mapM_placeStacked_none hargs
    exact ⟨placed.methodCall .., rfl⟩
  | sequence _ span ty rest ih =>
    intro n' s' hrun
    obtain ⟨kind', hkind, rfl⟩ := placing_other (by simp [Kind.label]) hrun
    simp only [Kind.mapM, List.mapM_cons, Runs.bind_iff, Runs.pure_iff] at hkind
    obtain ⟨_, _, ⟨t', _, ht, rest', _, hrest, rfl, rfl⟩, rfl, rfl⟩ := hkind
    obtain ⟨placed, rfl⟩ := ih ht
    obtain ⟨rfl, rfl⟩ := mapM_placeStacked_none hrest
    exact ⟨placed.sequence .., rfl⟩
  | pipe _ _ _ _ _ body ih | letIn _ _ _ _ body ih =>
    intro n' s' hrun
    obtain ⟨kind', hkind, rfl⟩ := placing_other (by simp [Kind.label]) hrun
    simp only [Kind.mapM, Runs.bind_iff, Runs.pure_iff] at hkind
    obtain ⟨t', _, ht, body', _, hbody, rfl, rfl⟩ := hkind
    obtain ⟨placed, rfl⟩ := ih ht
    obtain ⟨rfl, rfl⟩ := placeStacked_none body hbody
    exact ⟨by constructor; exact placed, rfl⟩

/-- What is placed is the value, or of the type of the node. -/
theorem Placed.ty {value n n' : Node} (h : Placed value n n') :
    if n.isStacked then n' = value else n'.ty = n.ty := by
  cases h <;> rfl

/-- In the place of the receiver `this` is read as the receiver is. -/
theorem Placed.fromThis {value n n' : Node} (h : Placed value n n') (hvalue : value.isThis = true) :
    FromThis W n' n := by
  induction h with
  | stacked span ty =>
    intro m
    obtain ⟨span', ty', kind⟩ := value
    cases kind
    case this =>
      rw [exec_mk, exec_mk]
      rfl
    all_goals cases hvalue
  | methodCall _ span ty owner name args ih =>
    intro m
    rw [exec_mk, exec_mk]
    show exec W _ m >>= _ >>= _ = exec W _ (m.push W.this) >>= _ >>= _
    rw [ih m]
  | sequence _ span ty rest ih => exact ih.sequence _ _ _
  | propertyRead _ _ _ _ ih | pipe _ _ _ _ _ _ ih | letIn _ _ _ _ _ ih | convert _ _ _ _ ih
  | toSequence _ _ _ ih | collect _ _ _ _ ih =>
    intro m
    rw [exec_mk, exec_mk]
    show exec W _ m >>= _ = exec W _ (m.push W.this) >>= _
    rw [ih m]

/-- The second of two chained nodes that differ in what stands for their receiver. -/
theorem guardLinks_place {b : Bool} {next next' made : Node} {rest : List Node}
    (h : FromThis W next' next) (hty : rest ≠ [] → next'.ty = next.ty)
    (hmade : guardLinks b (next :: rest) = .ok made) :
    ∃ made', guardLinks b (next' :: rest) = .ok made' ∧ FromThis W made' made := by
  cases rest with
  | nil =>
    cases hmade
    exact ⟨next', rfl, h⟩
  | cons second rest =>
    obtain ⟨body, hbody, hlink⟩ := guardLinks_cons.1 hmade
    obtain ⟨subjectTy, bodyTy, hsubject, hbodyTy, rfl⟩ := guardLink_ok.1 hlink
    refine ⟨handed b subjectTy bodyTy next' body, guardLinks_cons.2 ⟨body, hbody, ?_⟩,
      h.handed _ _ _ _⟩
    refine guardLink_ok.2 ⟨subjectTy, bodyTy, ?_, hbodyTy, rfl⟩
    rw [hty (List.cons_ne_nil _ _), hsubject]

end NavScript
