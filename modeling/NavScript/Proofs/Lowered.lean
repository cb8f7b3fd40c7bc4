import NavScript.Navigation.Lowering

/-!
# Runs of the lowering

`Makes x n a m` says that an action of the lowering makes `a` and moves the counter of fresh names
from `n` to `m`. For each function of the lowering there is what a run of it consists of.
-/

namespace NavScript.Lower

variable {α β : Type} {n m : Nat}

/-- The action makes a value, and does not end in a fault. -/
def Makes (x : Lower α) (n : Nat) (a : α) (m : Nat) : Prop := x.run n = .ok (a, m)

@[simp] theorem makes_pure {a b : α} : Makes (pure a) n b m ↔ b = a ∧ m = n := by
  show Except.ok (a, n) = Except.ok (b, m) ↔ _
  simp only [Except.ok.injEq, Prod.mk.injEq]
  exact ⟨fun h => ⟨h.1.symm, h.2.symm⟩, fun h => ⟨h.1.symm, h.2.symm⟩⟩

theorem makes_bind {x : Lower α} {f : α → Lower β} {b : β} :
    Makes (x >>= f) n b m ↔ ∃ a mid, Makes x n a mid ∧ Makes (f a) mid b m := by
  have run : (x >>= f).run n = x.run n >>= fun r => (f r.1).run r.2 := rfl
  unfold Makes
  rw [run]
  constructor
  · intro h
    cases hx : x.run n with
    | error e =>
      rw [hx] at h
      cases h
    | ok r =>
      rw [hx] at h
      exact ⟨r.1, r.2, rfl, h⟩
  · rintro ⟨a, mid, hx, h⟩
    rw [hx]
    exact h

@[simp] theorem makes_liftM {x : Except Fault α} {a : α} :
    Makes (liftM x) n a m ↔ x = .ok a ∧ m = n := by
  unfold Makes
  cases x with
  | error e =>
    constructor
    · intro h
      cases h
    · rintro ⟨h, -⟩
      cases h
  | ok b =>
    show Except.ok (b, n) = Except.ok (a, m) ↔ _
    simp only [Except.ok.injEq, Prod.mk.injEq]
    exact ⟨fun h => ⟨h.1, h.2.symm⟩, fun h => ⟨h.1, h.2.symm⟩⟩

@[simp] theorem makes_fresh {letter name : String} :
    Makes (fresh letter) n name m ↔ name = freshName letter n ∧ m = n + 1 := by
  show Except.ok (freshName letter n, n + 1) = Except.ok (name, m) ↔ _
  simp only [Except.ok.injEq, Prod.mk.injEq]
  exact ⟨fun h => ⟨h.1.symm, h.2.symm⟩, fun h => ⟨h.1.symm, h.2.symm⟩⟩

@[simp] theorem typeOf_ok {node : Node} {ty : Ty} : typeOf node = .ok ty ↔ node.ty = some ty := by
  unfold typeOf
  cases node.ty <;> simp

@[simp] theorem elementTy_ok {ty elem : Ty} : elementTy ty = .ok elem ↔ ty.element? = some elem := by
  unfold elementTy
  cases ty.element? <;> simp

@[simp] theorem sourceOf_ok {multi : Ty} {source : Source} :
    sourceOf multi = .ok source ↔
      ∃ elem, multi.element? = some elem ∧ source = ⟨stackedSequence multi elem, elem⟩ := by
  unfold sourceOf
  cases h : elementTy multi with
  | error e =>
    have : multi.element? = none := by
      unfold elementTy at h
      cases he : multi.element? <;> simp_all
    simp [this, bind, Except.bind]
  | ok elem =>
    rw [elementTy_ok.1 h]
    simp [bind, Except.bind, pure, Except.pure, eq_comm]

theorem multiValuedEnd_ok {chain : List Node} {ty : Ty} (h : multiValuedEnd chain = .ok ty) :
    chain.getLast?.bind (·.ty) = some ty ∧ ty.isMultiValued = true := by
  unfold multiValuedEnd at h
  split at h
  · split at h <;> cases h
    exact ⟨by assumption, by assumption⟩
  · cases h

/-- Runs `body` on the value of `subject`, or makes null of null. -/
def guarded (span : Span) (resultTy : Ty) (subject : Node) (stackedTy : Ty) (body : Node) : Node :=
  let test : Node := { ty := some .boolean, kind := .isNull (.stackedOf stackedTy) }
  let stop : Node :=
    { ty := some resultTy, kind := .sequence [.ofStackOp .pop, .nullOf resultTy] }
  let branch : Node := { ty := some resultTy, kind := .conditional test stop body }
  { span, ty := some resultTy, kind := .sequence [subject, .ofStackOp .dup, branch] }

/-- Boxes a value of a primitive type. -/
def boxedAs (ty : Ty) (n : Node) : Node :=
  if ty.isPrimitive then .convertTo .box n ty.boxed else n

/-- A subject handed to a body, both of known type. -/
def handed (boxPrimitives : Bool) (subjectTy bodyTy : Ty) (subject body : Node) : Node :=
  if subjectTy.isPrimitive then
    if boxPrimitives then
      guarded body.span bodyTy.boxed (.convertTo .box subject subjectTy.boxed) subjectTy.boxed
        { ty := some bodyTy.boxed
          kind := .sequence [.convertTo .unbox (.stackedOf subjectTy.boxed) subjectTy,
            boxedAs bodyTy body] }
    else { span := body.span, ty := some bodyTy, kind := .sequence [subject, body] }
  else guarded body.span bodyTy.boxed subject subjectTy (boxedAs bodyTy body)

theorem guardLink_ok {boxPrimitives : Bool} {subject body made : Node} :
    guardLink boxPrimitives subject body = .ok made ↔
      ∃ subjectTy bodyTy, subject.ty = some subjectTy ∧ body.ty = some bodyTy ∧
        made = handed boxPrimitives subjectTy bodyTy subject body := by
  unfold guardLink
  cases hs : typeOf subject with
  | error e =>
    have : subject.ty = none := by
      unfold typeOf at hs
      cases h : subject.ty <;> simp_all
    simp [bind, Except.bind, this]
  | ok subjectTy =>
    cases hb : typeOf body with
    | error e =>
      have : body.ty = none := by
        unfold typeOf at hb
        cases h : body.ty <;> simp_all
      simp [bind, Except.bind, this]
    | ok bodyTy =>
      have made_eq : guardLink boxPrimitives subject body =
          .ok (handed boxPrimitives subjectTy bodyTy subject body) := by
        unfold guardLink handed
        rw [hs, hb]
        cases hp : subjectTy.isPrimitive <;> cases boxPrimitives <;>
          simp [bind, Except.bind, pure, Except.pure, hp, guarded, boxedAs]
      rw [typeOf_ok.1 hs, typeOf_ok.1 hb]
      unfold guardLink at made_eq
      rw [hs, hb] at made_eq
      rw [made_eq]
      simp [eq_comm]

theorem guardLinks_nil {boxPrimitives : Bool} {made : Node} :
    ¬ guardLinks boxPrimitives [] = .ok made := by
  simp [guardLinks]

theorem guardLinks_cons {boxPrimitives : Bool} {subject next made : Node} {rest : List Node} :
    guardLinks boxPrimitives (subject :: next :: rest) = .ok made ↔
      ∃ body, guardLinks boxPrimitives (next :: rest) = .ok body ∧
        guardLink boxPrimitives subject body = .ok made := by
  rw [guardLinks]
  · cases guardLinks boxPrimitives (next :: rest) <;> simp [bind, Except.bind]
  · exact nofun

theorem placeStacked_stacked (span : Span) (ty : Option Ty) (value : Node) :
    (placeStacked ⟨span, ty, .stacked⟩).run (some value) = (value, none) := by
  unfold placeStacked
  rw [Node.fold_mk]
  rfl

/-- Where nothing is placed the children are visited. -/
theorem placeStacked_other {span : Span} {ty : Option Ty} {kind : Kind Node} {s : Option Node}
    (h : kind.label ≠ "Stacked" ∨ s = none) :
    (placeStacked ⟨span, ty, kind⟩).run s =
      StateT.run (m := Id) (do return ⟨span, ty, ← kind.mapM placeStacked⟩) s := by
  have mapped : (kind.map placeStacked).mapM id = kind.mapM placeStacked := Kind.mapM_map ..
  have unfolded : (placeStacked ⟨span, ty, kind⟩).run s =
      StateT.run (m := Id) (do return ⟨span, ty, ← (kind.map placeStacked).mapM id⟩) s := by
    unfold placeStacked
    rw [Node.fold_mk]
    cases kind
    case stacked =>
      rcases h with h | rfl
      · exact absurd rfl h
      · rfl
    all_goals rfl
  rw [unfolded, mapped]

section

variable {b : Bool} {source source' : Source} {run : List Node}

/-- A stage that maps each element, or one that flattens what it maps to. -/
theorem makes_stage {flatten : Bool} :
    Makes (stage b source run flatten) n source' m ↔
      ∃ body bodyTy, guardLinks b (.localOf (freshName "e" n) source.elem :: run) = .ok body ∧
        body.ty = some bodyTy ∧ m = n + 1 ∧
        if flatten then
          ∃ inner, bodyTy.element? = some inner ∧
            source' = ⟨pipeOf .flatMap source.node (freshName "e" n)
              { ty := some (streamOf inner), kind := .toSequence body } inner, inner⟩
        else source' = ⟨pipeOf .map source.node (freshName "e" n) body bodyTy, bodyTy⟩ := by
  unfold stage
  simp only [makes_bind, makes_fresh, makes_liftM, typeOf_ok]
  constructor
  · rintro ⟨_, _, ⟨rfl, rfl⟩, body, _, ⟨hbody, rfl⟩, bodyTy, _, ⟨hty, rfl⟩, h⟩
    refine ⟨body, bodyTy, hbody, hty, ?_⟩
    cases flatten
    · simp only [Bool.false_eq_true, if_false, makes_pure] at h ⊢
      exact ⟨h.2, h.1⟩
    · simp only [if_true, makes_bind, makes_liftM, elementTy_ok, makes_pure] at h ⊢
      obtain ⟨inner, _, ⟨hi, rfl⟩, rfl, rfl⟩ := h
      exact ⟨rfl, inner, hi, rfl⟩
  · rintro ⟨body, bodyTy, hbody, hty, rfl, h⟩
    refine ⟨_, _, ⟨rfl, rfl⟩, body, _, ⟨hbody, rfl⟩, bodyTy, _, ⟨hty, rfl⟩, ?_⟩
    cases flatten
    · simp only [Bool.false_eq_true, if_false, makes_pure] at h ⊢
      exact ⟨h, trivial⟩
    · simp only [if_true, makes_bind, makes_liftM, elementTy_ok, makes_pure] at h ⊢
      obtain ⟨inner, hi, rfl⟩ := h
      exact ⟨inner, _, ⟨hi, rfl⟩, rfl, rfl⟩

theorem makes_flush :
    Makes (flush b source run) n source' m ↔
      (run = [] ∧ source' = source ∧ m = n) ∨
        (run ≠ [] ∧ Makes (stage b source run false) n source' m) := by
  unfold flush
  cases run <;> simp

variable {chain : List Node} {made : Node} {rest : List Link}

theorem makes_scalar_nil :
    Makes (scalar b chain []) n made m ↔ close b chain = .ok made ∧ m = n := by
  rw [scalar]
  exact makes_liftM

theorem makes_scalar_step {expr : Node} {ty : Ty} :
    Makes (scalar b chain (.step expr ty :: rest)) n made m ↔
      if ty.isMultiValued && !rest.isEmpty then
        ∃ elem tail, ty.element? = some elem ∧
          Makes (stream b ⟨stackedSequence ty elem, elem⟩ [] rest) n tail m ∧
          close b (chain ++ [expr, tail]) = .ok made
      else Makes (scalar b (chain ++ [expr]) rest) n made m := by
  rw [scalar]
  split
  · simp only [makes_bind, makes_liftM, sourceOf_ok]
    constructor
    · rintro ⟨_, _, ⟨⟨elem, he, rfl⟩, rfl⟩, tail, _, htail, hclose, rfl⟩
      exact ⟨elem, tail, he, htail, hclose⟩
    · rintro ⟨elem, tail, he, htail, hclose⟩
      exact ⟨_, _, ⟨⟨elem, he, rfl⟩, rfl⟩, tail, _, htail, hclose, rfl⟩
  · rfl

theorem makes_scalar_predicate {param : String} {cond : Node} {ty : Ty} :
    Makes (scalar b chain (.predicate param cond ty :: rest)) n made m ↔
      Makes (scalar b (chain ++ [keepIf param cond ty]) rest) n made m := by
  rw [scalar]

theorem makes_scalar_reduce {r : Reduction} {ty : Ty} :
    Makes (scalar b chain (.reduce r ty :: rest)) n made m ↔
      ∃ multi elem tail, multiValuedEnd chain = .ok multi ∧ multi.element? = some elem ∧
        Makes (scalar b [collectInto ⟨stackedSequence multi elem, elem⟩ r] rest) n tail m ∧
        close b (chain ++ [tail]) = .ok made := by
  rw [scalar]
  simp only [makes_bind, makes_liftM, sourceOf_ok]
  constructor
  · rintro ⟨multi, _, ⟨hm, rfl⟩, _, _, ⟨⟨elem, he, rfl⟩, rfl⟩, tail, _, htail, hclose, rfl⟩
    exact ⟨multi, elem, tail, hm, he, htail, hclose⟩
  · rintro ⟨multi, elem, tail, hm, he, htail, hclose⟩
    exact ⟨multi, _, ⟨hm, rfl⟩, _, _, ⟨⟨elem, he, rfl⟩, rfl⟩, tail, _, htail, hclose, rfl⟩

theorem makes_stream_nil :
    Makes (stream b source run []) n made m ↔
      ∃ last, Makes (flush b source run) n last m ∧ made = last.node := by
  rw [stream]
  simp only [makes_bind, makes_pure]
  constructor
  · rintro ⟨last, _, h, rfl, rfl⟩
    exact ⟨last, h, rfl⟩
  · rintro ⟨last, h, rfl⟩
    exact ⟨last, _, h, rfl, rfl⟩

theorem makes_stream_step {expr : Node} {ty : Ty} :
    Makes (stream b source run (.step expr ty :: rest)) n made m ↔
      if ty.isMultiValued then
        ∃ next mid, Makes (stage b source (run ++ [expr]) true) n next mid ∧
          Makes (stream b next [] rest) mid made m
      else Makes (stream b source (run ++ [expr]) rest) n made m := by
  rw [stream]
  split
  · exact makes_bind
  · rfl

theorem makes_stream_predicate {param : String} {cond : Node} {ty : Ty} :
    Makes (stream b source run (.predicate param cond ty :: rest)) n made m ↔
      ∃ next mid, Makes (flush b source run) n next mid ∧
        Makes (stream b ⟨pipeOf .filter next.node param (nullSafe param cond next.elem) next.elem,
          next.elem⟩ [] rest) mid made m := by
  rw [stream]
  exact makes_bind

theorem makes_stream_reduce {r : Reduction} {ty : Ty} :
    Makes (stream b source run (.reduce r ty :: rest)) n made m ↔
      ∃ next mid, Makes (flush b source run) n next mid ∧
        Makes (scalar b [collectInto next r] rest) mid made m := by
  rw [stream]
  exact makes_bind

theorem stage_le {flatten : Bool} (h : Makes (stage b source run flatten) n source' m) :
    n ≤ m := by
  obtain ⟨_, _, -, -, rfl, -⟩ := makes_stage.1 h
  exact Nat.le_succ n

theorem flush_le (h : Makes (flush b source run) n source' m) : n ≤ m := by
  rcases makes_flush.1 h with ⟨-, -, rfl⟩ | ⟨-, h⟩
  · exact Nat.le_refl _
  · exact stage_le h

end

mutual

theorem scalar_le {b : Bool} :
    ∀ (links : List Link) {chain : List Node} {n m : Nat} {made : Node},
      Makes (scalar b chain links) n made m → n ≤ m
  | [], _, _, _, _, h => Nat.le_of_eq (makes_scalar_nil.1 h).2.symm
  | .step expr ty :: rest, _, _, _, _, h => by
    rw [makes_scalar_step] at h
    split at h
    · obtain ⟨_, _, -, h, -⟩ := h
      exact stream_le rest h
    · exact scalar_le rest h
  | .predicate param cond ty :: rest, _, _, _, _, h => scalar_le rest (makes_scalar_predicate.1 h)
  | .reduce r ty :: rest, _, _, _, _, h => by
    obtain ⟨_, _, _, -, -, h, -⟩ := makes_scalar_reduce.1 h
    exact scalar_le rest h

theorem stream_le {b : Bool} :
    ∀ (links : List Link) {source : Source} {run : List Node} {n m : Nat} {made : Node},
      Makes (stream b source run links) n made m → n ≤ m
  | [], _, _, _, _, _, h => by
    obtain ⟨_, h, -⟩ := makes_stream_nil.1 h
    exact flush_le h
  | .step expr ty :: rest, _, _, _, _, _, h => by
    rw [makes_stream_step] at h
    split at h
    · obtain ⟨_, _, hs, h⟩ := h
      exact Nat.le_trans (stage_le hs) (stream_le rest h)
    · exact stream_le rest h
  | .predicate param cond ty :: rest, _, _, _, _, _, h => by
    obtain ⟨_, _, hf, h⟩ := makes_stream_predicate.1 h
    exact Nat.le_trans (flush_le hf) (stream_le rest h)
  | .reduce r ty :: rest, _, _, _, _, _, h => by
    obtain ⟨_, _, hf, h⟩ := makes_stream_reduce.1 h
    exact Nat.le_trans (flush_le hf) (scalar_le rest h)

end

end NavScript.Lower
