import NavScript.Proofs.Machine
import NavScript.Setup.Basic
import NavScript.Widening

/-!
# Folding agrees with the run time

Arithmetic over numeric constants, with at most one comparison on top, has the same type and the same
outcome on the machine whether constants are folded or not (`folding_keeps_outcome`). The outcome is
the one that the expression has as it is written (`Numerics.calculated`): both operands are brought to
their common kind, and there the operator has a value or none.

`Computes` is the invariant of the induction: a widened expression has the type of its kind, runs to
what the written one comes to, and is a constant only of that value.
-/

namespace NavScript

/-- The exact result of an operator over integers, quotients truncated toward zero. -/
def Operator.integral? (op : Operator) (a b : Int) : Option Int :=
  match op with
  | .add => some (a + b)
  | .sub => some (a - b)
  | .mul => some (a * b)
  | .div => if b = 0 then none else some (a.tdiv b)
  | .rem => if b = 0 then none else some (a.tmod b)
  | _ => none

/-- The exact result if it fits. A remainder also needs a quotient that fits. -/
def Word.checked {bits : Nat} (op : Operator) (a b : Word bits) : Option (Word bits) :=
  let result := (op.integral? a.val b.val).bind Word.ofInt?
  if op = .rem then (checkedQuotient a b).bind fun _ => result else result
where
  checkedQuotient (a b : Word bits) : Option (Word bits) :=
    (Operator.div.integral? a.val b.val).bind Word.ofInt?

theorem Literal.foldWord_eq {bits : Nat} (op : Operator) (a b : Word bits) :
    Literal.foldWord op a b = a.checked op b := by
  have quotient : a.div? b = Word.checked.checkedQuotient a b := by
    unfold Word.div? Word.checked.checkedQuotient Operator.integral?
    by_cases hb : b.val = 0 <;> simp [hb]
  cases op
  case div => exact quotient
  case rem =>
    show (a.div? b).bind (fun _ => Word.ofInt? (a.val.tmod b.val)) =
      (Word.checked.checkedQuotient a b).bind fun _ =>
        (Operator.rem.integral? a.val b.val).bind Word.ofInt?
    rw [quotient]
    by_cases hb : b.val = 0
    · simp [Word.checked.checkedQuotient, Operator.integral?, hb]
    · simp [Operator.integral?, hb]
  all_goals rfl

/-- What the run time brings along: arithmetic on decimals, and comparisons of two numbers of one
kind. -/
structure Numerics where
  decimal : Operator → String → String → Option String
  compare : Operator → Literal → Literal → Option Bool

namespace Numerics

/-- Arithmetic on two numbers of one kind: checked on integers, as in IEEE 754 on binary numbers. -/
def arithmetic (N : Numerics) (op : Operator) : Literal → Literal → Option Literal
  | .short a, .short b => (a.checked op b).map .short
  | .int a, .int b => (a.checked op b).map .int
  | .long a, .long b => (a.checked op b).map .long
  | .bigInteger a, .bigInteger b => (a.checked op b).map .bigInteger
  | .float a, .float b => (Literal.foldFloat op a b).map .float
  | .double a, .double b => (Literal.foldDouble op a b).map .double
  | .bigDecimal a, .bigDecimal b => (N.decimal op a b).map .bigDecimal
  | _, _ => none

def operate (N : Numerics) (op : Operator) (l r : Literal) : Option Literal :=
  if op.isComparison then (N.compare op l r).map .bool else N.arithmetic op l r

/-- An operator over two numbers, in their common kind. -/
def promoted (N : Numerics) (op : Operator) (l r : Literal) : Option Literal := do
  let kind := (← l.numericKind?).promote (← r.numericKind?)
  N.operate op (← l.widenTo? kind) (← r.widenTo? kind)

/-- What an expression over constants comes to as it is written. -/
def calculated (N : Numerics) (n : Node) : Option Literal :=
  n.fold fun _ _ kind =>
    match kind with
    | .literal l => some l
    | .binary op l r => do N.promoted op (← l) (← r)
    | _ => none

theorem calculated_literal (N : Numerics) (span : Span) (ty : Option Ty) (l : Literal) :
    N.calculated ⟨span, ty, .literal l⟩ = some l :=
  Node.fold_mk _ span ty _

theorem calculated_binary (N : Numerics) (span : Span) (ty : Option Ty) (op : Operator)
    (l r : Node) : N.calculated ⟨span, ty, .binary op l r⟩ =
      (N.calculated l).bind fun a => (N.calculated r).bind fun b => N.promoted op a b :=
  Node.fold_mk _ span ty _

/-- Folding does what the run time does. -/
theorem arithmetic_of_fold? {N : Numerics} {op : Operator} {l r v : Literal}
    (h : Literal.fold? op l r = some v) : N.arithmetic op l r = some v := by
  unfold Literal.fold? at h
  split at h
  all_goals first
    | cases h
    | simpa only [arithmetic, ← Literal.foldWord_eq] using h

theorem arithmetic_kind {N : Numerics} {op : Operator} {l r v : Literal}
    (h : N.arithmetic op l r = some v) : v.numericKind? = l.numericKind? := by
  unfold arithmetic at h
  split at h
  all_goals first
    | cases h
    | (obtain ⟨c, -, rfl⟩ := Option.map_eq_some_iff.1 h
       rfl)

end Numerics

/-- A world that computes with the given numerics. -/
def World.calculating (W : World) (N : Numerics) : World :=
  { W with
    compute := fun op l r =>
      match l, r with
      | .lit l, .lit r => (N.operate op l r).map .lit
      | _, _ => none }

/-- Arithmetic over numeric constants of their own types. -/
inductive Node.Arithmetic : Node → Prop
  | number {span : Span} {l : Literal} {k : NumericKind} (h : l.numericKind? = some k) :
    Node.Arithmetic ⟨span, some l.ty, .literal l⟩
  | operation {span : Span} {ty : Option Ty} {op : Operator} {lhs rhs : Node}
    (h : op.isArithmetic = true) (left : lhs.Arithmetic) (right : rhs.Arithmetic) :
    Node.Arithmetic ⟨span, ty, .binary op lhs rhs⟩

/-- Arithmetic, or one comparison of the results of arithmetic. -/
inductive Node.Calculation : Node → Prop
  | arithmetic {n : Node} (h : n.Arithmetic) : n.Calculation
  | comparison {span : Span} {ty : Option Ty} {op : Operator} {lhs rhs : Node}
    (h : op.isComparison = true) (left : lhs.Arithmetic) (right : rhs.Arithmetic) :
    Node.Calculation ⟨span, ty, .binary op lhs rhs⟩

def Context.folding (cx : Context) (fold : Bool) : Context :=
  { cx with config := { cx.config with foldLiterals := fold } }

theorem Word.half_le {bits wider : Nat} (h : bits ≤ wider) : Word.half bits ≤ Word.half wider :=
  Nat.pow_le_pow_right (by decide) (Nat.sub_le_sub_right h 1)

theorem Word.resize?_of_le {bits wider : Nat} (a : Word bits) (h : bits ≤ wider) :
    ∃ w : Word wider, a.resize? = some w := by
  have hw : (Word.half bits : Int) ≤ Word.half wider := Int.ofNat_le.2 (Word.half_le h)
  have fits : -(Word.half wider : Int) ≤ a.val ∧ a.val < Word.half wider :=
    ⟨by have := a.lower; omega, by have := a.upper; omega⟩
  exact ⟨⟨a.val, fits.1, fits.2⟩, dif_pos fits⟩

theorem Literal.widenTo?_self {l : Literal} {k : NumericKind} (h : l.numericKind? = some k) :
    l.widenTo? k = some l :=
  if_pos h

theorem Word.resized {bits wider : Nat} (v : Word bits) (h : bits ≤ wider)
    (make : Word wider → Literal) {k : NumericKind} (hk : ∀ w, (make w).numericKind? = some k) :
    ∃ w, v.resize?.map make = some w ∧ w.numericKind? = some k := by
  obtain ⟨w, hw⟩ := v.resize?_of_le h
  exact ⟨make w, by rw [hw]; rfl, hk w⟩

/-- A number converts to every kind that it is promoted to. -/
theorem Literal.widenTo?_promote {l : Literal} {a : NumericKind} (h : l.numericKind? = some a)
    (b : NumericKind) :
    ∃ w, l.widenTo? (a.promote b) = some w ∧ w.numericKind? = some (a.promote b) := by
  cases l
  case short v | int v | long v =>
    all_goals
      cases h
      cases b
      all_goals first
        | exact ⟨_, rfl, rfl⟩
        | exact v.resized (by decide) .int fun _ => rfl
        | exact v.resized (by decide) .long fun _ => rfl
        | exact v.resized (by decide) .bigInteger fun _ => rfl
  case bigInteger | float | double | bigDecimal =>
    all_goals
      cases h
      cases b <;> exact ⟨_, rfl, rfl⟩
  all_goals cases h

/-! ## One operator -/

/-- Pushes a number, or fails for want of one. -/
def pushed (o : Option Literal) (m : Machine) : Except Crash Machine :=
  match o with
  | some l => .ok (m.push (.lit l))
  | none => .error .noResult

/-- A widened expression has the type of its kind and runs to a number of that kind or to a failure; a
constant is that number. -/
structure Computes (W : World) (kind : NumericKind) (o : Option Literal) (n : Node) : Prop where
  ty : n.ty = some kind.ty
  constant : ∀ l, n.kind = .literal l → o = some l
  kinds : ∀ l, o = some l → l.numericKind? = some kind
  run : ∀ m, exec W n m = pushed o m

variable {W : World} {N : Numerics} {kind k : NumericKind} {o p : Option Literal} {n lhs rhs : Node}
  {l r : Literal} {span : Span} {op : Operator}

theorem exec_literal (W : World) (span : Span) (ty : Option Ty) (l : Literal) (m : Machine) :
    exec W ⟨span, ty, .literal l⟩ m = .ok (m.push (.lit l)) := by
  rw [exec_mk]
  rfl

theorem computes_literal (h : l.numericKind? = some kind) :
    Computes W kind (some l) ((Node.ofLiteral l).withSpan span) where
  ty := congrArg some (Literal.ofTy?_ty_of_numericKind? h)
  constant := fun l' h' => by
    cases h'
    rfl
  kinds := fun l' h' => by
    cases h'
    exact h
  run := exec_literal W span _ l

theorem NumericKind.unboxed?_ty (k : NumericKind) : k.ty.unboxed? = none := by
  cases k <;> rfl

/-- A number is brought to a kind by its conversion. -/
theorem Computes.bringTo (h : Computes W k o n)
    (converts : ∀ l : Literal, l.numericKind? = some k → ∃ w, l.widenTo? kind = some w) (m : Machine) :
    exec W (Widening.bringTo n kind) m = pushed (o.bind (·.widenTo? kind)) m := by
  have unboxed : n.ty.bind Ty.unboxed? = none := by
    rw [h.ty]
    exact k.unboxed?_ty
  have known : n.ty.bind NumericKind.ofTy? = some k := by
    rw [h.ty]
    exact k.ofTy?_ty
  unfold Widening.bringTo
  simp only [unboxed, known]
  split
  · rename_i same
    subst same
    rw [h.run]
    cases ho : o with
    | none => rfl
    | some l =>
      show pushed (some l) m = pushed (l.widenTo? k) m
      rw [Literal.widenTo?_self (h.kinds l ho)]
  · have run : exec W (.convertTo .widen n kind.ty) m =
        exec W n m >>= Machine.onTop (Machine.converted .widen (some kind.ty)) := by
      rw [Node.convertTo, exec_mk]
      rfl
    rw [run, h.run]
    cases ho : o with
    | none => rfl
    | some l =>
      obtain ⟨w, hw⟩ := converts l (h.kinds l ho)
      have top : Machine.converted .widen (some kind.ty) (.lit l) = .ok (.lit w) := by
        unfold Machine.converted
        simp only [Option.bind_some, NumericKind.ofTy?_ty, hw]
      show Machine.onTop (Machine.converted .widen (some kind.ty)) (m.push (.lit l)) =
        pushed (l.widenTo? kind) m
      rw [hw]
      show (do return Machine.push (← Machine.converted .widen (some kind.ty) (.lit l)) m) = _
      rw [top]
      rfl

/-- An operator that needs no short cut runs on what its operands push. -/
theorem exec_operator (hop : op.isLogical = false) (W : World) (ty : Option Ty)
    (hl : ∀ m, exec (W.calculating N) lhs m = pushed o m)
    (hr : ∀ m, exec (W.calculating N) rhs m = pushed p m) (m : Machine) :
    exec (W.calculating N) ⟨span, ty, .binary op lhs rhs⟩ m =
      pushed (o.bind fun a => p.bind fun b => N.operate op a b) m := by
  have run : exec (W.calculating N) ⟨span, ty, .binary op lhs rhs⟩ m =
      exec (W.calculating N) lhs m >>= exec (W.calculating N) rhs >>=
        Machine.operateTop ((W.calculating N).compute op) := by
    rw [exec_mk]
    cases op <;> first | rfl | cases hop
  rw [run, hl]
  cases o with
  | none => rfl
  | some a =>
    show exec (W.calculating N) rhs (m.push (.lit a)) >>= _ = _
    rw [hr]
    cases p with
    | none => rfl
    | some b =>
      show Machine.operateTop ((W.calculating N).compute op) ((m.push (.lit a)).push (.lit b)) =
        pushed (N.operate op a b) m
      have computed : (W.calculating N).compute op (.lit a) (.lit b) =
        (N.operate op a b).map .lit := rfl
      cases hv : N.operate op a b with
      | none =>
        rw [hv] at computed
        exact Machine.operateTop_none computed
      | some v =>
        rw [hv] at computed
        exact Machine.operateTop_some computed

theorem promoted_eq {a b : Literal} {k' : NumericKind} (ha : a.numericKind? = some k)
    (hb : b.numericKind? = some k') : N.promoted op a b =
      (a.widenTo? (k.promote k')).bind fun a' => (b.widenTo? (k.promote k')).bind fun b' =>
        N.operate op a' b' := by
  unfold Numerics.promoted
  rw [ha, hb]
  rfl

/-- Two numbers are converted, and the operator works on what they are converted to. -/
theorem promoted_bind {k' : NumericKind} (ho : ∀ a, o = some a → a.numericKind? = some k)
    (hp : ∀ b, p = some b → b.numericKind? = some k') :
    (o.bind fun a => p.bind fun b => N.promoted op a b) =
      (o.bind (·.widenTo? (k.promote k'))).bind fun a =>
        (p.bind (·.widenTo? (k.promote k'))).bind fun b => N.operate op a b := by
  cases o with
  | none => rfl
  | some a =>
    cases p with
    | none =>
      show none = (a.widenTo? (k.promote k')).bind fun _ => none
      exact (Option.bind_fun_none _).symm
    | some b => exact promoted_eq (ho a rfl) (hp b rfl)

theorem literals?_eq {pair : Literal × Literal}
    (h : Widening.Operands.literals? lhs rhs = some pair) :
    lhs.kind = .literal pair.1 ∧ rhs.kind = .literal pair.2 := by
  unfold Widening.Operands.literals? at h
  split at h
  · cases h
    constructor <;> assumption
  · cases h

variable (N span op) in
/-- The operator over two numbers is done, or stands over operands that run to the numbers in their
common kind. -/
theorem numeric_cases {k' : NumericKind} (fold : Bool) (hl : Computes W k o lhs)
    (hr : Computes W k' p rhs) :
    (∃ v, Widening.numeric fold span op (k.promote k') lhs rhs = (Node.ofLiteral v).withSpan span ∧
      op.isArithmetic = true ∧ (o.bind fun a => p.bind fun b => N.promoted op a b) = some v) ∨
    ∃ lhs' rhs', Widening.numeric fold span op (k.promote k') lhs rhs =
        ⟨span, some (if op.isComparison then .boolean else (k.promote k').ty),
          .binary op lhs' rhs'⟩ ∧
      (∀ m, exec W lhs' m = pushed (o.bind (·.widenTo? (k.promote k'))) m) ∧
      ∀ m, exec W rhs' m = pushed (p.bind (·.widenTo? (k.promote k'))) m := by
  have left (l : Literal) (h : l.numericKind? = some k) :
      ∃ w, l.widenTo? (k.promote k') = some w ∧ w.numericKind? = some (k.promote k') :=
    Literal.widenTo?_promote h k'
  have right (r : Literal) (h : r.numericKind? = some k') :
      ∃ w, r.widenTo? (k.promote k') = some w ∧ w.numericKind? = some (k.promote k') := by
    rw [k.promote_comm]
    exact Literal.widenTo?_promote h k
  have brought : ∃ lhs' rhs', (⟨span, some (if op.isComparison then .boolean else (k.promote k').ty),
      .binary op (Widening.bringTo lhs (k.promote k')) (Widening.bringTo rhs (k.promote k'))⟩ : Node) =
        ⟨span, some (if op.isComparison then .boolean else (k.promote k').ty),
          .binary op lhs' rhs'⟩ ∧
      (∀ m, exec W lhs' m = pushed (o.bind (·.widenTo? (k.promote k'))) m) ∧
      ∀ m, exec W rhs' m = pushed (p.bind (·.widenTo? (k.promote k'))) m :=
    ⟨_, _, rfl, hl.bringTo fun l h => (left l h).imp fun _ => And.left,
      hr.bringTo fun r h => (right r h).imp fun _ => And.left⟩
  cases fold with
  | false => exact .inr brought
  | true =>
    cases hpair : Widening.Operands.literals? lhs rhs with
    | none =>
      right
      unfold Widening.numeric Widening.constants?
      rw [hpair]
      exact brought
    | some pair =>
      obtain ⟨l, r⟩ := pair
      obtain ⟨hlk, hrk⟩ := literals?_eq hpair
      have ho := hl.constant l hlk
      have hp := hr.constant r hrk
      obtain ⟨l', hl', -⟩ := left l (hl.kinds l ho)
      obtain ⟨r', hr', -⟩ := right r (hr.kinds r hp)
      have whole : (o.bind fun a => p.bind fun b => N.promoted op a b) = N.operate op l' r' := by
        rw [promoted_bind hl.kinds hr.kinds, ho, hp]
        show ((l.widenTo? (k.promote k')).bind fun a => (r.widenTo? (k.promote k')).bind fun b =>
          N.operate op a b) = _
        rw [hl', hr']
        rfl
      rw [whole]
      cases hfold : (if op.isArithmetic then Literal.fold? op l' r' else none) with
      | some v =>
        left
        have made : Widening.numeric true span op (k.promote k') lhs rhs =
            (Node.ofLiteral v).withSpan span := by
          unfold Widening.numeric Widening.constants?
          simp only [if_true, hpair, Option.bind_eq_bind, Option.bind_some, hl', hr', hfold]
          rfl
        split at hfold
        · rename_i harith
          refine ⟨v, made, harith, ?_⟩
          have other : op.isComparison = false := by
            cases op <;> first | rfl | cases harith
          unfold Numerics.operate
          rw [other]
          exact Numerics.arithmetic_of_fold? hfold
        · cases hfold
      | none =>
        right
        refine ⟨(Node.ofLiteral l').withSpan lhs.span, (Node.ofLiteral r').withSpan rhs.span, ?_,
          fun m => ?_, fun m => ?_⟩
        · unfold Widening.numeric Widening.constants?
          simp only [if_true, hpair, Option.bind_eq_bind, Option.bind_some, hl', hr', hfold]
          rfl
        · rw [ho, Option.bind_some, hl']
          exact exec_literal W ..
        · rw [hp, Option.bind_some, hr']
          exact exec_literal W ..

/-- An operator over two numbers runs to what it comes to as it is written. -/
theorem numeric_run {k' : NumericKind} (fold : Bool) (hop : op.isLogical = false)
    (hl : Computes (W.calculating N) k o lhs) (hr : Computes (W.calculating N) k' p rhs)
    (m : Machine) :
    exec (W.calculating N) (Widening.numeric fold span op (k.promote k') lhs rhs) m =
      pushed (o.bind fun a => p.bind fun b => N.promoted op a b) m := by
  rcases numeric_cases N span op fold hl hr with
    ⟨v, made, -, value⟩ | ⟨lhs', rhs', made, left, right⟩
  · rw [made, value]
    exact exec_literal ..
  · rw [made, exec_operator hop W _ left right, promoted_bind hl.kinds hr.kinds]

/-- Arithmetic over two numbers computes a number of their common kind. -/
theorem Computes.operation {k' : NumericKind} (fold : Bool) (hop : op.isArithmetic = true)
    (hl : Computes (W.calculating N) k o lhs) (hr : Computes (W.calculating N) k' p rhs) :
    Computes (W.calculating N) (k.promote k') (o.bind fun a => p.bind fun b => N.promoted op a b)
      (Widening.numeric fold span op (k.promote k') lhs rhs) := by
  have logical : op.isLogical = false := by
    cases op <;> first | rfl | cases hop
  have comparison : op.isComparison = false := by
    cases op <;> first | rfl | cases hop
  have kinds (v : Literal) (h : (o.bind fun a => p.bind fun b => N.promoted op a b) = some v) :
      v.numericKind? = some (k.promote k') := by
    obtain ⟨a, ha, h⟩ := Option.bind_eq_some_iff.1 h
    obtain ⟨b, hb, h⟩ := Option.bind_eq_some_iff.1 h
    rw [promoted_eq (hl.kinds a ha) (hr.kinds b hb)] at h
    obtain ⟨a', ha', h⟩ := Option.bind_eq_some_iff.1 h
    obtain ⟨b', -, h⟩ := Option.bind_eq_some_iff.1 h
    unfold Numerics.operate at h
    rw [comparison] at h
    obtain ⟨w, hw, kind⟩ := Literal.widenTo?_promote (hl.kinds a ha) k'
    rw [Numerics.arithmetic_kind h]
    cases ha'.symm.trans hw
    exact kind
  refine ⟨?_, fun l hk => ?_, kinds, numeric_run fold logical hl hr⟩
  · rcases numeric_cases N span op fold hl hr with
      ⟨v, made, -, value⟩ | ⟨lhs', rhs', made, -, -⟩
    · rw [made]
      exact congrArg some (Literal.ofTy?_ty_of_numericKind? (kinds v value))
    · rw [made, comparison]
      rfl
  · rcases numeric_cases N span op fold hl hr with
      ⟨v, made, -, value⟩ | ⟨lhs', rhs', made, -, -⟩
    · rw [made] at hk
      cases hk
      exact value
    · rw [made] at hk
      cases hk

/-! ## Whole expressions -/

theorem ofOperand?_ty (k : NumericKind) : NumericKind.ofOperand? k.ty = some k := by
  cases k <;> rfl

/-- An operator over operands of numeric types is one over numbers. -/
theorem step_operator {cx : Context} {ty : Option Ty} {k' : NumericKind}
    (hop : op.isArithmetic = true ∨ op.isComparison = true) (hl : lhs.ty = some k.ty)
    (hr : rhs.ty = some k'.ty) : Widening.step cx ⟨span, ty, .binary op lhs rhs⟩ =
      Widening.numeric cx.config.foldLiterals span op (k.promote k') lhs rhs := by
  have logical : op.isLogical = false := by
    rcases hop with h | h <;> cases op <;> first | rfl | cases h
  have numeric : (!(op.isArithmetic || op.isComparison)) = false := by
    rcases hop with h | h <;> simp [h]
  show Widening.binary cx.config.foldLiterals span ty op lhs rhs = _
  unfold Widening.binary
  simp only [logical, numeric, hl, hr, ofOperand?_ty, Bool.false_eq_true, if_false]

theorem widenNumbers_binary (cx : Context) (span : Span) (ty : Option Ty) (op : Operator)
    (lhs rhs : Node) : widenNumbers cx ⟨span, ty, .binary op lhs rhs⟩ =
      Widening.step cx ⟨span, ty, .binary op (widenNumbers cx lhs) (widenNumbers cx rhs)⟩ :=
  Node.transform_mk ..

/-- Widened arithmetic computes what it comes to as it is written, in a kind that does not depend on
whether constants are folded. -/
theorem Node.Arithmetic.computes (N : Numerics) (W : World) (cx : Context) (h : n.Arithmetic) :
    ∃ kind, ∀ fold, Computes (W.calculating N) kind (N.calculated n)
      (widenNumbers (cx.folding fold) n) := by
  induction h with
  | @number span l k h =>
    refine ⟨k, fun fold => ?_⟩
    rw [N.calculated_literal]
    exact computes_literal h
  | @operation span ty op lhs rhs hop left right ihl ihr =>
    obtain ⟨k, hl⟩ := ihl
    obtain ⟨k', hr⟩ := ihr
    refine ⟨k.promote k', fun fold => ?_⟩
    rw [widenNumbers_binary, step_operator (.inl hop) (hl fold).ty (hr fold).ty,
      N.calculated_binary]
    exact .operation fold hop (hl fold) (hr fold)

/-- The type and the outcome of a calculation do not depend on whether constants are folded: it runs
to the number that it comes to as it is written, or fails if there is none. -/
theorem folding_keeps_outcome (N : Numerics) (W : World) (cx : Context) {n : Node}
    (h : n.Calculation) :
    (widenNumbers (cx.folding true) n).ty = (widenNumbers (cx.folding false) n).ty ∧
      (widenNumbers (cx.folding true) n).ty.isSome ∧
      ∀ fold m, exec (W.calculating N) (widenNumbers (cx.folding fold) n) m =
        pushed (N.calculated n) m := by
  cases h with
  | arithmetic h =>
    obtain ⟨kind, computes⟩ := h.computes N W cx
    refine ⟨?_, ?_, fun fold => (computes fold).run⟩
    · rw [(computes true).ty, (computes false).ty]
    · rw [(computes true).ty]
      rfl
  | @comparison span ty op lhs rhs hop left right =>
    obtain ⟨k, hl⟩ := left.computes N W cx
    obtain ⟨k', hr⟩ := right.computes N W cx
    have arithmetic : op.isArithmetic = false := by
      cases op <;> first | rfl | cases hop
    have logical : op.isLogical = false := by
      cases op <;> first | rfl | cases hop
    have widened (fold : Bool) : widenNumbers (cx.folding fold) ⟨span, ty, .binary op lhs rhs⟩ =
        Widening.numeric fold span op (k.promote k') (widenNumbers (cx.folding fold) lhs)
          (widenNumbers (cx.folding fold) rhs) := by
      rw [widenNumbers_binary, step_operator (.inr hop) (hl fold).ty (hr fold).ty]
      rfl
    have boolean (fold : Bool) :
        (widenNumbers (cx.folding fold) ⟨span, ty, .binary op lhs rhs⟩).ty = some .boolean := by
      rw [widened]
      rcases numeric_cases N span op fold (hl fold) (hr fold) with
        ⟨v, -, harith, -⟩ | ⟨lhs', rhs', made, -, -⟩
      · rw [arithmetic] at harith
        cases harith
      · rw [made, hop]
        rfl
    refine ⟨by rw [boolean, boolean], by rw [boolean]; rfl, fun fold m => ?_⟩
    rw [widened, N.calculated_binary]
    exact numeric_run fold logical (hl fold) (hr fold) m

/-- `(7 + 3L) * 1.5D < 2`: the sum can be folded, the product and the comparison cannot. -/
def mixedCalculation : Node :=
  { kind := .binary .lt
      { kind := .binary .mul
          { kind := .binary .add (.ofLiteral (.int ⟨7, by decide, by decide⟩))
              (.ofLiteral (.long ⟨3, by decide, by decide⟩)) }
          (.ofLiteral (.bigDecimal "1.5")) }
      (.ofLiteral (.short ⟨2, by decide, by decide⟩)) }

/-- Numerics that know one product and one comparison. -/
def oneProduct : Numerics where
  decimal op a b := if op = .mul ∧ a = "10" ∧ b = "1.5" then some "15.0" else none
  compare op l r :=
    if op = .lt ∧ l = .bigDecimal "15.0" ∧ r = .bigDecimal "2" then some false else none

theorem folding_keeps_outcome_mixed :
    let W : World :=
      ⟨.object 0, fun _ _ => none, fun _ _ _ => none, fun _ _ _ => none, fun _ _ _ => none⟩
    let cx : Context := (Setup.ofConfig {}).context .standard {}
    mixedCalculation.Calculation ∧
      (widenNumbers (cx.folding true) mixedCalculation).ty =
        (widenNumbers (cx.folding false) mixedCalculation).ty ∧
      ∀ fold m, exec (W.calculating oneProduct) (widenNumbers (cx.folding fold) mixedCalculation) m =
        .ok (m.push (.lit (.bool false))) := by
  intro W cx
  have calculation : mixedCalculation.Calculation :=
    .comparison rfl (.operation rfl (.operation rfl (.number rfl) (.number rfl)) (.number rfl))
      (.number rfl)
  have value : oneProduct.calculated mixedCalculation = some (.bool false) := by
    decide +kernel
  obtain ⟨same, -, run⟩ := folding_keeps_outcome oneProduct W cx calculation
  refine ⟨calculation, same, fun fold m => ?_⟩
  rw [run, value]
  rfl

end NavScript
