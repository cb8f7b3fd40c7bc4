import NavScript.Proofs.Alarms
import NavScript.Proofs.Compatible
import NavScript.Proofs.Numerals

/-!
# Decimals behind widening

Widening writes constants as decimals where they stand beside one (`WritesAt`). So a decimal behind it was
there before, or is what some constant was written as (`mem_decimals_widenNumbers`, from `mem_decimals_step`
for one node). Integers are written as numerals that denote them and binary numbers as numerals if they are
finite, so the decimals behind widening are numerals unless a value that is not finite is written as one
(`widened_decimals`). Such values come from folded arithmetic, at any depth.
-/

namespace NavScript

open Decimal (IsNumeral numeral?)

variable {cx : Context} {n m lhs rhs : Node} {span : Span} {ty : Option Ty} {op : Operator}
  {kind k k' : NumericKind} {l r l' r' v : Literal} {text : String} {fold : Bool}

namespace Literal

/-- The text of the decimal that another number is converted to. -/
def decimalText? : Literal → Option String
  | short v => some (toString v.val)
  | int v => some (toString v.val)
  | long v => some (toString v.val)
  | bigInteger v => some (toString v.val)
  | float v => some (floatText .plain v)
  | double v => some (doubleText .plain v)
  | _ => none

/-- The value of an integer. -/
def integer? : Literal → Option ℤ
  | short v => some v.val
  | int v => some v.val
  | long v => some v.val
  | bigInteger v => some v.val
  | _ => none

/-- The constant is no infinity and not without a value. -/
def isFinite : Literal → Bool
  | float v => v.isFinite
  | double v => v.isFinite
  | _ => true

/-- What converts to a decimal is one, or is written as one. -/
theorem widenTo?_decimal_iff : l.widenTo? .bigDecimal = some l' ↔
    ∃ text, l' = bigDecimal text ∧ (l = bigDecimal text ∨ l.decimalText? = some text) := by
  cases l <;> simp [widenTo?, numericKind?, decimalText?, eq_comm]

/-- Decimals convert to no other kind. -/
theorem eq_of_widenTo?_decimal (h : (bigDecimal text).widenTo? kind = some l') : kind = .bigDecimal := by
  cases kind <;> first | rfl | cases h

theorem fold?_decimals {text' : String} (op : Operator) :
    fold? op (bigDecimal text) (bigDecimal text') = none := rfl

/-- Arithmetic makes no decimals. -/
theorem fold?_ne_bigDecimal (text : String) : fold? op l r ≠ some (bigDecimal text) := by
  intro made
  unfold fold? at made
  split at made
  all_goals first
    | cases made
    | (obtain ⟨v, -, made⟩ := Option.map_eq_some_iff.1 made
       cases made)

/-- An integer is written as a numeral that denotes it. -/
theorem numeral?_decimalText {value : ℤ} (integer : l.integer? = some value)
    (written : l.decimalText? = some text) : numeral? text = some (value : ℚ) := by
  cases l
  case short | int | long | bigInteger =>
    all_goals
      obtain rfl := Option.some.inj integer
      obtain rfl := Option.some.inj written
      exact Decimal.numeral?_int _
  all_goals cases integer

/-- A number is written as a numeral exactly if it is finite. -/
theorem isNumeral_decimalText (written : l.decimalText? = some text) : IsNumeral text ↔ l.isFinite = true := by
  cases l
  case short | int | long | bigInteger =>
    all_goals
      obtain rfl := Option.some.inj written
      exact iff_of_true (Decimal.isNumeral_int _) rfl
  case float v =>
    obtain rfl := Option.some.inj written
    exact Decimal.isNumeral_text_iff ..
  case double v =>
    obtain rfl := Option.some.inj written
    exact Decimal.isNumeral_text_iff ..
  all_goals cases written

end Literal

/-- The decimals among the constants of a tree. -/
def Node.decimals (n : Node) : List String :=
  n.nodes.filterMap fun m =>
    match m.kind with
    | .literal (.bigDecimal text) => some text
    | _ => none

theorem mem_decimals : text ∈ n.decimals ↔ ∃ m ∈ n.nodes, m.kind = .literal (.bigDecimal text) := by
  unfold Node.decimals
  rw [List.mem_filterMap]
  refine exists_congr fun m => and_congr_right fun _ => ?_
  split
  · rename_i own held
    simp [held]
  · rename_i other
    exact iff_of_false nofun fun held => other text held

theorem mem_decimals_mk {kind : Kind Node} : text ∈ Node.decimals ⟨span, ty, kind⟩ ↔
    kind = .literal (.bigDecimal text) ∨ ∃ c ∈ kind.children, text ∈ c.decimals := by
  simp only [mem_decimals, Node.nodes_mk, List.mem_cons, exists_eq_or_imp, List.mem_flatMap]
  refine or_congr_right ⟨?_, ?_⟩
  · rintro ⟨m, ⟨c, hc, hm⟩, held⟩
    exact ⟨c, hc, m, hm, held⟩
  · rintro ⟨c, hc, m, hm, held⟩
    exact ⟨m, ⟨c, hc, hm⟩, held⟩

theorem mem_decimals_literal (constant : n.kind = .literal l) : text ∈ n.decimals ↔ l = .bigDecimal text := by
  obtain ⟨span, ty, kind⟩ := n
  subst constant
  simp [mem_decimals_mk, Kind.children]

theorem mem_decimals_converted (h : Converted n m) : text ∈ m.decimals ↔ text ∈ n.decimals := by
  induction h with
  | refl => rfl
  | convert _ span ty c ih =>
    rw [mem_decimals_mk, ← ih]
    simp [Kind.children]

theorem mem_decimals_binary :
    text ∈ Node.decimals ⟨span, ty, .binary op lhs rhs⟩ ↔ text ∈ lhs.decimals ∨ text ∈ rhs.decimals := by
  simp [mem_decimals_mk, Kind.children]

namespace Widening

/-- Constants are converted, and become one if the operator has a value over them. -/
theorem constants?_iff {ty : Ty} : constants? span op kind ty lhs rhs = some n ↔
    ∃ l r l' r', lhs.kind = .literal l ∧ rhs.kind = .literal r ∧
      l.widenTo? kind = some l' ∧ r.widenTo? kind = some r' ∧
      n = match (if op.isArithmetic then Literal.fold? op l' r' else none) with
        | some value => (Node.ofLiteral value).withSpan span
        | none => ⟨span, some ty, .binary op ((Node.ofLiteral l').withSpan lhs.span)
            ((Node.ofLiteral r').withSpan rhs.span)⟩ := by
  constructor
  · intro made
    unfold constants? at made
    simp only [Option.bind_eq_bind, Option.bind_eq_some_iff] at made
    obtain ⟨⟨l, r⟩, pair, l', hl, r', hr, made⟩ := made
    obtain ⟨left, right⟩ := literals?_eq pair
    refine ⟨l, r, l', r', left, right, hl, hr, ?_⟩
    cases folded : (if op.isArithmetic then Literal.fold? op l' r' else none) <;>
      simp only [folded] at made ⊢ <;> exact (Option.some.inj made).symm
  · rintro ⟨l, r, l', r', left, right, hl, hr, rfl⟩
    unfold constants? Operands.literals?
    simp only [left, right, Option.bind_eq_bind, Option.bind_some, hl, hr]
    cases folded : (if op.isArithmetic then Literal.fold? op l' r' else none) <;> rfl

/-- Constants that are brought to decimals: operands of which the common kind is that of decimals. -/
structure Decimals (fold : Bool) (kind : NumericKind) (lhs rhs : Node) (l r : Literal) : Prop where
  folds : fold = true
  decimals : kind = .bigDecimal
  left : lhs.kind = .literal l
  right : rhs.kind = .literal r
  leftWidened : (l.widenTo? .bigDecimal).isSome
  rightWidened : (r.widenTo? .bigDecimal).isSome

/-- Of two constants that are brought to decimals, one is written as this text. -/
def Writes (fold : Bool) (kind : NumericKind) (lhs rhs : Node) (source : Literal) (text : String) : Prop :=
  ∃ l r, Decimals fold kind lhs rhs l r ∧ (source = l ∨ source = r) ∧ source.decimalText? = some text

/-- Constants of which the common kind is that of decimals are decimals, or are written as such. -/
theorem mem_decimals_constants {ty : Ty}
    (made : constants? span op .bigDecimal ty lhs rhs = some n) : text ∈ n.decimals ↔
      text ∈ lhs.decimals ∨ text ∈ rhs.decimals ∨ ∃ source, Writes true .bigDecimal lhs rhs source text := by
  obtain ⟨l, r, l', r', left, right, hl, hr, rfl⟩ := constants?_iff.1 made
  have found : Decimals true .bigDecimal lhs rhs l r := ⟨rfl, rfl, left, right, by simp [hl], by simp [hr]⟩
  have writes : (∃ source, Writes true .bigDecimal lhs rhs source text) ↔
      l.decimalText? = some text ∨ r.decimalText? = some text := by
    constructor
    · rintro ⟨source, l₁, r₁, other, same, written⟩
      obtain rfl := Kind.literal.inj (left.symm.trans other.left)
      obtain rfl := Kind.literal.inj (right.symm.trans other.right)
      obtain rfl | rfl := same
      · exact .inl written
      · exact .inr written
    · rintro (written | written)
      · exact ⟨l, l, r, found, .inl rfl, written⟩
      · exact ⟨r, l, r, found, .inr rfl, written⟩
  have read {l l' : Literal} (h : l.widenTo? .bigDecimal = some l') :
      l' = .bigDecimal text ↔ l = .bigDecimal text ∨ l.decimalText? = some text := by
    constructor
    · rintro rfl
      obtain ⟨t, same, written⟩ := Literal.widenTo?_decimal_iff.1 h
      obtain rfl := Literal.bigDecimal.inj same
      exact written
    · exact fun written => Option.some.inj (h.symm.trans (Literal.widenTo?_decimal_iff.2 ⟨text, rfl, written⟩))
  obtain ⟨s, rfl, -⟩ := Literal.widenTo?_decimal_iff.1 hl
  obtain ⟨t, rfl, -⟩ := Literal.widenTo?_decimal_iff.1 hr
  rw [writes, Literal.fold?_decimals, ite_self, mem_decimals_binary, mem_decimals_literal rfl,
    mem_decimals_literal rfl, mem_decimals_literal left, mem_decimals_literal right, read hl, read hr]
  tauto

/-- Constants of another kind hold no decimal, and none is made of them. -/
theorem not_mem_decimals_constants {ty : Ty} (made : constants? span op kind ty lhs rhs = some n)
    (other : kind ≠ .bigDecimal) (text : String) :
    text ∉ n.decimals ∧ text ∉ lhs.decimals ∧ text ∉ rhs.decimals := by
  obtain ⟨l, r, l', r', left, right, hl, hr, rfl⟩ := constants?_iff.1 made
  have none {l l' : Literal} (h : l.widenTo? kind = some l') : l ≠ .bigDecimal text ∧ l' ≠ .bigDecimal text := by
    refine ⟨?_, ?_⟩
    · rintro rfl
      exact other (Literal.eq_of_widenTo?_decimal h)
    · rintro rfl
      exact other (Option.some.inj (Literal.numericKind?_widenTo? h)).symm
  rw [mem_decimals_literal left, mem_decimals_literal right]
  refine ⟨?_, (none hl).1, (none hr).1⟩
  split
  · rename_i value folded
    rw [mem_decimals_literal rfl]
    rintro rfl
    split at folded
    · exact Literal.fold?_ne_bigDecimal text folded
    · cases folded
  · rw [mem_decimals_binary, mem_decimals_literal rfl, mem_decimals_literal rfl]
    simp [none hl, none hr]

/-- Over numbers an operator has the decimals of its operands, and those that constants are written as. -/
theorem mem_decimals_numeric : text ∈ (numeric fold span op kind lhs rhs).decimals ↔
    text ∈ lhs.decimals ∨ text ∈ rhs.decimals ∨ ∃ source, Writes fold kind lhs rhs source text := by
  have brought (none : ¬ ∃ source, Writes fold kind lhs rhs source text) :
      text ∈ (overKind span op kind (bringTo lhs kind) (bringTo rhs kind)).decimals ↔
        text ∈ lhs.decimals ∨ text ∈ rhs.decimals ∨ ∃ source, Writes fold kind lhs rhs source text := by
    rw [or_iff_left none, overKind, mem_decimals_binary, mem_decimals_converted (bringTo_converted ..),
      mem_decimals_converted (bringTo_converted ..)]
  cases fold with
  | false =>
    refine brought ?_
    rintro ⟨source, l, r, found, -⟩
    cases found.folds
  | true =>
    cases made : constants? span op kind (if op.isComparison then .boolean else kind.ty) lhs rhs with
    | some n =>
      rw [numeric_of_constants?_some made]
      by_cases decimals : kind = .bigDecimal
      · subst decimals
        exact mem_decimals_constants made
      · have ⟨out, left, right⟩ := not_mem_decimals_constants made decimals text
        refine iff_of_false out ?_
        rintro (h | h | ⟨source, l, r, found, -⟩)
        · exact left h
        · exact right h
        · exact decimals found.decimals
    | none =>
      rw [numeric_of_constants?_none true made]
      refine brought ?_
      rintro ⟨source, l, r, ⟨-, rfl, left, right, leftWidened, rightWidened⟩, -⟩
      obtain ⟨l', hl⟩ := Option.isSome_iff_exists.1 leftWidened
      obtain ⟨r', hr⟩ := Option.isSome_iff_exists.1 rightWidened
      have widened : constants? span op .bigDecimal
          (if op.isComparison then .boolean else NumericKind.bigDecimal.ty) lhs rhs = some _ :=
        constants?_iff.2 ⟨l, r, l', r', left, right, hl, hr, rfl⟩
      rw [made] at widened
      cases widened

/-- At this node widening writes a constant as a decimal of this text. -/
def WritesAt (cx : Context) (n : Node) (source : Literal) (text : String) : Prop :=
  ∃ op lhs rhs k k', n.kind = .binary op lhs rhs ∧ Numbers op lhs rhs k k' ∧
    Writes cx.config.foldLiterals (k.promote k') lhs rhs source text

theorem mem_decimals_conditional (classes : ClassTable) (span : Span) (c t e : Node) :
    text ∈ (conditional classes span c t e).decimals ↔
      text ∈ c.decimals ∨ text ∈ t.decimals ∨ text ∈ e.decimals := by
  have children (ty : Option Ty) (t e : Node) : text ∈ Node.decimals ⟨span, ty, .conditional c t e⟩ ↔
      text ∈ c.decimals ∨ text ∈ t.decimals ∨ text ∈ e.decimals := by
    simp [mem_decimals_mk, Kind.children]
  obtain ⟨made, -⟩ | ⟨left, right, -, -, ⟨-, made⟩ | ⟨-, ⟨kind, -, -, made⟩ | made⟩⟩ :=
    conditional_made classes span c t e <;> rw [made, children]
  · rw [mem_decimals_converted (bringTo_converted ..), mem_decimals_converted (bringTo_converted ..)]
  · rw [mem_decimals_converted (boxedFor_converted ..), mem_decimals_converted (boxedFor_converted ..)]

/-- The step of widening keeps the decimals, and adds those that constants are written as. -/
theorem mem_decimals_step (cx : Context) (n : Node) : text ∈ (step cx n).decimals ↔
    text ∈ n.decimals ∨ ∃ source, WritesAt cx n source text := by
  obtain ⟨span, ty, kind⟩ := n
  by_cases numbers : ∃ op lhs rhs k k', kind = .binary op lhs rhs ∧ Numbers op lhs rhs k k'
  · obtain ⟨op, lhs, rhs, k, k', rfl, numbers⟩ := numbers
    have writes (source : Literal) : WritesAt cx ⟨span, ty, .binary op lhs rhs⟩ source text ↔
        Writes cx.config.foldLiterals (k.promote k') lhs rhs source text := by
      constructor
      · rintro ⟨op₁, lhs₁, rhs₁, k₁, k₁', same, others, writes⟩
        cases same
        obtain rfl := Option.some.inj (numbers.left.symm.trans others.left)
        obtain rfl := Option.some.inj (numbers.right.symm.trans others.right)
        exact writes
      · exact fun writes => ⟨op, lhs, rhs, k, k', rfl, numbers, writes⟩
    show text ∈ (binary cx.config.foldLiterals span ty op lhs rhs).decimals ↔ _
    rw [binary_numbers _ _ numbers, mem_decimals_numeric, mem_decimals_binary, or_assoc]
    simp only [writes]
  · have none : ¬ ∃ source, WritesAt cx ⟨span, ty, kind⟩ source text := by
      rintro ⟨source, op, lhs, rhs, k, k', rfl, found, -⟩
      exact numbers ⟨op, lhs, rhs, k, k', rfl, found⟩
    rw [or_iff_left none]
    cases kind
    case binary op lhs rhs =>
      obtain ⟨boolean, -, made⟩ := binary_other span cx.config.foldLiterals
        fun l r h => numbers ⟨op, lhs, rhs, l, r, rfl, h⟩
      show text ∈ (binary cx.config.foldLiterals span ty op lhs rhs).decimals ↔ _
      rw [made ty, mem_decimals_binary, mem_decimals_binary]
    case conditional c t e =>
      cases ty with
      | some ty => rfl
      | none =>
        show text ∈ (conditional cx.classes span c t e).decimals ↔ _
        rw [mem_decimals_conditional, mem_decimals_mk]
        simp [Kind.children]
    all_goals rfl

/-- Behind widening there are the decimals of the tree, and those that constants are written as. -/
theorem mem_decimals_widenNumbers (cx : Context) (root : Node) (text : String) :
    text ∈ (widenNumbers cx root).decimals ↔
      text ∈ root.decimals ∨ ∃ n ∈ root.met (step cx), ∃ source, WritesAt cx n source text := by
  unfold widenNumbers
  induction root using Node.induct with
  | h span ty kind ih =>
    have own : kind.map (Node.transform (step cx)) = .literal (.bigDecimal text) ↔
        kind = .literal (.bigDecimal text) := by
      cases kind <;> simp [Kind.map]
    have below : (∃ c ∈ (kind.map (Node.transform (step cx))).children, text ∈ c.decimals) ↔
        (∃ c ∈ kind.children, text ∈ c.decimals) ∨
          ∃ n ∈ kind.children.flatMap (Node.met (step cx)), ∃ source, WritesAt cx n source text := by
      rw [Kind.children_map]
      simp only [List.mem_map, exists_exists_and_eq_and, List.mem_flatMap]
      constructor
      · rintro ⟨c, hc, held⟩
        obtain held | ⟨n, hn, writes⟩ := (ih c hc).1 held
        · exact .inl ⟨c, hc, held⟩
        · exact .inr ⟨n, ⟨c, hc, hn⟩, writes⟩
      · rintro (⟨c, hc, held⟩ | ⟨n, ⟨c, hc, hn⟩, writes⟩)
        · exact ⟨c, hc, (ih c hc).2 (.inl held)⟩
        · exact ⟨c, hc, (ih c hc).2 (.inr ⟨n, hn, writes⟩)⟩
    rw [Node.transform_mk, mem_decimals_step, mem_decimals_mk, mem_decimals_mk, own, below, Node.met_mk]
    simp only [List.mem_append, List.mem_singleton, or_and_right, exists_or, exists_eq_left, or_assoc]

end Widening

open Widening (WritesAt step)

/-- Behind widening of a tree in which all decimals are numerals there are these decimals and those that
constants are written as. Integers are written as numerals that denote them. All are numerals exactly if
each binary number that is written as a decimal, at any depth and with what folding made of it, is finite. -/
theorem widened_decimals (cx : Context) {root : Node}
    (numerals : ∀ text ∈ root.decimals, IsNumeral text) :
    (∀ text, text ∈ (widenNumbers cx root).decimals ↔ text ∈ root.decimals ∨
      ∃ n ∈ root.met (step cx), ∃ source, WritesAt cx n source text) ∧
    (∀ n ∈ root.met (step cx), ∀ source text, WritesAt cx n source text →
      ∀ value, source.integer? = some value → numeral? text = some (value : ℚ)) ∧
    ((∀ text ∈ (widenNumbers cx root).decimals, IsNumeral text) ↔
      ∀ n ∈ root.met (step cx), ∀ source text, WritesAt cx n source text → source.isFinite = true) := by
  have behind := Widening.mem_decimals_widenNumbers cx root
  refine ⟨behind, ?_, ?_, ?_⟩
  · rintro n - source text ⟨_, _, _, _, _, -, -, _, _, -, -, written⟩ value integer
    exact Literal.numeral?_decimalText integer written
  · intro all n hn source text writes
    have numeral := all text ((behind text).2 (.inr ⟨n, hn, source, writes⟩))
    obtain ⟨_, _, _, _, _, -, -, _, _, -, -, written⟩ := writes
    exact (Literal.isNumeral_decimalText written).1 numeral
  · intro finite text held
    obtain held | ⟨n, hn, source, writes⟩ := (behind text).1 held
    · exact numerals text held
    · have finite := finite n hn source text writes
      obtain ⟨_, _, _, _, _, -, -, _, _, -, -, written⟩ := writes
      exact (Literal.isNumeral_decimalText written).2 finite

/-- A quotient of two doubles. -/
def quotientOf (a b : ℤ) : Node :=
  .ofKind (.binary .div (.ofLiteral (.double (Decimal.floatOfInt a)))
    (.ofLiteral (.double (Decimal.floatOfInt b))))

/-- A number plus a decimal. -/
def plusDecimal (n : Node) (text : String) : Node :=
  .ofKind (.binary .add n (.ofLiteral (.bigDecimal text)))

/-- In `7 + 1.5D < 1.0d / 8.0d + 2.5D` the seven and the quotient are written as decimals. -/
theorem widened_decimals_eighth :
    let seven := Node.ofLiteral (.int ⟨7, by decide, by decide⟩)
    let sum := plusDecimal seven "1.5"
    let root := Node.ofKind (.binary .lt sum (plusDecimal (quotientOf 1 8) "2.5"))
    (∀ text ∈ root.decimals, IsNumeral text) ∧
      (widenNumbers bareContext root).decimals = ["7", "1.5", "0.125", "2.5"] ∧
      (∀ n ∈ root.met (step bareContext), ∀ source text,
        WritesAt bareContext n source text → source.isFinite = true) ∧
      sum ∈ root.met (step bareContext) ∧ numeral? "7" = some 7 := by
  intro seven sum root
  have numerals : ∀ text ∈ root.decimals, IsNumeral text := by decide +kernel
  have behind : (widenNumbers bareContext root).decimals = ["7", "1.5", "0.125", "2.5"] := by decide +kernel
  have met : sum ∈ root.met (step bareContext) := by
    refine (Node.mem_met root).2 ⟨sum, ?_, rfl⟩
    simp [root, Node.ofKind, Node.nodes_mk, Kind.children, sum, plusDecimal]
  obtain ⟨-, values, all⟩ := widened_decimals bareContext numerals
  refine ⟨numerals, behind, all.1 ?_, met, ?_⟩
  · rw [behind]
    decide
  · have brought : Widening.Decimals true .bigDecimal seven (.ofLiteral (.bigDecimal "1.5"))
        (.int ⟨7, by decide, by decide⟩) (.bigDecimal "1.5") := ⟨rfl, rfl, rfl, rfl, rfl, rfl⟩
    refine values sum met (.int ⟨7, by decide, by decide⟩) "7" ?_ 7 rfl
    exact ⟨.add, _, _, .int, .bigDecimal, rfl, ⟨rfl, rfl, rfl⟩, _, _, brought, .inl rfl, rfl⟩

/-- `1.0d / 0.0d + 1D`: the infinity that folding makes is written as a decimal. -/
theorem widened_decimals_infinite :
    let root := plusDecimal (quotientOf 1 0) "1"
    (∀ text ∈ root.decimals, IsNumeral text) ∧
      "inf" ∈ (widenNumbers bareContext root).decimals ∧ ¬ IsNumeral "inf" := by
  intro root
  exact ⟨by decide +kernel, by decide +kernel, by decide⟩

end NavScript
