import NavScript.Proofs.Passes
import NavScript.Proofs.Tracks

/-!
# Void values in guarded chains

Void counts as primitive, so wherever lowering boxes a primitive it boxes void too: behind a guard,
and where a condition hands its candidate on. What a closed chain converts is what its nodes convert,
and void that stands last behind another node (`Line.mem_voided_iff`).
-/

namespace NavScript

/-- The conversion that a node applies to a void operand, for given types of operands. -/
def voidConversion (typing : Node → Option Ty) (n : Node) : List Conversion :=
  match n.kind with
  | .convert c e => if typing e = some .void then [c] else []
  | _ => []

/-- The conversions of void in a tree. -/
def Node.voided (typing : Node → Option Ty) (n : Node) : List Conversion :=
  n.gather (voidConversion typing)

/-- Nodes other than operators and conditionals have the types that they are made with. -/
def KeepsTypes (typing : Node → Option Ty) : Prop :=
  ∀ n : Node, n.label ∉ ["Binary", "Conditional"] → typing n = n.ty

/-- A node that is made with a type and keeps it. -/
def Node.Firm (typing : Node → Option Ty) (n : Node) (t : Ty) : Prop :=
  n.ty = some t ∧ typing n = some t

theorem Ty.isVoid_iff {t : Ty} : t.isVoid = true ↔ t = .void := by
  constructor
  · intro h
    unfold Ty.isVoid at h
    split at h
    · rfl
    · cases h
  · rintro rfl
    rfl

theorem Ty.ne_void {t : Ty} (h : t.isPrimitive = false) : t ≠ .void := by
  rintro rfl
  cases h

section

variable {typing : Node → Option Ty} {c : Conversion} {n : Node} {t : Ty}

theorem voidConversion_other {n : Node} (h : n.label ≠ "Convert") : voidConversion typing n = [] := by
  obtain ⟨span, ty, kind⟩ := n
  cases kind
  case convert => exact absurd rfl h
  all_goals rfl

theorem mem_voided_own {kind : Kind Node} (h : kind.label ≠ "Stream") (span : Span) (ty : Option Ty) :
    c ∈ Node.voided typing ⟨span, ty, kind⟩ ↔
      c ∈ voidConversion typing ⟨span, ty, kind⟩ ∨ ∃ e ∈ kind.children, c ∈ e.voided typing := by
  unfold Node.voided
  rw [gather_mk h, List.mem_append, List.mem_flatMap]

theorem mem_voided_mk {kind : Kind Node} (h : kind.label ∉ ["Stream", "Convert"]) (span : Span)
    (ty : Option Ty) :
    c ∈ Node.voided typing ⟨span, ty, kind⟩ ↔ ∃ e ∈ kind.children, c ∈ e.voided typing := by
  simp only [List.mem_cons, List.not_mem_nil, or_false, not_or] at h
  rw [mem_voided_own h.1, voidConversion_other (n := ⟨span, ty, kind⟩) h.2, or_iff_right List.not_mem_nil]

theorem mem_voidConversion_convert (span : Span) (ty : Option Ty) (d : Conversion) (e : Node) :
    c ∈ voidConversion typing ⟨span, ty, .convert d e⟩ ↔ c = d ∧ typing e = some .void := by
  unfold voidConversion
  by_cases h : typing e = some .void <;> simp [h]

theorem mem_voided_convert (span : Span) (ty : Option Ty) (d : Conversion) (e : Node) :
    c ∈ Node.voided typing ⟨span, ty, .convert d e⟩ ↔
      (c = d ∧ typing e = some .void) ∨ c ∈ e.voided typing := by
  rw [mem_voided_own (by simp [Kind.label]), mem_voidConversion_convert]
  simp [Kind.children]

theorem not_mem_voided_leaf {kind : Kind Node} (h : kind.label ∉ ["Stream", "Convert"])
    (leaf : kind.children = []) (span : Span) (ty : Option Ty) :
    c ∉ Node.voided typing ⟨span, ty, kind⟩ := by
  rw [mem_voided_mk h, leaf]
  rintro ⟨e, he, -⟩
  exact absurd he List.not_mem_nil

theorem mem_voided_unary {kind : Kind Node} {e : Node} (h : kind.label ∉ ["Stream", "Convert"])
    (child : kind.children = [e]) (span : Span) (ty : Option Ty) :
    c ∈ Node.voided typing ⟨span, ty, kind⟩ ↔ c ∈ e.voided typing := by
  rw [mem_voided_mk h, child]
  simp

theorem mem_voided_pair {kind : Kind Node} {l r : Node} (h : kind.label ∉ ["Stream", "Convert"])
    (both : kind.children = [l, r]) (span : Span) (ty : Option Ty) :
    c ∈ Node.voided typing ⟨span, ty, kind⟩ ↔ c ∈ l.voided typing ∨ c ∈ r.voided typing := by
  rw [mem_voided_mk h, both]
  simp

theorem mem_voided_first {kind : Kind Node} {e : Node} {rest : List Node}
    (h : kind.label ∉ ["Stream", "Convert"]) (children : kind.children = e :: rest) (span : Span)
    (ty : Option Ty) : c ∈ Node.voided typing ⟨span, ty, kind⟩ ↔
      c ∈ e.voided typing ∨ ∃ m ∈ rest, c ∈ m.voided typing := by
  rw [mem_voided_mk h, children, List.exists_mem_cons_iff]

theorem mem_voided_conditional (span : Span) (ty : Option Ty) (test l r : Node) :
    c ∈ Node.voided typing ⟨span, ty, .conditional test l r⟩ ↔
      c ∈ test.voided typing ∨ c ∈ l.voided typing ∨ c ∈ r.voided typing := by
  rw [mem_voided_mk (by simp [Kind.label])]
  simp [Kind.children]

theorem mem_voided_withSpan (n : Node) (span : Span) :
    c ∈ (n.withSpan span).voided typing ↔ c ∈ n.voided typing := by
  obtain ⟨span', ty, kind⟩ := n
  by_cases stream : kind.label = "Stream"
  · cases kind
    case stream steps =>
      unfold Node.voided Node.withSpan
      rw [gather_stream, gather_stream]
      exact Iff.rfl
    all_goals simp [Kind.label] at stream
  · unfold Node.voided Node.withSpan
    rw [gather_mk stream, gather_mk stream]
    exact Iff.rfl

theorem not_mem_voided_this (h : n.isThis = true) : c ∉ n.voided typing := by
  obtain ⟨span, ty, kind⟩ := n
  cases kind
  case this => exact not_mem_voided_leaf (by simp [Kind.label]) rfl _ _
  all_goals cases h

theorem Node.Firm.unique {u : Ty} (h : n.Firm typing t) (h' : n.Firm typing u) : t = u :=
  Option.some.inj (h.1.symm.trans h'.1)

theorem KeepsTypes.firm (keeps : KeepsTypes typing) (ty : n.ty = some t)
    (label : n.label ∉ ["Binary", "Conditional"]) : n.Firm typing t :=
  ⟨ty, (keeps n label).trans ty⟩

end

namespace Lower

section

variable {typing : Node → Option Ty} {c : Conversion} {b : Bool} {n body : Node} {s t : Ty}

theorem mem_voided_boxedAs (h : n.Firm typing t) :
    c ∈ (boxedAs t n).voided typing ↔ c ∈ n.voided typing ∨ c = .box ∧ t = .void := by
  unfold boxedAs
  split
  · rw [Node.convertTo, mem_voided_convert, h.2, Option.some.injEq, or_comm]
  · rename_i reference
    refine (or_iff_left ?_).symm
    rintro ⟨-, hv⟩
    exact reference (by rw [hv]; rfl)

theorem mem_voided_guarded (span : Span) (ty stackedTy : Ty) :
    c ∈ (guarded span ty n stackedTy body).voided typing ↔
      c ∈ n.voided typing ∨ c ∈ body.voided typing := by
  have test : c ∉ Node.voided typing { ty := some .boolean, kind := .isNull (.stackedOf stackedTy) } := by
    rw [mem_voided_unary (by simp [Kind.label]) rfl]
    exact not_mem_voided_leaf (by simp [Kind.label]) rfl _ _
  have stop : c ∉ Node.voided typing
      { ty := some ty, kind := .sequence [.ofStackOp .pop, .nullOf ty] } := by
    rw [mem_voided_pair (by simp [Kind.label]) rfl]
    rintro (h | h) <;> exact not_mem_voided_leaf (by simp [Kind.label]) rfl _ _ h
  have dup : c ∉ (Node.ofStackOp .dup).voided typing :=
    not_mem_voided_leaf (by simp [Kind.label]) rfl _ _
  unfold guarded
  rw [mem_voided_mk (by simp [Kind.label])]
  simp [Kind.children, mem_voided_conditional, test, stop, dup]

/-- A guard boxes void where the body is boxed, and where the subject is. -/
theorem mem_voided_handed (subject : n.Firm typing s) (hbody : body.Firm typing t)
    (keeps : KeepsTypes typing) :
    c ∈ (handed b s t n body).voided typing ↔ c ∈ n.voided typing ∨ c ∈ body.voided typing ∨
      c = .box ∧ ((t = .void ∧ (s.isPrimitive = true → b = true)) ∨ (s = .void ∧ b = true)) := by
  have boxed := mem_voided_boxedAs (c := c) hbody
  unfold handed
  cases primitive : s.isPrimitive with
  | false =>
    have other : s ≠ .void := Ty.ne_void primitive
    rw [if_neg (by simp), mem_voided_guarded, boxed]
    simp [other]
  | true =>
    rw [if_pos rfl]
    cases b with
    | false =>
      rw [if_neg (by simp), mem_voided_pair (by simp [Kind.label]) rfl]
      simp
    | true =>
      have unbox : c ∉ (Node.convertTo .unbox (.stackedOf s.boxed) s).voided typing := by
        have typed : typing (.stackedOf s.boxed) = some s.boxed :=
          keeps _ (by simp [Node.label, Node.stackedOf, Kind.label])
        rw [Node.convertTo, mem_voided_convert, typed, Option.some.injEq]
        rintro (⟨-, h⟩ | h)
        · exact Ty.ne_void s.boxed_reference h
        · exact not_mem_voided_leaf (by simp [Kind.label]) rfl _ _ h
      have rest : c ∈ Node.voided typing
          { ty := some t.boxed
            kind := .sequence [.convertTo .unbox (.stackedOf s.boxed) s, boxedAs t body] } ↔
          c ∈ body.voided typing ∨ c = .box ∧ t = .void := by
        rw [mem_voided_pair (by simp [Kind.label]) rfl, or_iff_right unbox, boxed]
      rw [if_pos rfl, mem_voided_guarded, rest, Node.convertTo, mem_voided_convert, subject.2,
        Option.some.injEq]
      simp only [forall_const, and_true, and_or_left, or_assoc, or_comm, or_left_comm]

end

/-! ## Chains -/

/-- Void is among nodes that are chained. -/
def HoldsVoid (chain : List Node) : Prop := ∃ n ∈ chain, n.ty = some .void

/-- The conversion is in a node of the chain, or it boxes a void node that is chained to others. -/
def chainVoided (typing : Node → Option Ty) (c : Conversion) (chain : List Node) : Prop :=
  (∃ n ∈ chain, c ∈ n.voided typing) ∨ c = .box ∧ 2 ≤ chain.length ∧ HoldsVoid chain

theorem chainVoided_one {typing : Node → Option Ty} {c : Conversion} {n : Node} :
    chainVoided typing c [n] ↔ c ∈ n.voided typing := by
  simp [chainVoided]

theorem chainVoided_nil {typing : Node → Option Ty} {c : Conversion} : ¬ chainVoided typing c [] := by
  simp [chainVoided]

section

variable {typing : Node → Option Ty} {c : Conversion} {b : Bool} {made : Node}

theorem guardLinks_firm (keeps : KeepsTypes typing) {first : Node} {rest : List Node}
    (hfirst : ∃ u, first.Firm typing u) (hmade : guardLinks b (first :: rest) = .ok made) :
    ∃ u, made.Firm typing u := by
  cases rest with
  | nil =>
    cases hmade
    exact hfirst
  | cons next rest =>
    obtain ⟨body, -, hlink⟩ := guardLinks_cons.1 hmade
    obtain ⟨subjectTy, bodyTy, -, -, rfl⟩ := guardLink_ok.1 hlink
    have label : (handed b subjectTy bodyTy first body).label ∉ ["Binary", "Conditional"] := by
      unfold handed
      split
      · split <;> simp [guarded, Node.label, Kind.label]
      · simp [guarded, Node.label, Kind.label]
    rcases handed_ty b subjectTy bodyTy first body with ty | ⟨-, ty⟩
    · exact ⟨_, keeps.firm ty label⟩
    · exact ⟨_, keeps.firm ty label⟩

/-- The first node of a guarded chain is handed to the chain of the others. -/
theorem guardLinks_handed (keeps : KeepsTypes typing) {first next : Node} {rest : List Node}
    (firm : ∀ n ∈ first :: next :: rest, ∃ u, n.Firm typing u)
    (hmade : guardLinks b (first :: next :: rest) = .ok made) :
    ∃ s t body, first.Firm typing s ∧ body.Firm typing t ∧ guardLinks b (next :: rest) = .ok body ∧
      made = handed b s t first body := by
  obtain ⟨s, hs⟩ := firm first (List.mem_cons_self ..)
  obtain ⟨body, hbody, hlink⟩ := guardLinks_cons.1 hmade
  obtain ⟨t, ht⟩ := guardLinks_firm keeps
    (firm next (List.mem_cons_of_mem _ (List.mem_cons_self ..))) hbody
  obtain ⟨s', t', hs', ht', rfl⟩ := guardLink_ok.1 hlink
  obtain rfl : s = s' := Option.some.inj (hs.1.symm.trans hs')
  obtain rfl : t = t' := Option.some.inj (ht.1.symm.trans ht')
  exact ⟨s, t, body, hs, ht, hbody, rfl⟩

/-- What is chained to a void value last is void itself, or one of the nodes is. -/
theorem guardLinks_void : ∀ {chain : List Node} {made : Node}, guardLinks b chain = .ok made →
    made.ty = some .void → HoldsVoid chain
  | [], _, hmade, _ => absurd hmade guardLinks_nil
  | [n], _, hmade, hvoid => by
    cases hmade
    exact ⟨_, List.mem_singleton.2 rfl, hvoid⟩
  | first :: next :: rest, _, hmade, hvoid => by
    obtain ⟨body, hbody, hlink⟩ := guardLinks_cons.1 hmade
    obtain ⟨subjectTy, bodyTy, -, hty, rfl⟩ := guardLink_ok.1 hlink
    have last : bodyTy = .void := by
      rcases handed_ty b subjectTy bodyTy first body with ty | ⟨-, ty⟩ <;> rw [hvoid] at ty
      · exact absurd (Option.some.inj ty).symm (Ty.ne_void bodyTy.boxed_reference)
      · exact (Option.some.inj ty).symm
    rw [last] at hty
    obtain ⟨n, hn, hv⟩ := guardLinks_void hbody hty
    exact ⟨n, List.mem_cons_of_mem _ hn, hv⟩

/-- Conversions of void in a guarded chain come from its nodes, or box one of them. -/
theorem guardLinks_voided (keeps : KeepsTypes typing) : ∀ {chain : List Node} {made : Node},
    (∀ n ∈ chain, ∃ u, n.Firm typing u) → guardLinks b chain = .ok made →
      c ∈ made.voided typing → chainVoided typing c chain
  | [], _, _, hmade, _ => absurd hmade guardLinks_nil
  | [n], _, _, hmade, hc => by
    cases hmade
    exact .inl ⟨_, List.mem_singleton.2 rfl, hc⟩
  | first :: next :: rest, _, firm, hmade, hc => by
    have others := fun m hm => firm m (List.mem_cons_of_mem _ hm)
    obtain ⟨s, t, body, hs, ht, hbody, rfl⟩ := guardLinks_handed keeps firm hmade
    have long : 2 ≤ (first :: next :: rest).length := Nat.le_add_left 2 _
    rcases (mem_voided_handed hs ht keeps).1 hc with hc | hc | ⟨rfl, ⟨hv, -⟩ | ⟨hv, -⟩⟩
    · exact .inl ⟨first, List.mem_cons_self .., hc⟩
    · rcases guardLinks_voided keeps others hbody hc with ⟨n, hn, hc⟩ | ⟨rfl, -, n, hn, hv⟩
      · exact .inl ⟨n, List.mem_cons_of_mem _ hn, hc⟩
      · exact .inr ⟨rfl, long, n, List.mem_cons_of_mem _ hn, hv⟩
    · obtain ⟨n, hn, hv⟩ := guardLinks_void hbody (by rw [ht.1, hv])
      exact .inr ⟨rfl, long, n, List.mem_cons_of_mem _ hn, hv⟩
    · exact .inr ⟨rfl, long, first, List.mem_cons_self .., by rw [hs.1, hv]⟩

/-- All conversions of the nodes are in a guarded chain. -/
theorem mem_voided_guardLinks (keeps : KeepsTypes typing) : ∀ {chain : List Node} {made : Node},
    (∀ n ∈ chain, ∃ u, n.Firm typing u) → guardLinks b chain = .ok made →
      ∀ n ∈ chain, c ∈ n.voided typing → c ∈ made.voided typing
  | [], _, _, hmade, _, _, _ => absurd hmade guardLinks_nil
  | [_], _, _, hmade, n, hn, hc => by
    cases hmade
    rwa [List.mem_singleton.1 hn] at hc
  | first :: next :: rest, _, firm, hmade, n, hn, hc => by
    have others := fun m hm => firm m (List.mem_cons_of_mem _ hm)
    obtain ⟨s, t, body, hs, ht, hbody, rfl⟩ := guardLinks_handed keeps firm hmade
    rw [mem_voided_handed hs ht keeps]
    rcases List.mem_cons.1 hn with rfl | hn
    · exact .inl hc
    · exact .inr (.inl (mem_voided_guardLinks keeps others hbody n hn hc))

end

/-! ## Rows -/

/-- The nodes have reference types. -/
def References (chain : List Node) : Prop :=
  ∀ n ∈ chain, ∀ u, n.ty = some u → u.isPrimitive = false

theorem References.not_holdsVoid {chain : List Node} (h : References chain) : ¬ HoldsVoid chain := by
  rintro ⟨n, hn, hv⟩
  exact Ty.ne_void (h n hn _ hv) rfl

/-- Nodes that are chained, with the type in view behind them. A void node among them stands last, or
void is boxed in one of them. -/
structure Row (typing : Node → Option Ty) (chain : List Node) (view : Ty) : Prop where
  firm : ∀ n ∈ chain, ∃ u, n.Firm typing u
  references : view.isPrimitive = false → References chain
  void : HoldsVoid chain → view = .void ∧ ((∃ n ∈ chain, .box ∈ n.voided typing) ∨
    ∃ before n, chain = before ++ [n] ∧ References before)

section

variable {typing : Node → Option Ty} {c : Conversion} {b : Bool} {chain : List Node} {n made : Node}
  {view u : Ty}

theorem guardLinks_box (keeps : KeepsTypes typing) : ∀ {before : List Node} {made : Node},
    (∀ m ∈ before ++ [n], ∃ u, m.Firm typing u) → References before → before ≠ [] →
      n.ty = some .void → guardLinks b (before ++ [n]) = .ok made → .box ∈ made.voided typing
  | [], _, _, _, nonempty, _, _ => absurd rfl nonempty
  | first :: before, _, firm, references, _, hvoid, hmade => by
    have others : ∀ m ∈ before ++ [n], ∃ u, m.Firm typing u :=
      fun m hm => firm m (List.mem_cons_of_mem _ hm)
    obtain ⟨next, rest, hchain⟩ : ∃ next rest, before ++ [n] = next :: rest :=
      List.exists_cons_of_ne_nil (by simp)
    rw [List.cons_append, hchain] at firm hmade
    obtain ⟨s, t, body, hs, ht, hbody, rfl⟩ := guardLinks_handed keeps firm hmade
    have reference : s.isPrimitive = false := references first (List.mem_cons_self ..) s hs.1
    rw [← hchain] at hbody
    rw [mem_voided_handed hs ht keeps]
    cases before with
    | nil =>
      obtain rfl : n = body := Except.ok.inj hbody
      refine .inr (.inr ⟨rfl, .inl ⟨Option.some.inj (ht.1.symm.trans hvoid), fun primitive => ?_⟩⟩)
      rw [reference] at primitive
      cases primitive
    | cons second before =>
      exact .inr (.inl (guardLinks_box keeps others
        (fun m hm => references m (List.mem_cons_of_mem _ hm)) (List.cons_ne_nil _ _) hvoid hbody))

/-- A guarded row boxes void as far as void stands last. -/
theorem Row.mem_voided_iff (row : Row typing chain view) (keeps : KeepsTypes typing)
    (hmade : guardLinks b chain = .ok made) :
    c ∈ made.voided typing ↔ chainVoided typing c chain := by
  refine ⟨guardLinks_voided keeps row.firm hmade, ?_⟩
  have inside := mem_voided_guardLinks (c := c) keeps row.firm hmade
  rintro (⟨n, hn, hc⟩ | ⟨rfl, long, holds⟩)
  · exact inside n hn hc
  · obtain ⟨-, ⟨n, hn, hc⟩ | ⟨before, n, rfl, references⟩⟩ := row.void holds
    · exact inside n hn hc
    · have last : n.ty = some .void := by
        obtain ⟨m, hm, hv⟩ := holds
        rcases List.mem_append.1 hm with hm | hm
        · exact absurd ⟨m, hm, hv⟩ references.not_holdsVoid
        · rwa [List.mem_singleton.1 hm] at hv
      refine guardLinks_box keeps row.firm references ?_ last hmade
      rintro rfl
      simp at long

theorem Row.nil : Row typing [] view where
  firm := nofun
  references _ := nofun
  void := by
    rintro ⟨n, hn, -⟩
    cases hn

/-- One node, a reference or of the type in view. -/
theorem Row.one (hn : n.Firm typing u) (seen : u.isPrimitive = false ∨ u = view) :
    Row typing [n] view where
  firm m hm := List.mem_singleton.1 hm ▸ ⟨u, hn⟩
  references reference m hm := by
    rw [List.mem_singleton.1 hm]
    intro t ht
    rw [← Option.some.inj (hn.1.symm.trans ht)]
    rcases seen with seen | rfl
    · exact seen
    · exact reference
  void := by
    rintro ⟨m, hm, hv⟩
    rw [List.mem_singleton.1 hm] at hv
    have void : u = .void := Option.some.inj (hn.1.symm.trans hv)
    rcases seen with seen | rfl
    · exact absurd void (Ty.ne_void seen)
    · exact ⟨void, .inr ⟨[], n, rfl, nofun⟩⟩

/-- A node of any type behind references. -/
theorem Row.snoc (row : Row typing chain view) (reference : view.isPrimitive = false)
    (hn : n.Firm typing u) : Row typing (chain ++ [n]) u where
  firm m hm := by
    rcases List.mem_append.1 hm with hm | hm
    · exact row.firm m hm
    · exact List.mem_singleton.1 hm ▸ ⟨u, hn⟩
  references hu m hm := by
    rcases List.mem_append.1 hm with hm | hm
    · exact row.references reference m hm
    · rw [List.mem_singleton.1 hm]
      intro t ht
      rwa [← Option.some.inj (hn.1.symm.trans ht)]
  void := by
    rintro ⟨m, hm, hv⟩
    rcases List.mem_append.1 hm with hm | hm
    · exact absurd ⟨m, hm, hv⟩ (row.references reference).not_holdsVoid
    · rw [List.mem_singleton.1 hm] at hv
      exact ⟨Option.some.inj (hn.1.symm.trans hv), .inr ⟨chain, n, rfl, row.references reference⟩⟩

theorem chainVoided_snoc (row : Row typing chain view) (reference : view.isPrimitive = false)
    (hn : n.Firm typing u) : chainVoided typing c (chain ++ [n]) ↔
      chainVoided typing c chain ∨ c ∈ n.voided typing ∨ c = .box ∧ chain ≠ [] ∧ u = .void := by
  have none := (row.references reference).not_holdsVoid
  have holds : HoldsVoid (chain ++ [n]) ↔ u = .void := by
    constructor
    · rintro ⟨m, hm, hv⟩
      rcases List.mem_append.1 hm with hm | hm
      · exact absurd ⟨m, hm, hv⟩ none
      · rw [List.mem_singleton.1 hm] at hv
        exact Option.some.inj (hn.1.symm.trans hv)
    · rintro rfl
      exact ⟨n, List.mem_append_right _ (List.mem_singleton.2 rfl), hn.1⟩
  have long : 2 ≤ (chain ++ [n]).length ↔ chain ≠ [] := by
    rw [List.length_append, List.length_singleton, ← List.length_pos_iff]
    omega
  unfold chainVoided
  rw [holds, long]
  simp only [none, and_false, or_false, List.mem_append, List.mem_singleton, or_and_right, exists_or,
    exists_eq_left, or_assoc]

theorem mem_voided_keepIf (keeps : KeepsTypes typing) (x : String) (cond : Node) :
    c ∈ (keepIf x cond u).voided typing ↔ c ∈ cond.voided typing ∨ c = .box ∧ u = .void := by
  have stacked : c ∉ (Node.stackedOf u).voided typing :=
    not_mem_voided_leaf (by simp [Kind.label]) rfl _ _
  have stop : c ∉ (Node.nullOf u.boxed).voided typing :=
    not_mem_voided_leaf (by simp [Kind.label]) rfl _ _
  have bound : c ∉ (Node.localOf x u).voided typing :=
    not_mem_voided_leaf (by simp [Kind.label]) rfl _ _
  have candidate : c ∈ (boxedAs u (.localOf x u)).voided typing ↔ c = .box ∧ u = .void := by
    rw [mem_voided_boxedAs (keeps.firm rfl (by simp [Node.label, Node.localOf, Kind.label])),
      or_iff_right bound]
  unfold boxedAs at candidate
  unfold keepIf
  rw [mem_voided_pair (by simp [Kind.label]) rfl, or_iff_right stacked, mem_voided_conditional, candidate,
    or_iff_left stop]

theorem keepIf_firm (keeps : KeepsTypes typing) (x : String) (cond : Node) :
    (keepIf x cond u).Firm typing u.boxed :=
  keeps.firm rfl (by simp [Node.label, keepIf, Kind.label])

theorem mem_voided_nullSafe (x : String) (cond : Node) :
    c ∈ (nullSafe x cond u).voided typing ↔ c ∈ cond.voided typing := by
  have test : c ∉ Node.voided typing { ty := some .boolean, kind := .isNull (.localOf x u) } := by
    rw [mem_voided_unary (by simp [Kind.label]) rfl]
    exact not_mem_voided_leaf (by simp [Kind.label]) rfl _ _
  have stop : c ∉ (Node.ofLiteral (.bool false)).voided typing :=
    not_mem_voided_leaf (by simp [Kind.label]) rfl _ _
  unfold nullSafe
  split
  · rfl
  · rw [mem_voided_conditional, or_iff_right test, or_iff_right stop]

/-- A condition on the value in view. -/
theorem Row.keep (row : Row typing chain view) (keeps : KeepsTypes typing) (x : String) (cond : Node) :
    Row typing (chain ++ [keepIf x cond view]) view where
  firm m hm := by
    rcases List.mem_append.1 hm with hm | hm
    · exact row.firm m hm
    · exact List.mem_singleton.1 hm ▸ ⟨_, keepIf_firm keeps x cond⟩
  references reference m hm := by
    rcases List.mem_append.1 hm with hm | hm
    · exact row.references reference m hm
    · rw [List.mem_singleton.1 hm]
      intro t ht
      rw [← Option.some.inj ht]
      exact view.boxed_reference
  void := by
    rintro ⟨m, hm, hv⟩
    have void : view = .void := by
      rcases List.mem_append.1 hm with hm | hm
      · exact (row.void ⟨m, hm, hv⟩).1
      · rw [List.mem_singleton.1 hm] at hv
        exact absurd (Option.some.inj hv) (Ty.ne_void view.boxed_reference)
    have boxed : .box ∈ (keepIf x cond view).voided typing :=
      (mem_voided_keepIf keeps x cond).2 (.inr ⟨rfl, void⟩)
    exact ⟨void, .inl ⟨_, List.mem_append_right _ (List.mem_singleton.2 rfl), boxed⟩⟩

theorem chainVoided_keep (row : Row typing chain view) (keeps : KeepsTypes typing) (x : String)
    (cond : Node) : chainVoided typing c (chain ++ [keepIf x cond view]) ↔
      chainVoided typing c chain ∨ c ∈ cond.voided typing ∨ c = .box ∧ view = .void := by
  have kept := mem_voided_keepIf (c := c) (u := view) keeps x cond
  have inside : (∃ n ∈ chain ++ [keepIf x cond view], c ∈ n.voided typing) ↔
      (∃ n ∈ chain, c ∈ n.voided typing) ∨ c ∈ (keepIf x cond view).voided typing := by
    simp only [List.mem_append, List.mem_singleton, or_and_right, exists_or, exists_eq_left]
  -- a void node of the chain is the candidate, which is boxed
  have pending (holds : HoldsVoid (chain ++ [keepIf x cond view])) : view = .void :=
    ((row.keep keeps x cond).void holds).1
  unfold chainVoided
  rw [inside, kept]
  constructor
  · rintro ((h | h | h) | ⟨rfl, -, holds⟩)
    · exact .inl (.inl h)
    · exact .inr (.inl h)
    · exact .inr (.inr h)
    · exact .inr (.inr ⟨rfl, pending holds⟩)
  · rintro ((h | ⟨rfl, -, n, hn, hv⟩) | h | h)
    · exact .inl (.inl h)
    · exact .inl (.inr (.inr ⟨rfl, pending ⟨n, List.mem_append_left _ hn, hv⟩⟩))
    · exact .inl (.inr (.inl h))
    · exact .inl (.inr (.inr h))

end

section

variable {typing : Node → Option Ty} {c : Conversion} {b : Bool} {chain : List Node} {n made : Node}
  {view u : Ty}

/-- In the place of the receiver `this` makes no difference. -/
theorem placed_voided (keeps : KeepsTypes typing) {value n' : Node} (h : Placed value n n')
    (this : value.isThis = true) (hty : value.ty = n.receiverTy) :
    n'.ty = n.ty ∧ typing n' = typing n ∧ ∀ c, c ∈ n'.voided typing ↔ c ∈ n.voided typing := by
  have seen {kind kind' : Kind Node} {span : Span} {ty : Option Ty}
      (h : kind.label ∉ ["Binary", "Conditional"]) (same : kind'.label = kind.label) :
      typing ⟨span, ty, kind'⟩ = typing ⟨span, ty, kind⟩ := by
    rw [keeps ⟨span, ty, kind⟩ h, keeps ⟨span, ty, kind'⟩ (by unfold Node.label; rwa [same])]
  induction h with
  | stacked span ty =>
    rw [receiverTy_stacked] at hty
    have label : value.label ∉ ["Binary", "Conditional"] := by
      obtain ⟨_, _, kind⟩ := value
      cases kind
      case this => simp [Node.label, Kind.label]
      all_goals cases this
    refine ⟨hty, ?_, fun c => iff_of_false (not_mem_voided_this this)
      (not_mem_voided_leaf (by simp [Kind.label]) rfl _ _)⟩
    rw [keeps value label, keeps ⟨span, ty, .stacked⟩ (by simp [Node.label, Kind.label]), hty]
  | convert _ span ty d ih =>
    obtain ⟨-, typed, same⟩ := ih (hty.trans (receiverTy_convert ..))
    refine ⟨rfl, seen (by simp [Kind.label]) rfl, fun c => ?_⟩
    rw [mem_voided_convert, mem_voided_convert, typed, same]
  | propertyRead _ _ _ _ ih | methodCall _ _ _ _ _ _ ih | toSequence _ _ _ ih | pipe _ _ _ _ _ _ ih
  | collect _ _ _ _ ih | letIn _ _ _ _ _ ih | sequence _ _ _ _ ih =>
    obtain ⟨-, -, same⟩ := ih (by simpa using hty)
    refine ⟨rfl, seen (by simp [Kind.label]) rfl, fun c => ?_⟩
    rw [mem_voided_first (by simp [Kind.label]) rfl, mem_voided_first (by simp [Kind.label]) rfl, same]

/-- The first node of a row gives way to one like it. -/
theorem Row.replace {next placed : Node} {rest : List Node} (row : Row typing (next :: rest) view)
    (ty : placed.ty = next.ty) (typed : typing placed = typing next)
    (same : ∀ c, c ∈ placed.voided typing ↔ c ∈ next.voided typing) :
    Row typing (placed :: rest) view ∧
      (chainVoided typing c (placed :: rest) ↔ chainVoided typing c (next :: rest)) := by
  have holds : HoldsVoid (placed :: rest) ↔ HoldsVoid (next :: rest) := by
    unfold HoldsVoid
    rw [List.exists_mem_cons_iff, List.exists_mem_cons_iff, ty]
  have inside (c : Conversion) : (∃ n ∈ placed :: rest, c ∈ n.voided typing) ↔
      ∃ n ∈ next :: rest, c ∈ n.voided typing := by
    rw [List.exists_mem_cons_iff, List.exists_mem_cons_iff, same]
  have references {others : List Node} (h : References (next :: others)) :
      References (placed :: others) := by
    intro m hm u hu
    rcases List.mem_cons.1 hm with rfl | hm
    · exact h next (List.mem_cons_self ..) u (ty ▸ hu)
    · exact h m (List.mem_cons_of_mem _ hm) u hu
  refine ⟨⟨fun m hm => ?_, fun reference => references (row.references reference), fun h => ?_⟩, ?_⟩
  · rcases List.mem_cons.1 hm with rfl | hm
    · obtain ⟨u, hu⟩ := row.firm next (List.mem_cons_self ..)
      exact ⟨u, ty.trans hu.1, typed.trans hu.2⟩
    · exact row.firm m (List.mem_cons_of_mem _ hm)
  · obtain ⟨void, boxed | ⟨before, n, heq, hbefore⟩⟩ := row.void (holds.1 h)
    · exact ⟨void, .inl ((inside .box).2 boxed)⟩
    · refine ⟨void, .inr ?_⟩
      cases before with
      | nil =>
        cases heq
        exact ⟨[], placed, rfl, nofun⟩
      | cons first before =>
        cases heq
        exact ⟨placed :: before, n, rfl, references hbefore⟩
  · unfold chainVoided
    rw [inside, holds]
    rfl

/-- The nodes of a chain apart from `this` at its head. -/
def unread : List Node → List Node
  | [] => []
  | head :: rest => if head.isThis then rest else head :: rest

theorem unread_this {head : Node} (this : head.isThis = true) (rest : List Node) :
    unread (head :: rest) = rest :=
  if_pos this

theorem unread_other {head : Node} (other : head.isThis = false) (rest : List Node) :
    unread (head :: rest) = head :: rest :=
  if_neg (by simp [other])

theorem unread_snoc (started : chain ≠ []) (n : Node) : unread (chain ++ [n]) = unread chain ++ [n] := by
  cases chain with
  | nil => exact absurd rfl started
  | cons head rest =>
    rw [List.cons_append, unread, unread]
    split <;> rfl

/-- A chain of scalar links, and the type in view behind it. -/
structure Line (typing : Node → Option Ty) (chain : List Node) (view : Ty) : Prop where
  started : chain ≠ []
  row : Row typing (unread chain) view
  placeable : Placeable chain
  single : ∀ head, chain = [head] → head.isThis = true → head.ty = some view

theorem Line.mem_voided_iff (line : Line typing chain view) (keeps : KeepsTypes typing)
    (hmade : close b chain = .ok made) :
    c ∈ made.voided typing ↔ chainVoided typing c (unread chain) := by
  obtain ⟨started, row, placeable, -⟩ := line
  cases chain with
  | nil => exact absurd rfl started
  | cons head rest =>
    cases this : head.isThis with
    | false =>
      rw [unread_other this] at row ⊢
      rw [close_other this] at hmade
      exact row.mem_voided_iff keeps hmade
    | true =>
      rw [unread_this this] at row ⊢
      cases rest with
      | nil =>
        cases hmade
        exact iff_of_false (not_mem_voided_this this) chainVoided_nil
      | cons next rest =>
        obtain ⟨first, hty⟩ := placeable head next rest rfl this
        unfold close readThis at hmade
        simp only [this, if_true] at hmade
        have placing : placing.rel (placeStacked next) (some head)
            ((placeStacked next).run (some head)).1 ((placeStacked next).run (some head)).2 := rfl
        obtain ⟨ty, typed, same⟩ := placed_voided keeps (first.placed placing).1 this hty
        obtain ⟨placed, replaced⟩ := row.replace (c := c) ty typed same
        rw [placed.mem_voided_iff keeps hmade, replaced]

/-- What reads the value in view stands well behind a single `this`. -/
theorem Line.receiver (line : Line typing chain view) (h : n.receiverTy = some view) :
    ∀ head, chain = [head] → head.isThis = true → n.receiverTy = head.ty :=
  fun head heq this => h.trans (line.single head heq this).symm

/-- A link behind the chain leaves it placeable. -/
theorem Line.placeable_snoc (line : Line typing chain view) (first : ReceiverFirst n)
    (receiver : ∀ head, chain = [head] → head.isThis = true → n.receiverTy = head.ty) :
    Placeable (chain ++ [n]) := by
  intro head next rest heq this
  cases chain with
  | nil => exact absurd rfl line.started
  | cons head' others =>
    cases others with
    | nil =>
      cases heq
      exact ⟨first, (receiver head rfl this).symm⟩
    | cons next' others =>
      cases heq
      exact line.placeable head next others rfl this

theorem single_snoc (started : chain ≠ []) :
    ∀ head, chain ++ [n] = [head] → head.isThis = true → head.ty = some u := by
  intro head heq
  cases chain with
  | nil => exact absurd rfl started
  | cons head' others => cases others <;> cases heq

/-- A link of any type behind a reference. -/
theorem Line.snoc (line : Line typing chain view) (reference : view.isPrimitive = false)
    (hn : n.Firm typing u) (first : ReceiverFirst n)
    (receiver : ∀ head, chain = [head] → head.isThis = true → n.receiverTy = head.ty) :
    Line typing (chain ++ [n]) u where
  started := by simp
  row := by
    rw [unread_snoc line.started]
    exact line.row.snoc reference hn
  placeable := line.placeable_snoc first receiver
  single := single_snoc line.started

/-- A condition on the value in view. -/
theorem Line.keep (line : Line typing chain view) (keeps : KeepsTypes typing) (x : String)
    (cond : Node) : Line typing (chain ++ [keepIf x cond view]) view where
  started := by simp
  row := by
    rw [unread_snoc line.started]
    exact line.row.keep keeps x cond
  placeable := line.placeable_snoc ((ReceiverFirst.stacked _ _).letIn ..)
    (line.receiver ((receiverTy_letIn ..).trans (receiverTy_stacked ..)))
  single := single_snoc line.started

/-- One node that is no `this`. -/
theorem Line.one (hn : n.Firm typing u) (other : n.isThis = false)
    (seen : u.isPrimitive = false ∨ u = view) : Line typing [n] view where
  started := List.cons_ne_nil _ _
  row := by
    rw [unread_other other]
    exact .one hn seen
  placeable := nofun
  single head heq this := by
    cases heq
    rw [other] at this
    cases this

theorem Line.this (this : n.isThis = true) (hty : n.ty = some view) : Line typing [n] view where
  started := List.cons_ne_nil _ _
  row := by
    rw [unread_this this]
    exact .nil
  placeable := nofun
  single head heq _ := by
    cases heq
    exact hty

end

end Lower

end NavScript
