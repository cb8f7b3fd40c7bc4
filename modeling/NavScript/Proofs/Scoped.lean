import NavScript.Proofs.Tracks
import NavScript.Proofs.Views

/-!
# Names in scope

While a tree of the front end is resolved each open scope is over `this` or over a candidate, and the
candidates have the names that were drawn for them, each drawn after those around it (`Scopes.Sound`).
Trees that are resolved there have a survey in each environment in which the candidates are bound to
values of their types (`Within`, `tree_surveys`).
-/

namespace NavScript

open Course Lower

theorem toString_nat_injective {a b : Nat} (h : toString a = toString b) : a = b := by
  have digits : Nat.toDigits 10 a = Nat.toDigits 10 b := by
    have same : (toString a).toList = (toString b).toList := by rw [h]
    simpa [toString, Nat.repr] using same
  have value (n : Nat) : Nat.ofDigitChars 10 (Nat.toDigits 10 n) 0 = n :=
    Nat.ofDigitChars_toDigits (by decide) (by decide)
  rw [← value a, digits, value]

namespace Lower

theorem isDrawn_freshName (letter : String) (k : Nat) : isDrawn (freshName letter k) = true := by
  unfold isDrawn freshName
  simp only [String.toList_append, List.head?_append, beq_iff_eq]
  rfl

theorem freshName_number {letter : String} {a b : Nat} (h : freshName letter a = freshName letter b) :
    a = b := by
  unfold freshName at h
  exact toString_nat_injective ((String.append_right_inj _).1 h)

theorem freshName_letter (a b : Nat) : freshName "e" a ≠ freshName "p" b := by
  intro h
  have chars : (freshName "e" a).toList = (freshName "p" b).toList := by rw [h]
  unfold freshName at chars
  simp only [String.toList_append] at chars
  have second := congrArg (·.tail.head?) chars
  exact absurd (Option.some.inj second) (by decide)

end Lower

/-- The names that a node declares. -/
def Node.declaredNames (n : Node) : List String :=
  match n.kind with
  | .localDecl x _ _ => [x]
  | .methodDecl d => d.params.map (·.name)
  | _ => []

/-- The tree has nodes of the front end only, declares no name that could be drawn, and declares methods
at the top and in scripts only. -/
structure Node.FrontEnd (n : Node) : Prop where
  kinds : ∀ c ∈ n.nodes, c.label ∈ ["Script", "Literal", "Name", "Call", "Stream", "Binary",
    "Conditional", "MethodDecl", "LocalDecl"]
  methods : ∀ c ∈ n.nodes, c.label ≠ "Script" → ∀ d ∈ c.kind.children, d.label ≠ "MethodDecl"
  names : ∀ c ∈ n.nodes, ∀ x ∈ c.declaredNames, isDrawn x = false

theorem Node.FrontEnd.child {span : Span} {ty : Option Ty} {kind : Kind Node} {c : Node}
    (h : Node.FrontEnd ⟨span, ty, kind⟩) (hc : c ∈ kind.children) : c.FrontEnd := by
  have sub : ∀ d ∈ c.nodes, d ∈ Node.nodes ⟨span, ty, kind⟩ := fun d hd => Node.mem_nodes_of_child hc hd
  exact ⟨fun d hd => h.kinds d (sub d hd), fun d hd => h.methods d (sub d hd),
    fun d hd => h.names d (sub d hd)⟩

namespace Scopes

/-- The scope of a candidate. -/
def candidate (k : Nat) (ty : Ty) : Scope := .bound ty (.subject (.localOf (freshName "p" k) ty))

theorem candidate_inj {k k' : Nat} {ty ty' : Ty} (h : candidate k ty = candidate k' ty') :
    k = k' ∧ ty = ty' := by
  simp only [candidate, Scope.bound.injEq, Origin.subject.injEq, Node.localOf, Node.mk.injEq,
    Kind.localRef.injEq] at h
  exact ⟨freshName_number h.2.2.2, h.1⟩

theorem candidate_ne_this {k : Nat} {ty ty' : Ty} :
    candidate k ty ≠ .bound ty' (.subject (.thisOf ty')) := by
  simp [candidate, Node.localOf, Node.thisOf]

/-- Scopes that open while trees of the front end are resolved. -/
inductive Sound : Nat → Scopes → Prop
  | nil (next : Nat) : Sound next []
  | imports {next : Nat} {rest : Scopes} (names : List (String × ClassName)) (h : Sound next rest) :
    Sound next (.imports names :: rest)
  | method {next : Nat} {rest : Scopes} {locals : List (String × Ty)}
    (plain : ∀ l ∈ locals, isDrawn l.1 = false) (h : Sound next rest) :
    Sound next (.method locals :: rest)
  | typeDecl {next : Nat} {rest : Scopes} (ty : Ty) (methods : List Signature) (h : Sound next rest) :
    Sound next (.typeDecl ty methods :: rest)
  | this {next : Nat} {rest : Scopes} (ty : Ty) (h : Sound next rest) :
    Sound next (.bound ty (.subject (.thisOf ty)) :: rest)
  | candidate {k next : Nat} {rest : Scopes} (drawn : k < next) (ty : Ty) (h : Sound k rest) :
    Sound next (candidate k ty :: rest)

theorem Sound.mono {n m : Nat} {scopes : Scopes} (h : Sound n scopes) (le : n ≤ m) :
    Sound m scopes := by
  induction h with
  | nil => exact .nil m
  | imports names _ ih => exact .imports names (ih le)
  | method plain _ ih => exact .method plain (ih le)
  | typeDecl ty methods _ ih => exact .typeDecl ty methods (ih le)
  | this ty _ ih => exact .this ty (ih le)
  | candidate drawn ty h _ => exact .candidate (Nat.lt_of_lt_of_le drawn le) ty h

theorem Sound.tail {next : Nat} {scope : Scope} {rest : Scopes} (h : Sound next (scope :: rest)) :
    Sound next rest := by
  cases h with
  | imports _ h | method _ h | typeDecl _ _ h | this _ h => exact h
  | candidate drawn _ h => exact h.mono (Nat.le_of_lt drawn)

/-- A scope of a kind that opens, over a candidate that was drawn before if it is over one. -/
inductive Opened (next : Nat) : Scope → Prop
  | imports (names : List (String × ClassName)) : Opened next (.imports names)
  | method {locals : List (String × Ty)} (plain : ∀ l ∈ locals, isDrawn l.1 = false) :
    Opened next (.method locals)
  | typeDecl (ty : Ty) (methods : List Signature) : Opened next (.typeDecl ty methods)
  | this (ty : Ty) : Opened next (.bound ty (.subject (.thisOf ty)))
  | candidate {k : Nat} (drawn : k < next) (ty : Ty) : Opened next (candidate k ty)

theorem Opened.mono {n m : Nat} {scope : Scope} (h : Opened n scope) (le : n ≤ m) :
    Opened m scope := by
  cases h with
  | imports names => exact .imports names
  | method plain => exact .method plain
  | typeDecl ty methods => exact .typeDecl ty methods
  | this ty => exact .this ty
  | candidate drawn ty => exact .candidate (Nat.lt_of_lt_of_le drawn le) ty

theorem Sound.opened {next : Nat} {scopes : Scopes} (h : Sound next scopes) :
    ∀ scope ∈ scopes, Opened next scope := by
  induction h with
  | nil => exact fun _ mem => absurd mem List.not_mem_nil
  | imports names _ ih => exact List.forall_mem_cons.2 ⟨.imports names, ih⟩
  | method plain _ ih => exact List.forall_mem_cons.2 ⟨.method plain, ih⟩
  | typeDecl ty methods _ ih => exact List.forall_mem_cons.2 ⟨.typeDecl ty methods, ih⟩
  | this ty _ ih => exact List.forall_mem_cons.2 ⟨.this ty, ih⟩
  | candidate drawn ty _ ih =>
    exact List.forall_mem_cons.2 ⟨.candidate drawn ty, fun scope mem => (ih scope mem).mono drawn.le⟩

/-- The candidates in scope were drawn before. -/
theorem Sound.drawn {next k : Nat} {ty : Ty} {scopes : Scopes} (h : Sound next scopes)
    (mem : Scopes.candidate k ty ∈ scopes) : k < next := by
  generalize same : Scopes.candidate k ty = scope at mem
  cases h.opened scope mem with
  | imports | method | typeDecl => cases same
  | this => exact absurd same candidate_ne_this
  | candidate drawn =>
    rw [(candidate_inj same).1]
    exact drawn

theorem Sound.declare {next : Nat} {scopes : Scopes} (h : Sound next scopes) {x : String} (ty : Ty)
    (plain : isDrawn x = false) : Sound next ((scopes.declare? x ty).getD scopes) := by
  induction h with
  | nil next => exact .nil next
  | method plains h =>
    refine .method (fun l hl => ?_) h
    rcases List.mem_cons.1 hl with rfl | hl
    · exact plain
    · exact plains l hl
  | imports names _ ih =>
    rw [declare_other _ _ _ (by simp)]
    exact .imports names ih
  | typeDecl ty' methods _ ih =>
    rw [declare_other _ _ _ (by simp)]
    exact .typeDecl ty' methods ih
  | this ty' _ ih =>
    rw [declare_other _ _ _ (by simp)]
    exact .this ty' ih
  | candidate drawn ty' _ ih =>
    rw [declare_other _ _ _ (by simp [Scopes.candidate])]
    exact .candidate drawn ty' ih

end Scopes

section

variable {V : Type} (label : Option Ty → V)

/-- Drawn names are bound, the candidates of reference type to values of their types. -/
structure Within (scopes : Scopes) (env : List (String × V)) : Prop where
  drawn : ∀ b ∈ env, isDrawn b.1 = true
  candidates : ∀ k ty, Scopes.candidate k ty ∈ scopes → ty.isPrimitive = false →
    env.lookup (freshName "p" k) = some (label (some ty))

end

section

variable {V : Type} {label : Option Ty → V} {env : List (String × V)} {scopes after : Scopes}

theorem Within.grows (h : Within label after env) (grown : scopes.Grows after) :
    Within label scopes env :=
  ⟨h.drawn, fun k ty mem => h.candidates k ty ((grown.mem_bound _ _).2 mem)⟩

theorem Within.later (h : Within label scopes env) (grown : scopes.Grows after) :
    Within label after env :=
  ⟨h.drawn, fun k ty mem => h.candidates k ty ((grown.mem_bound _ _).1 mem)⟩

theorem Within.lookup_plain (h : Within label scopes env) {x : String} (plain : isDrawn x = false) :
    env.lookup x = none := by
  rw [List.lookup_eq_none_iff]
  intro b hb
  rw [bne_iff_ne]
  rintro rfl
  rw [h.drawn b hb] at plain
  cases plain

/-- Elements have names that no candidate has. -/
theorem Within.element (h : Within label scopes env) (n : Nat) (v : V) :
    Within label scopes ((freshName "e" n, v) :: env) := by
  refine ⟨fun b hb => ?_, fun k ty mem reference => ?_⟩
  · rcases List.mem_cons.1 hb with rfl | hb
    · exact isDrawn_freshName ..
    · exact h.drawn b hb
  · rw [List.lookup_cons, beq_eq_false_iff_ne.2 (freshName_letter n k).symm]
    exact h.candidates k ty mem reference

/-- One more candidate. -/
theorem Within.candidate {k : Nat} {ty : Ty} {v : V} (h : Within label scopes env)
    (sound : scopes.Sound k) (hv : ty.isPrimitive = false → v = label (some ty)) :
    Within label (Scopes.candidate k ty :: scopes) ((freshName "p" k, v) :: env) := by
  refine ⟨fun b hb => ?_, fun k' ty' mem reference => ?_⟩
  · rcases List.mem_cons.1 hb with rfl | hb
    · exact isDrawn_freshName ..
    · exact h.drawn b hb
  · rcases List.mem_cons.1 mem with heq | mem
    · obtain ⟨rfl, rfl⟩ := Scopes.candidate_inj heq
      rw [List.lookup_cons_self, hv reference]
    · have other : freshName "p" k' ≠ freshName "p" k := fun heq =>
        absurd (sound.drawn mem) (by rw [freshName_number heq]; exact Nat.lt_irrefl k)
      rw [List.lookup_cons, beq_eq_false_iff_ne.2 other]
      exact h.candidates k' ty' mem reference

variable (label) in
/-- Sound scopes have an environment. -/
theorem Scopes.Sound.within {next : Nat} (h : scopes.Sound next) : ∃ env, Within label scopes env := by
  induction h with
  | nil => exact ⟨[], nofun, nofun⟩
  | imports _ _ ih | method _ _ ih | typeDecl _ _ _ ih =>
    obtain ⟨env, henv⟩ := ih
    refine ⟨env, henv.drawn, fun k ty mem => ?_⟩
    rcases List.mem_cons.1 mem with heq | mem
    · cases heq
    · exact henv.candidates k ty mem
  | this _ _ ih =>
    obtain ⟨env, henv⟩ := ih
    refine ⟨env, henv.drawn, fun k ty mem => ?_⟩
    rcases List.mem_cons.1 mem with heq | mem
    · exact absurd heq Scopes.candidate_ne_this
    · exact henv.candidates k ty mem
  | candidate drawn ty sound ih =>
    obtain ⟨env, henv⟩ := ih
    exact ⟨_, henv.candidate sound fun _ => rfl⟩

end

end NavScript
