import NavScript.Proofs.JsonTexts
import NavScript.Proofs.Trees
import NavScript.Tree.Json

/-!
# Trees survive their JSON form

What is written for a value is decoded to the value again, from the innermost data on: literals,
types, axes and tests, steps, nodes. Fields that are left out are decoded to their defaults. The
texts in between are read back as `Json.reread` says, which leaves all of it as it is except for
numbers that are not whole, so a literal with such a number has to be read back exactly
(`Literal.Exact`).
-/

namespace NavScript

open Json (tagged list? required? optional? defaulted? unit?)

namespace Json

section Reread

theorem rereadItems_eq_map (items : List Json) : rereadItems items = items.map reread := by
  induction items with
  | nil => rfl
  | cons j items ih => rw [rereadItems, ih, List.map_cons]

theorem rereadMembers_eq_map (members : List (String × Json)) :
    rereadMembers members = members.map fun m => (m.1, m.2.reread) := by
  induction members with
  | nil => rfl
  | cons m members ih => rw [rereadMembers, ih, List.map_cons]

@[simp] theorem reread_null : reread null = null := by rw [reread]

@[simp] theorem reread_bool (b : Bool) : (bool b).reread = bool b := by rw [reread]

@[simp] theorem reread_string (s : String) : (string s).reread = string s := by rw [reread]

@[simp] theorem reread_number (n : Number) : (number n).reread = number n.reread := by rw [reread]

@[simp] theorem reread_array (items : List Json) :
    (array items).reread = array (items.map reread) := by
  rw [reread, rereadItems_eq_map]

@[simp] theorem reread_object (members : List (String × Json)) :
    (object members).reread = object (members.map fun m => (m.1, m.2.reread)) := by
  rw [reread, rereadMembers_eq_map]

@[simp] theorem reread_tagged (name : String) (j : Json) :
    (tagged name j).reread = tagged name j.reread := by
  simp [tagged]

@[simp] theorem reread_ofInt (n : Int) : (ofInt n).reread = ofInt n := by simp [ofInt]

@[simp] theorem reread_ofNat (n : Nat) : (ofNat n).reread = ofNat n := by simp [ofNat]

theorem reread_ofOption {α : Type} {f : α → Json} (h : ∀ a, (f a).reread = f a) (o : Option α) :
    (ofOption f o).reread = ofOption f o := by
  cases o with
  | none => simp [ofOption]
  | some a => exact h a

mutual

theorem depth_reread : ∀ j : Json, j.reread.depth = j.depth
  | null | illFormed | bool _ | number _ | string _ => by simp [reread, Json.depth]
  | array items => by rw [reread, Json.depth, Json.depth, depthItems_reread items]
  | object members => by rw [reread, Json.depth, Json.depth, depthMembers_reread members]

theorem depthItems_reread : ∀ items : List Json, depthItems (rereadItems items) = depthItems items
  | [] => rfl
  | j :: items => by
    rw [rereadItems, depthItems, depthItems, depth_reread j, depthItems_reread items]

theorem depthMembers_reread : ∀ members : List (String × Json),
    depthMembers (rereadMembers members) = depthMembers members
  | [] => rfl
  | (key, j) :: members => by
    rw [rereadMembers, depthMembers, depthMembers, depth_reread j, depthMembers_reread members]

end

end Reread

theorem depth_le_depthItems {j : Json} {items : List Json} (h : j ∈ items) :
    j.depth ≤ depthItems items := by
  induction items with
  | nil => exact absurd h List.not_mem_nil
  | cons k items ih =>
    rw [depthItems]
    rcases List.mem_cons.1 h with rfl | h
    · exact Nat.le_max_left ..
    · exact Nat.le_trans (ih h) (Nat.le_max_right ..)

section Fields

variable {α : Type}

@[simp] theorem variant?_tagged (name : String) (payload : Json) :
    (tagged name payload).variant? = some (name, payload) := rfl

@[simp] theorem variant?_string (name : String) : (string name).variant? = some (name, null) := rfl

@[simp] theorem record?_object (fields : List String) (members : List (String × Json)) :
    (object members).record? fields = some (object members) := rfl

@[simp] theorem get?_nil (key : String) : (object []).get? key = none := rfl

@[simp] theorem get?_self (key : String) (j : Json) (members : List (String × Json)) :
    (object ((key, j) :: members)).get? key = some j :=
  List.lookup_cons_self

@[simp] theorem get?_other {key name : String} (h : key ≠ name) (j : Json)
    (members : List (String × Json)) :
    (object ((name, j) :: members)).get? key = (object members).get? key := by
  show List.lookup key ((name, j) :: members) = List.lookup key members
  rw [List.lookup_cons, beq_eq_false_iff_ne.2 h]

/-- A list is read where all its items are. -/
theorem list?_map {f : α → Json} {read : Json → Option α} (items : List α)
    (h : ∀ a ∈ items, read (f a) = some a) : list? read (array (items.map f)) = some items := by
  simp only [list?, array?, Option.bind_some]
  induction items with
  | nil => rfl
  | cons a items ih =>
    have tail := ih fun b hb => h b (List.mem_cons_of_mem _ hb)
    simp [h a List.mem_cons_self, tail]

/-- A field that may be null is read where its value is never written as null. -/
theorem optional?_ofOption {f : α → Json} {read : Json → Option α} (hf : ∀ a, f a ≠ null)
    (hr : ∀ a, read (f a) = some a) {r : Json} {key : String} {o : Option α}
    (h : r.get? key = some (ofOption f o)) : optional? r key read = some o := by
  cases o with
  | none => simp [optional?, h, ofOption]
  | some a =>
    unfold optional?
    rw [h, ofOption]
    split
    · contradiction
    · rename_i e
      exact absurd (Option.some.inj e) (hf a)
    · rename_i e
      rw [← Option.some.inj e, hr]
      rfl

end Fields

end Json

@[simp] theorem ClassName.reread_toJson (c : ClassName) : c.toJson.reread = c.toJson := by
  obtain ⟨name, _ | p⟩ := c <;> simp [ClassName.toJson]

@[simp] theorem ClassName.ofJson?_toJson (c : ClassName) : ofJson? c.toJson = some c := by
  obtain ⟨name, _ | p⟩ := c
  · simp [ofJson?, toJson, required?, optional?, Json.string?]
  · simp [ofJson?, toJson, required?, optional?, Json.string?]

theorem Prim.ofName?_name (k : Prim) : ofName? k.name = some k := by cases k <;> decide

namespace Ty

mutual

theorem reread_toJson : ∀ t : Ty, t.toJson.reread = t.toJson
  | prim _ | named _ | null => by simp [toJson]
  | array t => by simp [toJson, reread_toJson t]
  | app c ts => by simp [toJson, reread_toJsonList ts]

theorem reread_toJsonList : ∀ ts : List Ty, (toJsonList ts).map Json.reread = toJsonList ts
  | [] => rfl
  | t :: ts => by rw [toJsonList, List.map_cons, reread_toJson t, reread_toJsonList ts]

end

mutual

theorem ofJsonWithin?_toJson : ∀ (t : Ty) (fuel : Nat), t.toJson.depth < fuel →
    ofJsonWithin? fuel t.toJson = some t
  | prim k, fuel + 1, _ => by simp [toJson, ofJsonWithin?, unit?, Prim.ofName?_name]
  | null, fuel + 1, _ => rfl
  | named c, fuel + 1, _ => by simp [toJson, ofJsonWithin?]
  | array t, fuel + 1, h => by
    simp only [toJson, tagged, Json.depth, Json.depthMembers] at h
    have := ofJsonWithin?_toJson t fuel (by omega)
    simp [toJson, ofJsonWithin?, this]
  | app c ts, fuel + 1, h => by
    simp only [toJson, tagged, Json.depth, Json.depthMembers, Json.depthItems] at h
    have := mapM_toJsonList ts fuel (by omega)
    simp [toJson, ofJsonWithin?, this]

theorem mapM_toJsonList : ∀ (ts : List Ty) (fuel : Nat), Json.depthItems (toJsonList ts) < fuel →
    (toJsonList ts).mapM (ofJsonWithin? fuel) = some ts
  | [], _, _ => rfl
  | t :: ts, fuel, h => by
    simp only [toJsonList, Json.depthItems] at h
    have first := ofJsonWithin?_toJson t fuel (by omega)
    have others := mapM_toJsonList ts fuel (by omega)
    simp [toJsonList, first, others]

end

@[simp] theorem ofJson?_toJson (t : Ty) : ofJson? t.toJson = some t :=
  ofJsonWithin?_toJson t _ (Nat.lt_succ_self _)

theorem toJson_ne_null (t : Ty) : t.toJson ≠ .null := by cases t <;> simp [toJson, tagged]

end Ty

theorem Json.word32?_ofNat (n : UInt32) : (Json.ofNat n.toNat).word32? = some n := by
  have : n.toNat < UInt32.size := n.toNat_lt
  simp [Json.word32?, Json.ofNat, Json.nat?, this]

@[simp] theorem Position.ofJson?_toJson (p : Position) : ofJson? p.toJson = some p := by
  simp [ofJson?, toJson, required?, Json.word32?_ofNat]

@[simp] theorem Position.reread_toJson (p : Position) : p.toJson.reread = p.toJson := by
  simp [toJson]

@[simp] theorem Span.ofJson?_toJson (s : Span) : ofJson? s.toJson = some s := by
  simp [ofJson?, toJson, required?, defaulted?, Json.word32?_ofNat, Json.string?]

@[simp] theorem Span.reread_toJson (s : Span) : s.toJson.reread = s.toJson := by
  simp [toJson]

@[simp] theorem Axis.reread_toJson (a : Axis) : a.toJson.reread = a.toJson := by
  cases a <;> simp [toJson]

/-- A custom axis stays one, whatever its name is. -/
@[simp] theorem Axis.ofJson?_toJson (a : Axis) : ofJson? a.toJson = some a := by
  cases a with
  | custom n => rfl
  | _ => rfl

@[simp] theorem Param.reread_toJson (p : Param) : p.toJson.reread = p.toJson := by
  simp [toJson, Ty.reread_toJson]

@[simp] theorem Param.ofJson?_toJson (p : Param) : ofJson? p.toJson = some p := by
  simp [ofJson?, toJson, required?, Json.string?]

/-- No infinity and no number that is none. -/
def Literal.Finite : Literal → Prop
  | float v => v.isFinite = true
  | double v => v.isFinite = true
  | _ => True

/-- The number written for a finite floating-point value reads back as the value. -/
def Literal.Exact : Literal → Prop
  | float v => v.isFinite = true →
    (Json.parse? (Json.ofUnpacked .binary32 v.toModel.unpack).render).bind Json.float32? = some v
  | double v => v.isFinite = true →
    (Json.parse? (Json.ofUnpacked .binary64 v.toModel.unpack).render).bind Json.float? = some v
  | _ => True

theorem Json.depth_ofUnpacked (format : Float.Model.Format) (x : Float.Model.UnpackedFloat) :
    (Json.ofUnpacked format x).depth = 0 := by
  cases x <;> rfl

theorem Json.bigInt?_ofInt (n : Int) : (Json.ofInt n).bigInt? = some n := by
  unfold Json.ofInt Json.bigInt?
  by_cases h : n < 0
  · simp only [h, decide_true, if_true, Option.some.injEq]
    omega
  · simp only [h, decide_false, Bool.false_eq_true, if_false, Option.some.injEq]
    omega

theorem Literal.ofJson?_toJson {l : Literal} (finite : l.Finite) (exact : l.Exact) :
    ofJson? l.toJson.reread = some l := by
  cases l
  case float v =>
    have := exact finite
    rw [Json.parse?_render (by rw [Json.depth_ofUnpacked]; exact Nat.zero_le _), Option.bind_some] at this
    simp [ofJson?, toJson, this]
  case double v =>
    have := exact finite
    rw [Json.parse?_render (by rw [Json.depth_ofUnpacked]; exact Nat.zero_le _), Option.bind_some] at this
    simp [ofJson?, toJson, this]
  all_goals
    simp [ofJson?, toJson, Json.string?, Json.bool?, Json.char?, Json.int?_ofInt, Json.bigInt?_ofInt,
      Word.ofInt?_val]

section Shapes

variable {α : Type} {f : α → Json} {read : Json → Option α}

theorem Reduction.ofName?_name (r : Reduction) : ofName? r.name = some r := by cases r <;> decide

theorem Conversion.ofName?_name (c : Conversion) : ofName? c.name = some c := by cases c <;> decide

theorem StageKind.ofName?_name (s : StageKind) : ofName? s.name = some s := by cases s <;> decide

theorem StackOp.ofName?_name (i : StackOp) : ofName? i.name = some i := by cases i <;> decide

theorem Operator.ofLabel?_label (op : Operator) : ofLabel? op.label = some op := by cases op <;> decide

theorem Test.ofJson?_toJson {t : Test α} (h : ∀ a ∈ t.children, read (f a) = some a) :
    ofJson? read (t.map f).toJson = some t := by
  cases t with
  | call n args =>
    have args := Json.list?_map args h
    simp [ofJson?, toJson, Test.map, required?, Json.string?, args]
  | _ => simp [ofJson?, toJson, Test.map, Json.string?, unit?, Reduction.ofName?_name]

theorem Step.ofJson?_toJson {s : Step α} (h : ∀ a ∈ s.children, read (f a) = some a) :
    ofJson? read (s.map f).toJson = some s := by
  have test := Test.ofJson?_toJson fun a ha => h a (List.mem_append_left _ ha)
  have predicates := Json.list?_map _ fun a ha => h a (List.mem_append_right _ ha)
  simp [ofJson?, toJson, Step.map, required?, defaulted?, test, predicates]

theorem Method.ofJson?_toJson {d : Method α} (h : ∀ a ∈ d.body, read (f a) = some a) :
    ofJson? read (toJson ⟨d.name, d.params, d.returnTy, d.body.map f⟩) = some d := by
  have params : list? Param.ofJson? (.array (d.params.map Param.toJson)) = some d.params :=
    Json.list?_map _ fun p _ => Param.ofJson?_toJson p
  have body := Json.list?_map _ h
  unfold ofJson? toJson
  simp only [Json.record?_object, Option.bind_eq_bind, Option.bind_some]
  rw [Json.optional?_ofOption Ty.toJson_ne_null Ty.ofJson?_toJson (o := d.returnTy) (by simp)]
  simp [required?, defaulted?, params, body, Json.string?]

theorem Kind.ofJson?_toJson {k : Kind α} (h : ∀ a ∈ k.children, read (f a) = some a)
    (hl : ∀ l, k ≠ .literal l) : ofJson? read (k.map f).toJson = some k := by
  cases k
  case literal l => exact absurd rfl (hl l)
  case this | stacked => rfl
  all_goals
    -- the reader of the payload is looked up by the label before anything is simplified
    rw [Kind.map, toJson, ofJson?, Json.variant?_tagged, Option.bind_eq_bind, Option.bind_some]
    simp only [label]
  case script items | sequence items => simp [Json.list?_map items h]
  case call n args => simp [required?, Json.string?, Json.list?_map args h]
  case stream steps =>
    have steps := Json.list?_map (f := fun s : Step α => (s.map f).toJson) steps fun s hs =>
      Step.ofJson?_toJson fun a ha => h a (List.mem_flatMap.2 ⟨s, hs, ha⟩)
    simp [Function.comp_def, steps]
  case methodDecl d => simp [Method.ofJson?_toJson (d := d) h]
  case localDecl n declared v =>
    have value := h v (by simp [children])
    simp only [Json.record?_object, Option.bind_eq_bind, Option.bind_some]
    rw [Json.optional?_ofOption Ty.toJson_ne_null Ty.ofJson?_toJson (o := declared) (by simp)]
    simp [required?, Json.string?, value]
  case methodCall t owner n args =>
    have target := h t (by simp [children])
    have args := Json.list?_map args fun a ha => h a (List.mem_cons_of_mem _ ha)
    simp [required?, Json.string?, target, args]
  all_goals
    simp only [children, List.forall_mem_cons] at h
    simp [required?, Json.string?, unit?, h, Conversion.ofName?_name, StageKind.ofName?_name,
      StackOp.ofName?_name, Operator.ofLabel?_label, Reduction.ofName?_name]

end Shapes

section Children

theorem Test.reread_toJson (t : Test Json) : t.toJson.reread = (t.map Json.reread).toJson := by
  cases t <;> simp [toJson, Test.map]

theorem Step.reread_toJson (s : Step Json) : s.toJson.reread = (s.map Json.reread).toJson := by
  simp [toJson, Step.map, Test.reread_toJson]

/-- Decimals are written with other digits in the children of a shape only, constants apart. -/
theorem Kind.reread_toJson {k : Kind Json} (hl : ∀ l, k ≠ .literal l) :
    k.toJson.reread = (k.map Json.reread).toJson := by
  have declared (o : Option Ty) := Json.reread_ofOption Ty.reread_toJson o
  cases k with
  | literal l => exact absurd rfl (hl l)
  | methodDecl d =>
    simp [toJson, Kind.map, label, Method.toJson, declared, Function.comp_def]
  | stream steps => simp [toJson, Kind.map, label, Function.comp_def, Step.reread_toJson]
  | _ => simp [toJson, Kind.map, label, declared, Ty.reread_toJson]

theorem Test.depth_toJson {t : Test Json} {c : Json} (h : c ∈ t.children) :
    c.depth < t.toJson.depth := by
  cases t <;> simp only [children, List.not_mem_nil] at h
  have := Json.depth_le_depthItems h
  simp only [toJson, tagged, Json.depth, Json.depthMembers]
  omega

theorem Step.depth_toJson {s : Step Json} {c : Json} (h : c ∈ s.children) :
    c.depth < s.toJson.depth := by
  simp only [toJson, Json.depth, Json.depthMembers]
  rcases List.mem_append.1 h with h | h
  · have := Test.depth_toJson h
    omega
  · have := Json.depth_le_depthItems h
    omega

/-- What a shape is written as is nested deeper than what its children are written as. -/
theorem Kind.depth_toJson {k : Kind Json} {c : Json} (h : c ∈ k.children) :
    c.depth < k.toJson.depth := by
  cases k with
  | stream steps =>
    obtain ⟨s, hs, hc⟩ := List.mem_flatMap.1 h
    have step := Step.depth_toJson hc
    have steps := Json.depth_le_depthItems (List.mem_map_of_mem (f := Step.toJson) hs)
    simp only [toJson, tagged, Json.depth, Json.depthMembers]
    omega
  | script items | sequence items | call n items =>
    have : c.depth ≤ Json.depthItems items := Json.depth_le_depthItems h
    simp only [toJson, tagged, Json.depth, Json.depthMembers]
    omega
  | methodDecl d =>
    have : c.depth ≤ Json.depthItems d.body := Json.depth_le_depthItems h
    simp only [toJson, Method.toJson, tagged, Json.depth, Json.depthMembers]
    omega
  | methodCall t owner n args =>
    simp only [toJson, tagged, Json.depth, Json.depthMembers]
    rcases List.mem_cons.1 h with rfl | h
    · omega
    · have := Json.depth_le_depthItems h
      omega
  | conditional a b d =>
    simp only [children, List.mem_cons, List.not_mem_nil, or_false] at h
    simp only [toJson, tagged, Json.depth, Json.depthMembers]
    rcases h with rfl | rfl | rfl <;> omega
  | binary _ a b | operatorCall _ _ a b | pipe _ a _ b | letIn _ a b =>
    simp only [children, List.mem_cons, List.not_mem_nil, or_false] at h
    simp only [toJson, tagged, Json.depth, Json.depthMembers]
    rcases h with rfl | rfl <;> omega
  | localDecl _ _ a | propertyRead a _ | convert _ a | toSequence a | collect a _ | isNull a =>
    obtain rfl := List.mem_singleton.1 h
    simp only [toJson, tagged, Json.depth, Json.depthMembers]
    omega
  | literal _ | name _ | this | stacked | localRef _ | typeRef _ | stackOp _ =>
    exact absurd h List.not_mem_nil

end Children

namespace Node

theorem toJson_mk (span : Span) (ty : Option Ty) (kind : Kind Node) :
    toJson ⟨span, ty, kind⟩ = .object [("span", span.toJson), ("ty", .ofOption Ty.toJson ty),
      ("kind", (kind.map toJson).toJson)] :=
  fold_mk _ span ty kind

/-- Every constant in the tree satisfies a condition. -/
def Literals (P : Literal → Prop) (n : Node) : Prop :=
  ∀ m ∈ n.nodes, ∀ l, m.kind = .literal l → P l

theorem literals_mk {P : Literal → Prop} {span : Span} {ty : Option Ty} {kind : Kind Node} :
    Literals P ⟨span, ty, kind⟩ ↔
      (∀ l, kind = .literal l → P l) ∧ ∀ c ∈ kind.children, c.Literals P :=
  forall_nodes_mk

theorem ofJsonWithin?_toJson (n : Node) : ∀ {fuel : Nat}, n.toJson.depth < fuel →
    n.Literals Literal.Finite → n.Literals Literal.Exact →
      ofJsonWithin? fuel n.toJson.reread = some n := by
  induction n using Node.induct with
  | h span ty kind ih =>
    intro fuel hf finite exact
    obtain _ | fuel := fuel
    · exact absurd hf (Nat.not_lt_zero _)
    have below : (kind.map toJson).toJson.depth < fuel := by
      rw [toJson_mk] at hf
      simp only [Json.depth, Json.depthMembers] at hf
      omega
    have children (c : Node) (hc : c ∈ kind.children) :
        ofJsonWithin? fuel c.toJson.reread = some c := by
      have shallower : c.toJson.depth < (kind.map toJson).toJson.depth :=
        Kind.depth_toJson (by rw [Kind.children_map]; exact List.mem_map_of_mem hc)
      exact ih c hc (by omega) ((literals_mk.1 finite).2 c hc) ((literals_mk.1 exact).2 c hc)
    have shape : Kind.ofJson? (ofJsonWithin? fuel) (kind.map toJson).toJson.reread = some kind := by
      by_cases literal : ∃ l, kind = .literal l
      · obtain ⟨l, rfl⟩ := literal
        have value := Literal.ofJson?_toJson ((literals_mk.1 finite).1 l rfl)
          ((literals_mk.1 exact).1 l rfl)
        simp [Kind.map, Kind.toJson, Kind.label, Kind.ofJson?, value]
      · have other : ∀ l, kind ≠ .literal l := fun l e => literal ⟨l, e⟩
        rw [Kind.reread_toJson, Kind.map_map]
        · exact Kind.ofJson?_toJson children other
        · intro l e
          cases kind <;> simp_all [Kind.map]
    have declared := Json.reread_ofOption Ty.reread_toJson ty
    rw [toJson_mk, ofJsonWithin?]
    simp only [Json.reread_object, List.map_cons, List.map_nil, Span.reread_toJson, declared,
      Json.record?_object, Option.bind_eq_bind, Option.bind_some]
    rw [Json.optional?_ofOption Ty.toJson_ne_null Ty.ofJson?_toJson (o := ty) (by simp)]
    simp [defaulted?, required?, shape]

/-- A tree survives its JSON text: whatever its nodes, types, regions and steps are, it is read
back as it was, if its floating-point constants are finite and their numbers read back exactly, and
if it is not nested deeper than the reader goes. -/
theorem parse_render {n : Node} (finite : n.Literals Literal.Finite)
    (exact : n.Literals Literal.Exact) (depth : n.toJson.depth ≤ Json.nestingLimit) :
    (Json.parse? n.toJson.render).bind ofJson? = some n := by
  rw [Json.parse?_render depth, Option.bind_some, ofJson?, Json.depth_reread]
  exact ofJsonWithin?_toJson n (Nat.lt_succ_self _) finite exact

/-- A wide integer, decimals of both widths, a custom axis named like a standard one, a type with
package, and a method with a name that has to be escaped. -/
def mixedTree : Node :=
  { kind := .script [
      { span := .ofLexeme 1 2 3 "x"
        ty := some (.app ⟨"List", some "util"⟩ [.array .null])
        kind := .stream [
          { axis := .custom "child", test := .call "at" [ofLiteral (.double 0.1)]
            predicates := [ofLiteral (.float (-1.5e-7))] },
          { axis := .child, test := .reduction .set }] },
      { kind := .methodDecl ⟨"a\"\n\x01", [⟨"p", .prim .int⟩], none, []⟩ },
      ofLiteral (.bigInteger ⟨-(Nat.pow 2 100 : Nat), by decide, by decide⟩)] }

theorem parse_render_mixed :
    mixedTree.Literals Literal.Finite ∧ mixedTree.Literals Literal.Exact ∧
      mixedTree.toJson.depth ≤ Json.nestingLimit ∧
      (Json.parse? mixedTree.toJson.render).bind ofJson? = some mixedTree := by
  have double : (Json.parse? (Json.ofUnpacked .binary64 (0.1 : Float).toModel.unpack).render).bind
      Json.float? = some 0.1 := by decide +kernel
  have float : (Json.parse? (Json.ofUnpacked .binary32 (-1.5e-7 : Float32).toModel.unpack).render).bind
      Json.float32? = some (-1.5e-7) := by decide +kernel
  have finite : (0.1 : Float).isFinite = true ∧ (-1.5e-7 : Float32).isFinite = true := by
    decide +kernel
  have depth : mixedTree.toJson.depth ≤ Json.nestingLimit := by decide +kernel
  have literals {P : Literal → Prop} (h : P (.double 0.1) ∧ P (.float (-1.5e-7)) ∧
      P (.bigInteger ⟨-(Nat.pow 2 100 : Nat), by decide, by decide⟩)) : mixedTree.Literals P := by
    simpa [mixedTree, literals_mk, Kind.children, Step.children, Test.children, ofLiteral,
      and_assoc] using h
  have finite := literals (P := Literal.Finite) ⟨finite.1, finite.2, trivial⟩
  have exact := literals (P := Literal.Exact) ⟨fun _ => double, fun _ => float, trivial⟩
  exact ⟨finite, exact, depth, parse_render finite exact depth⟩
end Node

end NavScript
