import NavScript.Proofs.Chains

/-!
# A survey of the stack

`Node.survey` goes through a tree without running it and keeps account of the values that the chain of
a node has on the evaluation stack, each by a label that is made from the type of its node. Arguments,
operands, bodies of stages and items of scripts are chains of their own. There is no survey where a
chain takes or reads below its own values, where the branches of a conditional leave different values,
or where a name that is drawn by lowering is read outside its binder. The flag of a survey says whether
each value is read under the label that it has.

With labels that say nothing the survey is about depth only, with types for labels it is about the types
that are written into the tree.
-/

namespace NavScript

/-- A name that lowering draws begins with a dollar sign. -/
def Lower.isDrawn (x : String) : Bool := x.toList.head? == some '$'

/-- What a part of a tree makes of the labels of the values on the stack, and the flag. -/
abbrev Course (V : Type) := List V → Option (List V × Bool)

namespace Course

variable {V : Type}

def stay : Course V := fun frame => some (frame, true)

def push (v : V) : Course V := fun frame => some (v :: frame, true)

def drop : Course V
  | [] => none
  | _ :: frame => some (frame, true)

def dup : Course V
  | [] => none
  | v :: frame => some (v :: v :: frame, true)

def andThen (f g : Course V) : Course V := fun frame =>
  (f frame).bind fun mid => (g mid.1).map fun last => (last.1, mid.2 && last.2)

def all (fs : List (Course V)) : Course V := fs.foldr andThen stay

/-- The value on top makes room for another one. -/
def relabel (v : V) : Course V := drop.andThen (push v)

/-- A chain of its own that leaves one value, which is taken. -/
def alone (f : Course V) : Course V := fun frame =>
  match f [] with
  | some ([_], ok) => some (frame, ok)
  | _ => none

section

variable [DecidableEq V]

/-- The value on top is read where it lies. -/
def read (v : V) : Course V
  | [] => none
  | u :: frame => some (v :: frame, u == v)

/-- A value known by a label is read. -/
def known (u v : V) : Course V := fun frame => some (v :: frame, u == v)

/-- Either of two courses that leave one value on the same values. -/
def either (f g : Course V) (v : V) : Course V := fun frame =>
  match f frame, g frame with
  | some (_ :: left, a), some (_ :: right, b) => if left = right then some (v :: left, a && b) else none
  | _, _ => none

end

end Course

/-- What is known of a surveyed node. -/
@[ext] structure Sheet (V : Type) where
  /-- The label of its value. -/
  own : V
  /-- The label of the elements of its value. -/
  element : V
  /-- It only declares a method and leaves no value. -/
  declares : Bool
  /-- Its course, where names are bound to labelled values. -/
  course : List (String × V) → Course V

section

open Course

variable {V : Type} [DecidableEq V]

/-- The course of a node by those of its children. What is left unresolved counts as a value. -/
def surveyKind (own : V) (kind : Kind (Sheet V)) (env : List (String × V)) : Course V :=
  match kind with
  | .literal _ | .this | .typeRef _ | .name _ | .call _ _ | .stream _ => push own
  | .stacked => read own
  | .localRef x =>
    match env.lookup x with
    | some v => known v own
    | none => if Lower.isDrawn x then fun _ => none else push own
  | .propertyRead e _ | .convert _ e | .toSequence e | .collect e _ | .isNull e | .localDecl _ _ e =>
    (e.course env).andThen (relabel own)
  | .methodCall e _ _ args =>
    ((e.course env).andThen (all (args.map fun arg => alone (arg.course env)))).andThen (relabel own)
  | .binary _ l r | .operatorCall _ _ l r =>
    ((alone (l.course env)).andThen (alone (r.course env))).andThen (push own)
  | .conditional c t e =>
    ((c.course env).andThen drop).andThen (either (t.course env) (e.course env) own)
  | .pipe _ s x body =>
    ((s.course env).andThen (alone (body.course ((x, s.element) :: env)))).andThen (relabel own)
  | .letIn x value body =>
    (((value.course env).andThen drop).andThen (body.course ((x, value.own) :: env))).andThen
      (relabel own)
  | .sequence items => all (items.map fun item => item.course env)
  | .stackOp .dup => dup
  | .stackOp .pop => drop
  | .script items =>
    (all (items.map fun item =>
      if item.declares then item.course env else alone (item.course env))).andThen (push own)
  | .methodDecl d => all (d.body.map fun item => alone (item.course env))

variable (label : Option Ty → V)

def Node.sheet (n : Node) : Sheet V :=
  n.fold fun _ ty kind =>
    { own := label ty
      element := label (ty.bind Ty.element?)
      declares := kind.label == "MethodDecl"
      course := surveyKind (label ty) kind }

/-- The course of a tree. -/
def Node.survey (n : Node) (env : List (String × V)) : Course V := (n.sheet label).course env

theorem sheet_mk (span : Span) (ty : Option Ty) (kind : Kind Node) :
    Node.sheet label ⟨span, ty, kind⟩ =
      { own := label ty
        element := label (ty.bind Ty.element?)
        declares := kind.label == "MethodDecl"
        course := surveyKind (label ty) (kind.map (Node.sheet label)) } := by
  unfold Node.sheet
  rw [Node.fold_mk, Kind.label_map]

theorem survey_mk (span : Span) (ty : Option Ty) (kind : Kind Node) (env : List (String × V)) :
    Node.survey label ⟨span, ty, kind⟩ env =
      surveyKind (label ty) (kind.map (Node.sheet label)) env := by
  unfold Node.survey
  rw [sheet_mk]

@[simp] theorem sheet_own (n : Node) : (n.sheet label).own = label n.ty := by
  cases n
  rw [sheet_mk]

@[simp] theorem sheet_element (n : Node) :
    (n.sheet label).element = label (n.ty.bind Ty.element?) := by
  cases n
  rw [sheet_mk]

@[simp] theorem sheet_declares (n : Node) :
    (n.sheet label).declares = (n.label == "MethodDecl") := by
  cases n
  rw [sheet_mk]
  rfl

end

namespace Course

variable {V : Type} {f g : Course V} {a b : Bool} {frame mid last : List V} {v : V}

theorem andThen_eq (hf : f frame = some (mid, a)) (hg : g mid = some (last, b)) :
    f.andThen g frame = some (last, a && b) := by
  unfold andThen
  rw [hf, Option.bind_some, hg]
  rfl

theorem andThen_congr {f' : Course V} {frame' : List V} (h : f frame = f' frame') :
    f.andThen g frame = f'.andThen g frame' := by
  unfold andThen
  rw [h]

theorem andThen_some {r : List V × Bool} (h : f.andThen g frame = some r) :
    ∃ mid a last b, f frame = some (mid, a) ∧ g mid = some (last, b) ∧ r = (last, a && b) := by
  unfold andThen at h
  obtain ⟨⟨mid, a⟩, hf, h⟩ := Option.bind_eq_some_iff.1 h
  obtain ⟨⟨last, b⟩, hg, rfl⟩ := Option.map_eq_some_iff.1 h
  exact ⟨mid, a, last, b, hf, hg, rfl⟩

theorem relabel_eq (u : V) : relabel v (u :: frame) = some (v :: frame, true) := rfl

theorem andThen_relabel {u : V} (hf : f frame = some (u :: mid, a)) :
    f.andThen (relabel v) frame = some (v :: mid, a) := by
  rw [andThen_eq hf (relabel_eq u), Bool.and_true]

theorem andThen_drop {u : V} (hf : f frame = some (u :: mid, a)) :
    f.andThen drop frame = some (mid, a) := by
  have dropped : drop (u :: mid) = some (mid, true) := rfl
  rw [andThen_eq hf dropped, Bool.and_true]

theorem alone_eq {u : V} (hf : f [] = some ([u], a)) : alone f frame = some (frame, a) := by
  unfold alone
  rw [hf]

theorem alone_some {r : List V × Bool} (h : alone f frame = some r) :
    ∃ u a, f [] = some ([u], a) ∧ r = (frame, a) := by
  unfold alone at h
  split at h
  · rename_i u a hf
    cases h
    exact ⟨u, a, hf, rfl⟩
  · cases h

theorem either_eq [DecidableEq V] {u w : V} (hf : f frame = some (u :: mid, a))
    (hg : g frame = some (w :: mid, b)) : either f g v frame = some (v :: mid, a && b) := by
  simp [either, hf, hg]

theorem either_some [DecidableEq V] {r : List V × Bool} (h : either f g v frame = some r) :
    ∃ u w mid a b, f frame = some (u :: mid, a) ∧ g frame = some (w :: mid, b) ∧
      r = (v :: mid, a && b) := by
  unfold either at h
  split at h
  · rename_i u left a w right b hf hg
    split at h
    · rename_i same
      cases h
      subst same
      exact ⟨u, w, left, a, b, hf, hg, rfl⟩
    · cases h
  · cases h

theorem all_some {fs : List (Course V)} (h : ∀ f ∈ fs, ∀ frame r, f frame = some r → r.1 = frame)
    {frame : List V} {r : List V × Bool} (run : all fs frame = some r) : r.1 = frame := by
  induction fs generalizing frame r with
  | nil =>
    cases run
    rfl
  | cons f fs ih =>
    obtain ⟨mid, a, last, b, hf, hfs, rfl⟩ := andThen_some run
    have first : mid = frame := h f (List.mem_cons_self ..) frame _ hf
    rw [first] at hfs
    have rest : (last, b).1 = frame := ih (fun g hg => h g (List.mem_cons_of_mem _ hg)) hfs
    exact rest

end Course

section

open Course

variable {V : Type} [DecidableEq V] {label : Option Ty → V} {env : List (String × V)}
  {pre : List V} {n l r : Node} {a b c : Bool} {span : Span} {ty : Option Ty}

/-- On values that begin with the given ones the node leaves one of its type in their place. -/
def Node.Walks (label : Option Ty → V) (env : List (String × V)) (pre : List V) (n : Node)
    (ok : Bool) : Prop :=
  ∀ frame, n.survey label env (pre ++ frame) = some (label n.ty :: frame, ok)

theorem Node.Walks.alone (h : n.Walks label env [] a) (frame : List V) :
    Course.alone (n.survey label env) frame = some (frame, a) :=
  alone_eq (h [])

theorem survey_withSpan (n : Node) (span : Span) :
    (n.withSpan span).survey label env = n.survey label env := by
  obtain ⟨span', ty, kind⟩ := n
  exact (survey_mk ..).trans (survey_mk ..).symm

theorem Node.Walks.withSpan (h : n.Walks label env pre a) (span : Span) :
    (n.withSpan span).Walks label env pre a := by
  intro frame
  rw [survey_withSpan]
  exact h frame

/-- What leaves a value declares no method. -/
theorem Node.Walks.declares (h : n.Walks label env [] a) : n.label ≠ "MethodDecl" := by
  obtain ⟨span, ty, kind⟩ := n
  intro declares
  cases kind
  case methodDecl d =>
    have run := h []
    rw [survey_mk] at run
    have kept : [label ty] = ([] : List V) := all_some (fun f hf frame r hr => by
      obtain ⟨item, -, rfl⟩ := List.mem_map.1 hf
      obtain ⟨_, _, -, rfl⟩ := alone_some hr
      rfl) run
    cases kept
  all_goals simp [Node.label, Kind.label] at declares

theorem Node.Walks.flag (h : n.Walks label env pre a) (h' : n.Walks label env pre b) : a = b := by
  have both := (h []).symm.trans (h' [])
  simp only [Option.some.injEq, Prod.mk.injEq, true_and] at both
  exact both

/-- Chains of their own leave the values as they are. -/
theorem all_alone {ns : List Node} {ok : Node → Bool}
    (h : ∀ n ∈ ns, n.Walks label env [] (ok n)) (frame : List V) :
    all (ns.map fun n => Course.alone (n.survey label env)) frame = some (frame, ns.all ok) := by
  induction ns with
  | nil => rfl
  | cons n ns ih =>
    have others := ih fun m hm => h m (List.mem_cons_of_mem _ hm)
    exact andThen_eq ((h n (List.mem_cons_self ..)).alone frame) others

theorem walks_leaf {kind : Kind Node}
    (hkind : kind.label ∈ ["Literal", "This", "TypeRef", "Name", "Call", "Stream"]) :
    Node.Walks label env [] ⟨span, ty, kind⟩ true := by
  intro frame
  rw [survey_mk]
  cases kind
  case literal | this | typeRef | name | call | stream => rfl
  all_goals simp [Kind.label] at hkind

theorem walks_stacked (v : V) :
    Node.Walks label env [v] ⟨span, ty, .stacked⟩ (v == label ty) := by
  intro frame
  rw [survey_mk]
  rfl

theorem walks_stackedOf (t : Ty) : (Node.stackedOf t).Walks label env [label (some t)] true := by
  have read : (Node.stackedOf t).Walks label env [label (some t)] (label (some t) == label (some t)) :=
    walks_stacked _
  rw [beq_self_eq_true] at read
  exact read

theorem walks_known {x : String} {v : V} (h : env.lookup x = some v) :
    Node.Walks label env [] ⟨span, ty, .localRef x⟩ (v == label ty) := by
  intro frame
  rw [survey_mk]
  simp only [Kind.map, surveyKind, h]
  rfl

theorem walks_plain {x : String} (h : env.lookup x = none) (plain : Lower.isDrawn x = false) :
    Node.Walks label env [] ⟨span, ty, .localRef x⟩ true := by
  intro frame
  rw [survey_mk]
  simp only [Kind.map, surveyKind, h, plain]
  rfl

/-- Nodes that change the value of their operand. -/
theorem walks_unary {kind : Kind Node} (h : n.Walks label env pre a)
    (hkind : ∀ own, surveyKind own (kind.map (Node.sheet label)) env =
      (n.survey label env).andThen (relabel own)) :
    Node.Walks label env pre ⟨span, ty, kind⟩ a := by
  intro frame
  rw [survey_mk, hkind]
  exact andThen_relabel (h frame)

theorem walks_propertyRead (h : n.Walks label env pre a) (name : String) :
    Node.Walks label env pre ⟨span, ty, .propertyRead n name⟩ a :=
  walks_unary h fun _ => rfl

theorem walks_convert (h : n.Walks label env pre a) (conversion : Conversion) :
    Node.Walks label env pre ⟨span, ty, .convert conversion n⟩ a :=
  walks_unary h fun _ => rfl

theorem walks_toSequence (h : n.Walks label env pre a) :
    Node.Walks label env pre ⟨span, ty, .toSequence n⟩ a :=
  walks_unary h fun _ => rfl

theorem walks_collect (h : n.Walks label env pre a) (r : Reduction) :
    Node.Walks label env pre ⟨span, ty, .collect n r⟩ a :=
  walks_unary h fun _ => rfl

theorem walks_isNull (h : n.Walks label env pre a) :
    Node.Walks label env pre ⟨span, ty, .isNull n⟩ a :=
  walks_unary h fun _ => rfl

theorem walks_localDecl (h : n.Walks label env pre a) (x : String) (written : Option Ty) :
    Node.Walks label env pre ⟨span, ty, .localDecl x written n⟩ a :=
  walks_unary h fun _ => rfl

theorem walks_methodCall (h : n.Walks label env pre a) {args : List Node} {ok : Node → Bool}
    (hargs : ∀ arg ∈ args, arg.Walks label env [] (ok arg)) (owner : Ty) (name : String) :
    Node.Walks label env pre ⟨span, ty, .methodCall n owner name args⟩ (a && args.all ok) := by
  intro frame
  rw [survey_mk]
  simp only [Kind.map, surveyKind, List.map_map]
  exact andThen_relabel (andThen_eq (h frame) (all_alone hargs _))

theorem walks_operands {kind : Kind Node} (hl : l.Walks label env [] a)
    (hr : r.Walks label env [] b) (hkind : ∀ own, surveyKind own (kind.map (Node.sheet label)) env =
      ((Course.alone (l.survey label env)).andThen (Course.alone (r.survey label env))).andThen
        (push own)) :
    Node.Walks label env [] ⟨span, ty, kind⟩ (a && b) := by
  intro frame
  rw [survey_mk, hkind]
  have both := andThen_eq (hl.alone frame) (hr.alone frame)
  have made := andThen_eq both (show push (label ty) frame = some (label ty :: frame, true) from rfl)
  rw [Bool.and_true] at made
  exact made

theorem walks_conditional (hc : n.Walks label env [] c) (hl : l.Walks label env [] a)
    (hr : r.Walks label env [] b) :
    Node.Walks label env [] ⟨span, ty, .conditional n l r⟩ (c && (a && b)) := by
  intro frame
  rw [survey_mk]
  exact andThen_eq (andThen_drop (hc frame)) (either_eq (hl frame) (hr frame))

theorem walks_pipe {x : String} {body : Node} {t : Ty} (h : n.Walks label env pre a)
    (hty : n.ty.bind Ty.element? = some t)
    (hbody : body.Walks label ((x, label (some t)) :: env) [] b) (op : StageKind) :
    Node.Walks label env pre ⟨span, ty, .pipe op n x body⟩ (a && b) := by
  intro frame
  rw [survey_mk]
  simp only [Kind.map, surveyKind, sheet_element, hty]
  exact andThen_relabel (andThen_eq (h frame) (hbody.alone _))

theorem walks_letIn {x : String} {body : Node} (h : n.Walks label env pre a)
    (hbody : body.Walks label ((x, label n.ty) :: env) [] b) :
    Node.Walks label env pre ⟨span, ty, .letIn x n body⟩ (a && b) := by
  intro frame
  rw [survey_mk]
  simp only [Kind.map, surveyKind, sheet_own]
  exact andThen_relabel (andThen_eq (andThen_drop (h frame)) (hbody frame))

/-- One node behind another on its value. -/
theorem walks_pair (h : n.Walks label env pre a) (hr : r.Walks label env [label n.ty] b)
    (hty : ty = r.ty) : Node.Walks label env pre ⟨span, ty, .sequence [n, r]⟩ (a && b) := by
  intro frame
  rw [survey_mk]
  have second : all [r.survey label env] (label n.ty :: frame) = some (label r.ty :: frame, b) := by
    have made := andThen_eq (hr frame) (show stay (label r.ty :: frame) = _ from rfl)
    rw [Bool.and_true] at made
    exact made
  rw [hty]
  exact andThen_eq (h frame) second

open Lower

theorem walks_boxedAs (h : n.Walks label env pre a) (t : Ty) : (boxedAs t n).Walks label env pre a := by
  unfold boxedAs
  split
  · exact walks_convert h .box
  · exact h

theorem boxedAs_ty {t : Ty} (h : n.ty = some t) : (boxedAs t n).ty = some t.boxed := by
  unfold boxedAs
  split
  · rfl
  · rename_i ht
    rw [h, Ty.boxed_of_reference (Bool.eq_false_iff.2 ht)]

theorem survey_ofStackOp_pop : (Node.ofStackOp .pop).survey label env = drop := survey_mk ..

theorem survey_ofStackOp_dup : (Node.ofStackOp .dup).survey label env = dup := survey_mk ..

theorem survey_sequence (items : List Node) :
    Node.survey label ⟨span, ty, .sequence items⟩ env =
      all (items.map fun item => item.survey label env) := by
  rw [survey_mk]
  simp only [Kind.map, surveyKind, List.map_map]
  rfl

/-- The value of the subject is looked at and handed on, or dropped. -/
theorem walks_guarded {resultTy stackedTy : Ty} {body : Node} (h : n.Walks label env pre a)
    (hty : n.ty = some stackedTy) (hbody : body.Walks label env [label (some stackedTy)] b) :
    (guarded span resultTy n stackedTy body).Walks label env pre (a && b) := by
  intro frame
  have top := h frame
  rw [hty] at top
  have done (frame : List V) : all [] frame = some (frame, true) := rfl
  have test : Node.survey label { ty := some .boolean, kind := .isNull (.stackedOf stackedTy) } env
      (label (some stackedTy) :: label (some stackedTy) :: frame) =
        some (label (some .boolean) :: label (some stackedTy) :: frame, true) := by
    have read : Node.Walks label env [label (some stackedTy)]
        { ty := some .boolean, kind := .isNull (.stackedOf stackedTy) } true :=
      walks_isNull (walks_stackedOf stackedTy)
    exact read _
  have stop : Node.survey label
      { ty := some resultTy, kind := .sequence [.ofStackOp .pop, .nullOf resultTy] } env
      (label (some stackedTy) :: frame) = some (label (some resultTy) :: frame, true) := by
    rw [survey_sequence]
    have null : (Node.nullOf resultTy).survey label env frame =
        some (label (some resultTy) :: frame, true) :=
      walks_leaf (by simp [Kind.label]) frame
    simp only [List.map_cons, List.map_nil, survey_ofStackOp_pop]
    have popped : drop (label (some stackedTy) :: frame) = some (frame, true) := rfl
    exact andThen_eq popped (andThen_eq null (done _))
  have branch : Node.survey label ⟨.synthetic, some resultTy, .conditional
      { ty := some .boolean, kind := .isNull (.stackedOf stackedTy) }
      { ty := some resultTy, kind := .sequence [.ofStackOp .pop, .nullOf resultTy] } body⟩ env
      (label (some stackedTy) :: label (some stackedTy) :: frame) =
        some (label (some resultTy) :: frame, b) := by
    rw [survey_mk]
    exact andThen_eq (andThen_drop test) (either_eq stop (hbody frame))
  unfold guarded
  rw [survey_sequence]
  simp only [List.map_cons, List.map_nil, survey_ofStackOp_dup]
  have copied : dup (label (some stackedTy) :: frame) = some (_, true) := rfl
  have made := andThen_eq top (andThen_eq copied (andThen_eq branch (done _)))
  rw [Bool.and_true, Bool.true_and] at made
  exact made

/-- A subject is handed to what reads it as one of its type. -/
theorem walks_handed {subjectTy bodyTy : Ty} {body : Node} (boxPrimitives : Bool)
    (h : n.Walks label env pre a) (hty : n.ty = some subjectTy) (hbodyTy : body.ty = some bodyTy)
    (hbody : body.Walks label env [label (some subjectTy)] b) :
    (handed boxPrimitives subjectTy bodyTy n body).Walks label env pre (a && b) := by
  unfold handed
  split
  · split
    · refine walks_guarded (walks_convert h .box) rfl ?_
      have unboxed : (Node.convertTo .unbox (.stackedOf subjectTy.boxed) subjectTy).Walks label env
          [label (some subjectTy.boxed)] true :=
        walks_convert (walks_stackedOf subjectTy.boxed) .unbox
      have made : Node.Walks label env [label (some subjectTy.boxed)]
          { ty := some bodyTy.boxed
            kind := .sequence [.convertTo .unbox (.stackedOf subjectTy.boxed) subjectTy,
              boxedAs bodyTy body] } (true && b) :=
        walks_pair unboxed (walks_boxedAs hbody bodyTy) (boxedAs_ty hbodyTy).symm
      rw [Bool.true_and] at made
      exact made
    · rw [← hty] at hbody
      exact walks_pair h hbody hbodyTy.symm
  · exact walks_guarded h hty (walks_boxedAs hbody bodyTy)

end

end NavScript
