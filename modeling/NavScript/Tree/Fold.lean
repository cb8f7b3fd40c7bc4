import NavScript.Tree.Basic

/-!
# Recursion over trees

`Kind.map` and `Kind.mapM` act on the children of one node, from first to last. `Node.fold` is
recursion over a whole tree: what it gives for a node is made from the node's own data and from
what it gives for the children (`fold_mk`). `Node.transformM` runs a step on every node, children
before their parent (`transformM_eq`).
-/

namespace NavScript

variable {α β : Type}

namespace Test

def map (f : α → β) : Test α → Test β
  | name n => name n
  | wildcard => wildcard
  | self => self
  | call n args => call n (args.map f)
  | reduction r => reduction r

def mapM {m : Type → Type} [Monad m] (f : α → m β) : Test α → m (Test β)
  | name n => pure (name n)
  | wildcard => pure wildcard
  | self => pure self
  | call n args => return call n (← args.mapM f)
  | reduction r => pure (reduction r)

end Test

namespace Step

def map (f : α → β) (s : Step α) : Step β :=
  ⟨s.span, s.axis, s.test.map f, s.predicates.map f⟩

def mapM {m : Type → Type} [Monad m] (f : α → m β) (s : Step α) : m (Step β) :=
  return ⟨s.span, s.axis, ← s.test.mapM f, ← s.predicates.mapM f⟩

end Step

namespace Kind

def map (f : α → β) : Kind α → Kind β
  | script items => script (items.map f)
  | literal l => literal l
  | name n => name n
  | call n args => call n (args.map f)
  | stream steps => stream (steps.map (·.map f))
  | binary op l r => binary op (f l) (f r)
  | conditional c t e => conditional (f c) (f t) (f e)
  | methodDecl d => methodDecl ⟨d.name, d.params, d.returnTy, d.body.map f⟩
  | localDecl n declared v => localDecl n declared (f v)
  | this => this
  | stacked => stacked
  | localRef n => localRef n
  | typeRef t => typeRef t
  | propertyRead t n => propertyRead (f t) n
  | methodCall t owner n args => methodCall (f t) owner n (args.map f)
  | operatorCall owner method l r => operatorCall owner method (f l) (f r)
  | convert c e => convert c (f e)
  | toSequence e => toSequence (f e)
  | pipe op s p b => pipe op (f s) p (f b)
  | collect s r => collect (f s) r
  | letIn n v b => letIn n (f v) (f b)
  | isNull e => isNull (f e)
  | sequence items => sequence (items.map f)
  | stackOp i => stackOp i

def mapM {m : Type → Type} [Monad m] (f : α → m β) : Kind α → m (Kind β)
  | script items => return script (← items.mapM f)
  | literal l => pure (literal l)
  | name n => pure (name n)
  | call n args => return call n (← args.mapM f)
  | stream steps => return stream (← steps.mapM (·.mapM f))
  | binary op l r => return binary op (← f l) (← f r)
  | conditional c t e => return conditional (← f c) (← f t) (← f e)
  | methodDecl d => return methodDecl ⟨d.name, d.params, d.returnTy, ← d.body.mapM f⟩
  | localDecl n declared v => return localDecl n declared (← f v)
  | this => pure this
  | stacked => pure stacked
  | localRef n => pure (localRef n)
  | typeRef t => pure (typeRef t)
  | propertyRead t n => return propertyRead (← f t) n
  | methodCall t owner n args => return methodCall (← f t) owner n (← args.mapM f)
  | operatorCall owner method l r => return operatorCall owner method (← f l) (← f r)
  | convert c e => return convert c (← f e)
  | toSequence e => return toSequence (← f e)
  | pipe op s p b => return pipe op (← f s) p (← f b)
  | collect s r => return collect (← f s) r
  | letIn n v b => return letIn n (← f v) (← f b)
  | isNull e => return isNull (← f e)
  | sequence items => return sequence (← items.mapM f)
  | stackOp i => pure (stackOp i)

end Kind

section

variable (alg : Span → Option Ty → Kind α → α)

mutual

/-- Recursion over a tree, the children first. -/
def Node.fold : Node → α
  | ⟨span, ty, kind⟩ => alg span ty (foldKind kind)

private def foldKind : Kind Node → Kind α
  | .script items => .script (foldNodes items)
  | .literal l => .literal l
  | .name n => .name n
  | .call n args => .call n (foldNodes args)
  | .stream steps => .stream (foldSteps steps)
  | .binary op l r => .binary op (Node.fold l) (Node.fold r)
  | .conditional c t e => .conditional (Node.fold c) (Node.fold t) (Node.fold e)
  | .methodDecl d => .methodDecl (foldMethod d)
  | .localDecl n declared v => .localDecl n declared (Node.fold v)
  | .this => .this
  | .stacked => .stacked
  | .localRef n => .localRef n
  | .typeRef t => .typeRef t
  | .propertyRead t n => .propertyRead (Node.fold t) n
  | .methodCall t owner n args => .methodCall (Node.fold t) owner n (foldNodes args)
  | .operatorCall owner method l r => .operatorCall owner method (Node.fold l) (Node.fold r)
  | .convert c e => .convert c (Node.fold e)
  | .toSequence e => .toSequence (Node.fold e)
  | .pipe op s p b => .pipe op (Node.fold s) p (Node.fold b)
  | .collect s r => .collect (Node.fold s) r
  | .letIn n v b => .letIn n (Node.fold v) (Node.fold b)
  | .isNull e => .isNull (Node.fold e)
  | .sequence items => .sequence (foldNodes items)
  | .stackOp i => .stackOp i

private def foldNodes : List Node → List α
  | [] => []
  | n :: rest => Node.fold n :: foldNodes rest

private def foldSteps : List (Step Node) → List (Step α)
  | [] => []
  | s :: rest => foldStep s :: foldSteps rest

private def foldStep : Step Node → Step α
  | ⟨span, axis, test, predicates⟩ => ⟨span, axis, foldTest test, foldNodes predicates⟩

private def foldTest : Test Node → Test α
  | .name n => .name n
  | .wildcard => .wildcard
  | .self => .self
  | .call n args => .call n (foldNodes args)
  | .reduction r => .reduction r

private def foldMethod : Method Node → Method α
  | ⟨name, params, returnTy, body⟩ => ⟨name, params, returnTy, foldNodes body⟩

end

private theorem foldNodes_eq : ∀ ns : List Node, foldNodes alg ns = ns.map (Node.fold alg)
  | [] => by simp [foldNodes]
  | n :: rest => by simp [foldNodes, foldNodes_eq rest]

private theorem foldTest_eq (t : Test Node) : foldTest alg t = t.map (Node.fold alg) := by
  cases t <;> simp [foldTest, Test.map, foldNodes_eq]

private theorem foldStep_eq (s : Step Node) : foldStep alg s = s.map (Node.fold alg) := by
  cases s
  simp [foldStep, Step.map, foldTest_eq, foldNodes_eq]

private theorem foldSteps_eq :
    ∀ ss : List (Step Node), foldSteps alg ss = ss.map (·.map (Node.fold alg))
  | [] => by simp [foldSteps]
  | s :: rest => by simp [foldSteps, foldStep_eq, foldSteps_eq rest]

private theorem foldMethod_eq (d : Method Node) :
    foldMethod alg d = ⟨d.name, d.params, d.returnTy, d.body.map (Node.fold alg)⟩ := by
  cases d
  simp [foldMethod, foldNodes_eq]

private theorem foldKind_eq (k : Kind Node) : foldKind alg k = k.map (Node.fold alg) := by
  cases k <;> simp [foldKind, Kind.map, foldNodes_eq, foldSteps_eq, foldMethod_eq]

/-- The fold of a node is made from the folds of its children. -/
theorem Node.fold_mk (span : Span) (ty : Option Ty) (kind : Kind Node) :
    Node.fold alg ⟨span, ty, kind⟩ = alg span ty (kind.map (Node.fold alg)) := by
  rw [Node.fold, foldKind_eq]

end

namespace Node

variable {m : Type → Type} [Monad m]

/-- Runs a step on the children of a node, from first to last. -/
def mapChildren (f : Node → m Node) (n : Node) : m Node :=
  return { n with kind := ← n.kind.mapM f }

/-- Recursion in which a node also sees its children as they are. -/
def para {α : Type} (alg : Span → Option Ty → Kind (Node × α) → α) (n : Node) : α :=
  (n.fold fun span ty kind => ((⟨span, ty, kind.map (·.1)⟩ : Node), alg span ty kind)).2

/-- Changes every node of a tree, children before their parent. -/
def transform (f : Node → Node) (n : Node) : Node := n.fold fun span ty kind => f ⟨span, ty, kind⟩

/-- Runs a step on every node of a tree, on children before their parent. -/
def transformM (f : Node → m Node) (n : Node) : m Node :=
  fold (fun span ty kind => do f ⟨span, ty, ← kind.mapM id⟩) n

end Node

section

variable {γ : Type} {m : Type → Type} [Monad m] [LawfulMonad m]

theorem Test.mapM_map (f : α → β) (g : β → m γ) (t : Test α) :
    (t.map f).mapM g = t.mapM (fun a => g (f a)) := by
  cases t <;> simp [Test.map, Test.mapM, List.mapM_map, Function.comp_def]

theorem Step.mapM_map (f : α → β) (g : β → m γ) (s : Step α) :
    (s.map f).mapM g = s.mapM (fun a => g (f a)) := by
  simp [Step.map, Step.mapM, Test.mapM_map, List.mapM_map, Function.comp_def]

theorem Kind.mapM_map (f : α → β) (g : β → m γ) (k : Kind α) :
    (k.map f).mapM g = k.mapM (fun a => g (f a)) := by
  cases k <;> simp [Kind.map, Kind.mapM, Step.mapM_map, List.mapM_map, Function.comp_def]

/-- Running a step on a tree runs it on the children, rebuilds the node and runs it there. -/
theorem Node.transformM_eq (f : Node → m Node) (n : Node) :
    n.transformM f = n.mapChildren (Node.transformM f) >>= f := by
  cases n with
  | mk span ty kind =>
    simp only [Node.transformM, Node.fold_mk, Kind.mapM_map, Node.mapChildren, id, bind_assoc,
      pure_bind]
    rfl

end

end NavScript
