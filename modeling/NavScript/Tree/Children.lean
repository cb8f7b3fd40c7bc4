import NavScript.Fault
import NavScript.Tree.Fold

/-!
# Children of a node

`children` lists the direct children in the order in which they are evaluated, and `withChildren`
puts as many others in their place. A stream's children are those of its steps, of each step the
arguments of a call and then the predicates.
-/

namespace NavScript

variable {α β : Type}

def Test.children : Test α → List α
  | .call _ args => args
  | _ => []

def Step.children (s : Step α) : List α := s.test.children ++ s.predicates

def Kind.children : Kind α → List α
  | .script items | .sequence items => items
  | .call _ args => args
  | .stream steps => steps.flatMap (·.children)
  | .binary _ l r | .operatorCall _ _ l r => [l, r]
  | .conditional c t e => [c, t, e]
  | .methodDecl d => d.body
  | .localDecl _ _ v => [v]
  | .propertyRead t _ => [t]
  | .methodCall t _ _ args => t :: args
  | .convert _ e | .toSequence e | .isNull e => [e]
  | .pipe _ s _ b => [s, b]
  | .collect s _ => [s]
  | .letIn _ v b => [v, b]
  | .literal _ | .name _ | .this | .stacked | .localRef _ | .typeRef _ | .stackOp _ => []

/-- The list itself, if it is as long as another one. -/
def fillList (old : List α) (new : List β) : Option (List β) :=
  if new.length = old.length then some new else none

def Test.fill (t : Test α) (new : List β) : Option (Test β) :=
  match t with
  | .call n args => (fillList args new).map (.call n)
  | .name n => (fillList ([] : List α) new).map fun _ => .name n
  | .wildcard => (fillList ([] : List α) new).map fun _ => .wildcard
  | .self => (fillList ([] : List α) new).map fun _ => .self
  | .reduction r => (fillList ([] : List α) new).map fun _ => .reduction r

def Step.fill (s : Step α) (new : List β) : Option (Step β) := do
  let count := s.test.children.length
  let test ← s.test.fill (new.take count)
  let predicates ← fillList s.predicates (new.drop count)
  pure ⟨s.span, s.axis, test, predicates⟩

def fillSteps : List (Step α) → List β → Option (List (Step β))
  | [], [] => some []
  | [], _ :: _ => none
  | s :: rest, new => do
    let count := s.children.length
    let step ← s.fill (new.take count)
    let steps ← fillSteps rest (new.drop count)
    pure (step :: steps)

/-- The same shape over other children, if there are as many of them. -/
def Kind.fill : Kind α → List β → Option (Kind β)
  | .script items, new => (fillList items new).map .script
  | .sequence items, new => (fillList items new).map .sequence
  | .call n args, new => (fillList args new).map (.call n)
  | .stream steps, new => (fillSteps steps new).map .stream
  | .binary op _ _, [l, r] => some (.binary op l r)
  | .operatorCall owner method _ _, [l, r] => some (.operatorCall owner method l r)
  | .conditional _ _ _, [c, t, e] => some (.conditional c t e)
  | .methodDecl d, new =>
    (fillList d.body new).map fun body => .methodDecl ⟨d.name, d.params, d.returnTy, body⟩
  | .localDecl n declared _, [v] => some (.localDecl n declared v)
  | .propertyRead _ n, [t] => some (.propertyRead t n)
  | .methodCall _ owner n args, t :: new =>
    (fillList args new).map fun args => .methodCall t owner n args
  | .convert c _, [e] => some (.convert c e)
  | .toSequence _, [e] => some (.toSequence e)
  | .isNull _, [e] => some (.isNull e)
  | .pipe op _ p _, [s, b] => some (.pipe op s p b)
  | .collect _ r, [s] => some (.collect s r)
  | .letIn n _ _, [v, b] => some (.letIn n v b)
  | .literal l, [] => some (.literal l)
  | .name n, [] => some (.name n)
  | .this, [] => some .this
  | .stacked, [] => some .stacked
  | .localRef n, [] => some (.localRef n)
  | .typeRef t, [] => some (.typeRef t)
  | .stackOp i, [] => some (.stackOp i)
  | _, _ => none

namespace Node

def children (n : Node) : List Node := n.kind.children

/-- Replaces all children at once. -/
def withChildren (n : Node) (new : List Node) : Except Fault Node :=
  match n.kind.fill new with
  | some kind => .ok { n with kind }
  | none => .error (.childCount n.label n.children.length new.length)

/-- The labels of all nodes of a tree, a node before its children. -/
def walk (n : Node) : List String :=
  n.fold fun _ _ kind => kind.label :: kind.children.flatten

/-- Whether some node of a tree has the given label. -/
def hasLabel (label : String) (n : Node) : Bool :=
  n.fold fun _ _ kind => kind.label == label || kind.children.any id

end Node

end NavScript
