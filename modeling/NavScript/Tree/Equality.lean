import NavScript.Tree.Fold

/-!
# Equality of trees

Two trees are the same if they agree in shape, names, regions and types, where packages do not
count and constants are compared by value.
-/

namespace NavScript

variable {α β : Type}

def listSame (r : α → β → Bool) : List α → List β → Bool
  | [], [] => true
  | x :: xs, y :: ys => r x y && listSame r xs ys
  | _, _ => false

def Test.same (r : α → β → Bool) : Test α → Test β → Bool
  | .name m, .name n => m == n
  | .wildcard, .wildcard => true
  | .self, .self => true
  | .call m xs, .call n ys => m == n && listSame r xs ys
  | .reduction a, .reduction b => a == b
  | _, _ => false

def Step.same (r : α → β → Bool) (s : Step α) (t : Step β) : Bool :=
  s.span == t.span && s.axis == t.axis && s.test.same r t.test &&
    listSame r s.predicates t.predicates

def Param.same (p q : Param) : Bool := p.name == q.name && p.ty.same q.ty

def Method.same (r : α → β → Bool) (d : Method α) (e : Method β) : Bool :=
  d.name == e.name && listSame Param.same d.params e.params &&
    Ty.sameOption d.returnTy e.returnTy && listSame r d.body e.body

def Kind.same (r : α → β → Bool) : Kind α → Kind β → Bool
  | .script xs, .script ys => listSame r xs ys
  | .literal a, .literal b => a.same b
  | .name m, .name n => m == n
  | .call m xs, .call n ys => m == n && listSame r xs ys
  | .stream ss, .stream ts => listSame (Step.same r) ss ts
  | .binary op l r', .binary op' l' r'' => op == op' && r l l' && r r' r''
  | .conditional c t e, .conditional c' t' e' => r c c' && r t t' && r e e'
  | .methodDecl d, .methodDecl e => d.same r e
  | .localDecl m d v, .localDecl n e w => m == n && Ty.sameOption d e && r v w
  | .this, .this => true
  | .stacked, .stacked => true
  | .localRef m, .localRef n => m == n
  | .typeRef t, .typeRef u => t.same u
  | .propertyRead t m, .propertyRead u n => r t u && m == n
  | .methodCall t o m xs, .methodCall u p n ys => r t u && o.same p && m == n && listSame r xs ys
  | .operatorCall o m l r', .operatorCall p n l' r'' =>
    o.same p && m == n && r l l' && r r' r''
  | .convert c e, .convert d f => c == d && r e f
  | .toSequence e, .toSequence f => r e f
  | .pipe op s p b, .pipe op' s' p' b' => op == op' && r s s' && p == p' && r b b'
  | .collect s a, .collect t b => r s t && a == b
  | .letIn m v b, .letIn n w c => m == n && r v w && r b c
  | .isNull e, .isNull f => r e f
  | .sequence xs, .sequence ys => listSame r xs ys
  | .stackOp i, .stackOp j => i == j
  | _, _ => false

/-- Equality of trees up to packages. -/
def Node.same (a : Node) : Node → Bool :=
  a.fold fun span ty kind b =>
    span == b.span && Ty.sameOption ty b.ty && kind.same (fun eq n => eq n) b.kind

end NavScript
