import NavScript.Navigator.Registry

/-!
# Scopes

A step is looked up in a chain of scopes, the innermost first. At the head of a navigation nothing
is on the evaluation stack, so imports, locals and members of the enclosing type can answer; in the
tail only the scope that stands for the stacked value does.
-/

namespace NavScript

/-- Where in a navigation a step stands. -/
inductive Place where
  | head | tail
deriving DecidableEq, Inhabited, Repr

/-- What a bound scope navigates from. -/
inductive Origin where
  /-- The value that the link before left on the stack. -/
  | stacked
  /-- An expression, evaluated at each use. -/
  | subject (n : Node)

inductive Scope where
  /-- Imported classes by simple name. -/
  | imports (names : List (String × ClassName))
  /-- Parameters and locals of a method or script, the latest first. -/
  | method (locals : List (String × Ty))
  /-- The enclosing type and the methods the script declares in it. -/
  | typeDecl (ty : Ty) (methods : List Signature)
  /-- Navigation from a value of known type. -/
  | bound (ty : Ty) (origin : Origin)

/-- What scopes look things up in. -/
structure Lookup where
  classes : ClassTable
  navigators : Registry

/-- The name of a plain step on the child axis. -/
def Step.childName? (s : Step Node) : Option String :=
  match s.axis, s.test with
  | .child, .name n => some n
  | _, _ => none

namespace Scope

/-- A scope over a subject, which has to be typed. -/
def ofSubject? (subject : Node) : Option Scope :=
  subject.ty.map fun ty => bound ty (.subject subject)

def label : Scope → String
  | imports _ => "import"
  | method _ => "method"
  | typeDecl _ _ => "type_decl"
  | bound _ .stacked => "bound_stacked"
  | bound _ (.subject _) => "bound_subject"

/-- The answer of an imported class: a reference to it. -/
def resolveImport (names : List (String × ClassName)) (step : Step Node) : Option Node := do
  let c ← names.lookup (← step.childName?)
  pure { span := step.span, ty := some (.classOf (.named c)), kind := .typeRef (.named c) }

def resolveLocal (locals : List (String × Ty)) (step : Step Node) : Option Node := do
  let name ← step.childName?
  let ty ← locals.lookup name
  pure ((Node.localOf name ty).withSpan step.span)

/-- The answer of the enclosing type, through `this`. Methods of the script come before those of
the class. -/
def resolveMember (classes : ClassTable) (ty : Ty) (methods : List Signature) (step : Step Node) :
    Option Node :=
  let r : Request := ⟨step, (Node.thisOf ty).withSpan step.span, ty, classes⟩
  match step.axis, step.test with
  | .child, .name name => r.readProperty? name
  | .child, .call name args =>
    match methods.find? fun m => m.name == name && m.params.length == args.length with
    | some sig => some (r.methodCall ty name sig.result)
    | none => r.callMethod? name
  | _, _ => none

/-- The answer of the first candidate that does not decline. -/
def resolveFrom (cx : Lookup) (ty : Ty) (receiver : Node) (step : Step Node) : Option Node :=
  (cx.navigators.lookup cx.classes ty step).findSome? fun nav =>
    nav.apply ⟨step, receiver, ty, cx.classes⟩

def resolve (cx : Lookup) (scope : Scope) (step : Step Node) (place : Place) : Option Node :=
  match scope, place with
  | imports names, .head => resolveImport names step
  | method locals, .head => resolveLocal locals step
  | typeDecl ty methods, .head => resolveMember cx.classes ty methods step
  | bound ty .stacked, .tail => resolveFrom cx ty (.stackedOf ty) step
  | bound ty (.subject n), .head => resolveFrom cx ty n step
  | _, _ => none

end Scope

/-- The open scopes, the innermost first. -/
abbrev Scopes := List Scope

namespace Scopes

def push (chain : Scopes) (scope : Scope) : Scopes := scope :: chain

def pop (chain : Scopes) : Except Fault (Scope × Scopes) :=
  match chain with
  | [] => .error .scopeUnderflow
  | scope :: rest => .ok (scope, rest)

/-- Declares a local in the innermost method scope; `none` if no method is open. -/
def declare? (name : String) (ty : Ty) : Scopes → Option Scopes
  | [] => none
  | .method locals :: rest => some (.method ((name, ty) :: locals) :: rest)
  | scope :: rest => (declare? name ty rest).map (scope :: ·)

/-- The answer of the innermost scope that has one. -/
def resolve (cx : Lookup) (chain : Scopes) (step : Step Node) (place : Place) : Option Node :=
  chain.findSome? fun scope => scope.resolve cx step place

end Scopes

end NavScript
