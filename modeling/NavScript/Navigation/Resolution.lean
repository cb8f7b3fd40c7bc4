import NavScript.Config
import NavScript.Navigation.Lowering
import NavScript.Operator.Table
import NavScript.Scope
import NavScript.Tree.Text

/-!
# Resolution of navigations

Every navigation stream becomes an expression, and so does every bare name and call that some scope
answers. The steps of a stream are resolved from the first to the last: the first at the head, each
other one against the type in view, which is the element type once a multi-valued result is
followed by more. A step that no scope answers is reported and leaves the stream as it was. The
links so found are lowered (`Lower.scalar`).
-/

namespace NavScript

/-- What a script is analysed against. -/
structure Environment where
  /-- The type of `this`. -/
  binding : Ty := .object
  /-- The type whose members need no qualification. -/
  enclosing : Option Ty := none
  imports : List ClassName := []

structure Context where
  classes : ClassTable
  navigators : Registry
  operators : OperatorTable
  config : Config
  env : Environment

def Context.lookup (cx : Context) : Lookup := ⟨cx.classes, cx.navigators⟩

structure ResolveState where
  scopes : Scopes := []
  nextFresh : Nat := 0
  diagnostics : List Diagnostic := []

/-- A fault stops the resolution and leaves the state as it is. -/
abbrev Resolve := ExceptT Fault (StateM ResolveState)

/-- A node that is not resolved yet, and its resolution. -/
structure Pending where
  written : Node
  resolve : Resolve Node

/-- A step whose arguments are resolved. Its predicates are not: each is resolved where its
candidate is known. -/
structure Hop where
  step : Step Node
  predicates : List Pending

namespace Resolve

def report (d : Diagnostic) : Resolve Unit :=
  modify fun st => { st with diagnostics := st.diagnostics ++ [d] }

def ofLower {α : Type} (x : Lower α) : Resolve α := do
  match x.run (← get).nextFresh with
  | .ok (a, next) =>
    modify fun st => { st with nextFresh := next }
    pure a
  | .error fault => throw fault

/-- Runs an action with one more scope open; the scope is closed before a fault goes on. -/
def inScope {α : Type} (scope : Scope) (action : Resolve α) : Resolve α := do
  modify fun st => { st with scopes := st.scopes.push scope }
  let result ← observing action
  let (_, rest) ← (← get).scopes.pop
  modify fun st => { st with scopes := rest }
  match result with
  | .ok a => pure a
  | .error fault => throw fault
where
  /-- The outcome of an action, fault or not. -/
  observing (action : Resolve α) : Resolve (Except Fault α) :=
    ExceptT.mk (do return .ok (← action.run))

/-- Declares a local in the innermost method, if one is open. -/
def declare (name : String) (ty : Ty) : Resolve Unit :=
  modify fun st => { st with scopes := (st.scopes.declare? name ty).getD st.scopes }

/-- What the open scopes answer to a step. An answer has to be typed. -/
def answer? (cx : Lookup) (step : Step Node) (place : Place) : Resolve (Option (Node × Ty)) := do
  match (← get).scopes.resolve cx step place with
  | none => pure none
  | some found =>
    match found.ty with
    | some ty => pure (some (found, ty))
    | none => throw (.untypedReplacement step.text)

/-- A bare name or call is a navigation of one step; what no scope answers stays. -/
def bare (cx : Lookup) (node : Node) (test : Test Node) : Resolve Node := do
  match ← answer? cx { span := node.span, axis := .child, test } .head with
  | some (found, _) => pure (found.withSpan node.span)
  | none => pure node

/-- Resolves the arguments of a step, which belong to what surrounds the navigation. -/
def hop (s : Step Pending) : Resolve Hop := do
  let test ← s.test.mapM (·.resolve)
  let step : Step Node := ⟨s.span, s.axis, test, s.predicates.map (·.written)⟩
  pure ⟨step, s.predicates⟩

/-- A condition over candidates of a type, the candidate bound to a fresh name. -/
def predicate (candidate : Ty) (p : Pending) : Resolve Link := do
  let param ← ofLower (Lower.fresh "p")
  let cond ← inScope (.bound candidate (.subject (.localOf param candidate))) p.resolve
  pure (.predicate param cond candidate)

/-- The type in view of a step, and whether it is that of an element. -/
structure View where
  ty : Option Ty := none
  streaming : Bool := false

/-- The link of a reduction: over the elements in view, or over a collected value again. -/
def reductionLink? (view : View) (r : Reduction) : Option Link :=
  match view.ty with
  | none => none
  | some ty =>
    if view.streaming then some (.reduce r (r.collectionTy ty))
    else ty.element?.map fun elem => .reduce r (r.collectionTy elem)

/-- The link of a step, if it can be resolved in the given view. -/
def link? (cx : Lookup) (view : View) (step : Step Node) : Resolve (Option Link) :=
  match step.test with
  | .reduction r => pure (reductionLink? view r)
  | _ => do
    let found ← match view.ty with
      | none => answer? cx step .head
      | some ty => inScope (.bound ty .stacked) (answer? cx step .tail)
    pure (found.map fun (expr, ty) => .step expr ty)

/-- What is in view behind a link. A multi-valued step followed by more is seen by element. -/
def viewAfter (view : View) (link : Link) (more : Bool) : View :=
  match link with
  | .reduce _ ty => ⟨some ty, false⟩
  | link =>
    match more, link.ty.element? with
    | true, some elem => ⟨some elem, true⟩
    | _, _ => ⟨some link.ty, view.streaming⟩

/-- The links of all steps, or `none` once a step is reported. -/
def links (cx : Lookup) (view : View) : List Hop → Resolve (Option (List Link))
  | [] => pure (some [])
  | h :: rest => do
    match ← link? cx view h.step with
    | none =>
      report (.unresolvedStep h.step.text view.ty h.step.span)
      pure none
    | some link =>
      let next := viewAfter view link (!rest.isEmpty || !h.predicates.isEmpty)
      let conditions ← h.predicates.mapM (predicate (next.ty.getD link.ty))
      match ← links cx next rest with
      | none => pure none
      | some others => pure (some (link :: conditions ++ others))

def stream (cx : Context) (span : Span) (ty : Option Ty) (steps : List (Step Pending)) :
    Resolve Node := do
  if steps.isEmpty then throw (.emptyStream span.render)
  let hops ← steps.mapM hop
  match ← links cx.lookup {} hops with
  | some found =>
    return (← ofLower (Lower.scalar cx.config.boxPrimitiveGuards [] found)).withSpan span
  | none => return ⟨span, ty, .stream (steps.map (·.map (·.written)))⟩

/-- The type of a declared method: the declared one, or that of the last expression. -/
def methodTy (d : Method Node) : Ty :=
  match d.returnTy with
  | some ty => ty
  | none => (d.body.getLast?.bind (·.ty)).getD .void

/-- The resolution of a node over pending children. -/
def node (cx : Context) (span : Span) (ty : Option Ty) (kind : Kind Pending) : Resolve Node :=
  match kind with
  | .stream steps => stream cx span ty steps
  | .name n => bare cx.lookup ⟨span, ty, .name n⟩ (.name n)
  | .call n args => do
    let args ← args.mapM (·.resolve)
    bare cx.lookup ⟨span, ty, .call n args⟩ (.call n args)
  | .methodDecl d => do
    let frame := Scope.method (d.params.map fun p => (p.name, p.ty)).reverse
    let body ← inScope frame (d.body.mapM (·.resolve))
    let d : Method Node := ⟨d.name, d.params, d.returnTy, body⟩
    return ⟨span, some (methodTy d), .methodDecl d⟩
  | .localDecl n declared value => do
    let value ← value.resolve
    let ty := declared <|> value.ty
    if let some ty := ty then declare n ty
    return ⟨span, ty, .localDecl n declared value⟩
  | .script items => do
    let items ← items.mapM (·.resolve)
    return ⟨span, items.getLast?.bind (·.ty), .script items⟩
  | kind => return ⟨span, ty, ← kind.mapM (·.resolve)⟩

/-- The resolution of a whole tree. -/
def tree (cx : Context) (n : Node) : Resolve Node :=
  n.para fun span ty kind => node cx span ty (kind.map fun (written, resolve) => ⟨written, resolve⟩)

/-- Signatures of the methods declared at the top of a script. An inferred result counts as
`Object`. -/
def ownMethods (root : Node) : List Signature :=
  let items := match root.kind with
    | .script items => items
    | _ => [root]
  items.filterMap fun item =>
    match item.kind with
    | .methodDecl d => some ⟨d.name, d.params.map (·.ty), d.returnTy.getD .object⟩
    | _ => none

/-- The scopes a script starts in: imports, the enclosing type, the binding, its own locals. -/
def initialScopes (env : Environment) (root : Node) : Scopes :=
  let imports := Scope.imports (env.imports.map fun c => (c.name, c)).reverse
  let enclosing := env.enclosing.map fun ty => Scope.typeDecl ty (ownMethods root)
  let binding := Scope.bound env.binding (.subject (.thisOf env.binding))
  .method [] :: binding :: enclosing.toList ++ [imports]

end Resolve

/-- Resolves all navigations of a script. -/
def resolveNavigation (cx : Context) (root : Node) : Except Fault Node × List Diagnostic :=
  let (result, st) :=
    (Resolve.tree cx root).run { scopes := Resolve.initialScopes cx.env root }
  (result, st.diagnostics)

end NavScript
