import NavScript.Proofs.Growth

/-!
# Resolutions with their events

A traced action is an action of the resolver together with what happens in each of its runs: which
nodes are resolved, between which scopes, and what the scopes are asked. Events of an action that
ends in a fault are kept, and so are those of all actions around it up to the fault.

`Traced.tree` is the resolution of a tree over traced actions. Its action is the resolution itself
(`tree_action`), so its events are those of the resolver.
-/

namespace NavScript

/-- What happens to the scopes in a run of the resolver. -/
inductive Event where
  /-- A node is resolved, to a tree or a fault, between scopes and scopes. -/
  | resolved (node : Node) (before after : Scopes)
  /-- The scopes are asked for a step, with a type in view or none. -/
  | asked (scopes : Scopes) (step : Step Node) (place : Place) (inView : Option Ty)

/-- An action with the events of its run from each state. -/
structure Traced (α : Type) where
  action : Resolve α
  events : ResolveState → List Event

namespace Traced

open Resolve (View)

variable {α β : Type}

/-- The events after an action that ends in a value; a fault has none. -/
def eventsAfter (f : α → Traced β) : Except Fault α × ResolveState → List Event
  | (.ok a, st) => (f a).events st
  | (.error _, _) => []

instance : Monad Traced where
  pure a := ⟨pure a, fun _ => []⟩
  bind x f := ⟨x.action >>= fun a => (f a).action,
    fun st => x.events st ++ eventsAfter f (x.action.run st)⟩

/-- An action in which nothing of note happens. -/
def silent (x : Resolve α) : Traced α := ⟨x, fun _ => []⟩

def inScope (scope : Scope) (x : Traced α) : Traced α :=
  ⟨Resolve.inScope scope x.action, fun st => x.events { st with scopes := st.scopes.push scope }⟩

/-- The resolution of a node. -/
def call (n : Node) (x : Traced Node) : Traced Node :=
  ⟨x.action, fun st => .resolved n st.scopes (x.action.run st).2.scopes :: x.events st⟩

def answer? (cx : Lookup) (inView : Option Ty) (step : Step Node) (place : Place) :
    Traced (Option (Node × Ty)) :=
  ⟨Resolve.answer? cx step place, fun st => [.asked st.scopes step place inView]⟩

def bare (cx : Lookup) (node : Node) (test : Test Node) : Traced Node := do
  match ← answer? cx none { span := node.span, axis := .child, test } .head with
  | some (found, _) => pure (found.withSpan node.span)
  | none => pure node

structure Pending where
  written : Node
  resolve : Traced Node

structure Hop where
  step : Step Node
  predicates : List Pending

def hop (s : Step Pending) : Traced Hop := do
  let test ← s.test.mapM (·.resolve)
  let step : Step Node := ⟨s.span, s.axis, test, s.predicates.map (·.written)⟩
  pure ⟨step, s.predicates⟩

def predicate (candidate : Ty) (p : Pending) : Traced Link := do
  let param ← silent (Resolve.ofLower (Lower.fresh "p"))
  let cond ← inScope (.bound candidate (.subject (.localOf param candidate))) p.resolve
  pure (.predicate param cond candidate)

def link? (cx : Lookup) (view : View) (step : Step Node) : Traced (Option Link) :=
  match step.test with
  | .reduction r => pure (Resolve.reductionLink? view r)
  | _ => do
    let found ← match view.ty with
      | none => answer? cx view.ty step .head
      | some ty => inScope (.bound ty .stacked) (answer? cx view.ty step .tail)
    pure (found.map fun (expr, ty) => .step expr ty)

def links (cx : Lookup) (view : View) : List Hop → Traced (Option (List Link))
  | [] => pure (some [])
  | h :: rest => do
    match ← link? cx view h.step with
    | none =>
      silent (Resolve.report (.unresolvedStep h.step.text view.ty h.step.span))
      pure none
    | some link =>
      let next := Resolve.viewAfter view link (!rest.isEmpty || !h.predicates.isEmpty)
      let conditions ← h.predicates.mapM (predicate (next.ty.getD link.ty))
      match ← links cx next rest with
      | none => pure none
      | some others => pure (some (link :: conditions ++ others))

def stream (cx : Context) (span : Span) (ty : Option Ty) (steps : List (Step Pending)) :
    Traced Node := do
  if steps.isEmpty then silent (throw (.emptyStream span.render))
  let hops ← steps.mapM hop
  match ← links cx.lookup {} hops with
  | some found =>
    return (← silent (Resolve.ofLower (Lower.scalar cx.config.boxPrimitiveGuards [] found))).withSpan
      span
  | none => return ⟨span, ty, .stream (steps.map (·.map (·.written)))⟩

def node (cx : Context) (span : Span) (ty : Option Ty) (kind : Kind Pending) : Traced Node :=
  match kind with
  | .stream steps => stream cx span ty steps
  | .name n => bare cx.lookup ⟨span, ty, .name n⟩ (.name n)
  | .call n args => do
    let args ← args.mapM (·.resolve)
    bare cx.lookup ⟨span, ty, .call n args⟩ (.call n args)
  | .methodDecl d => do
    let frame := Scope.method (d.params.map fun p => (p.name, p.ty)).reverse
    let body ← inScope frame (d.body.mapM (·.resolve))
    let d : Method Node := ⟨d.name, d.params, d.returnTy, body⟩
    return ⟨span, some (Resolve.methodTy d), .methodDecl d⟩
  | .localDecl n declared value => do
    let value ← value.resolve
    let ty := declared <|> value.ty
    if let some ty := ty then silent (Resolve.declare n ty)
    return ⟨span, ty, .localDecl n declared value⟩
  | .script items => do
    let items ← items.mapM (·.resolve)
    return ⟨span, items.getLast?.bind (·.ty), .script items⟩
  | kind => return ⟨span, ty, ← kind.mapM (·.resolve)⟩

def tree (cx : Context) (n : Node) : Traced Node :=
  n.para fun span ty kind =>
    call ⟨span, ty, kind.map (·.1)⟩
      (node cx span ty (kind.map fun (written, resolve) => ⟨written, resolve⟩))

def pending (cx : Context) (n : Node) : Pending := ⟨n, tree cx n⟩

/-- The resolution of a node is a call over those of its children. -/
theorem tree_mk (cx : Context) (span : Span) (ty : Option Ty) (kind : Kind Node) :
    tree cx ⟨span, ty, kind⟩ = call ⟨span, ty, kind⟩ (node cx span ty (kind.map (pending cx))) := by
  unfold tree
  rw [Node.para_mk]
  simp only [Kind.map_map, Kind.map_id]
  rfl

section Actions

@[simp] theorem pure_action (a : α) : (pure a : Traced α).action = pure a := rfl

@[simp] theorem bind_action (x : Traced α) (f : α → Traced β) :
    (x >>= f).action = x.action >>= fun a => (f a).action := rfl

@[simp] theorem inScope_action (scope : Scope) (x : Traced α) :
    (inScope scope x).action = Resolve.inScope scope x.action := rfl

@[simp] theorem silent_action (x : Resolve α) : (silent x).action = x := rfl

@[simp] theorem answer?_action (cx : Lookup) (inView : Option Ty) (step : Step Node) (place : Place) :
    (answer? cx inView step place).action = Resolve.answer? cx step place := rfl

theorem mapM_action (f : α → Traced β) (as : List α) :
    (as.mapM f).action = as.mapM fun a => (f a).action := by
  have loop (as : List α) (done : List β) : (List.mapM.loop f as done).action =
      List.mapM.loop (fun a => (f a).action) as done := by
    induction as generalizing done with
    | nil => rfl
    | cons a as ih =>
      simp only [List.mapM.loop, bind_action, ih]
  exact loop as []

theorem test_mapM_action (f : α → Traced β) (t : Test α) :
    (t.mapM f).action = t.mapM fun a => (f a).action := by
  cases t <;> simp [Test.mapM, mapM_action]

theorem step_mapM_action (f : α → Traced β) (s : Step α) :
    (s.mapM f).action = s.mapM fun a => (f a).action := by
  simp [Step.mapM, mapM_action, test_mapM_action]

theorem kind_mapM_action (f : α → Traced β) (k : Kind α) :
    (k.mapM f).action = k.mapM fun a => (f a).action := by
  cases k <;> simp [Kind.mapM, mapM_action, step_mapM_action]

theorem bare_action (cx : Lookup) (n : Node) (test : Test Node) :
    (bare cx n test).action = Resolve.bare cx n test := by
  unfold bare Resolve.bare
  rw [bind_action, answer?_action]
  congr
  funext found
  cases found <;> rfl

/-- The action of what is pending. -/
def Pending.action (p : Pending) : NavScript.Pending := ⟨p.written, p.resolve.action⟩

def Hop.action (h : Hop) : NavScript.Hop := ⟨h.step, h.predicates.map Pending.action⟩

theorem hop_action (s : Step Pending) :
    Hop.action <$> (hop s).action = Resolve.hop (s.map Pending.action) := by
  unfold hop Resolve.hop
  simp [Step.map, Test.mapM_map, test_mapM_action, Hop.action, Pending.action, Function.comp_def]

theorem hops_action (steps : List (Step Pending)) :
    List.map Hop.action <$> (steps.mapM hop).action =
      (steps.map (·.map Pending.action)).mapM Resolve.hop := by
  rw [mapM_action]
  induction steps with
  | nil => simp
  | cons s steps ih =>
    rw [List.map_cons, List.mapM_cons, List.mapM_cons, ← hop_action, ← ih]
    simp

theorem predicate_action (candidate : Ty) (p : Pending) :
    (predicate candidate p).action = Resolve.predicate candidate p.action := rfl

theorem link?_action (cx : Lookup) (view : View) (step : Step Node) :
    (link? cx view step).action = Resolve.link? cx view step := by
  unfold link? Resolve.link?
  cases step.test with
  | reduction r => rfl
  | name | wildcard | self | call =>
    cases view.ty <;> rfl

theorem links_action (cx : Lookup) (view : View) (hops : List Hop) :
    (links cx view hops).action = Resolve.links cx view (hops.map Hop.action) := by
  induction hops generalizing view with
  | nil => rfl
  | cons h hops ih =>
    rw [links, List.map_cons, Resolve.links, bind_action, link?_action]
    congr
    funext link
    cases link with
    | none => rfl
    | some link =>
      simp only [bind_action, mapM_action, ih, Hop.action, List.mapM_map, predicate_action,
        List.isEmpty_map]
      congr
      funext conditions
      congr
      funext others
      cases others <;> rfl

theorem stream_action (cx : Context) (span : Span) (ty : Option Ty) (steps : List (Step Pending)) :
    (stream cx span ty steps).action =
      Resolve.stream cx span ty (steps.map (·.map Pending.action)) := by
  have written : (steps.map (·.map Pending.action)).map (·.map (·.written)) =
      steps.map (·.map (·.written)) := by
    simp [Step.map_map, Pending.action]
  cases steps with
  | nil => rfl
  | cons s steps =>
    unfold stream Resolve.stream
    rw [written, ← hops_action]
    simp only [List.isEmpty_cons, List.map_cons, Bool.false_eq_true, if_false, bind_action,
      links_action, bind_map_left]
    congr
    funext hops
    congr
    funext found
    cases found <;> rfl

theorem node_action (cx : Context) (span : Span) (ty : Option Ty) (kind : Kind Pending) :
    (node cx span ty kind).action = Resolve.node cx span ty (kind.map Pending.action) := by
  have children (kind : Kind Pending) :
      (do return ⟨span, ty, ← kind.mapM (·.resolve)⟩ : Traced Node).action =
        (do return ⟨span, ty, ← (kind.map Pending.action).mapM (·.resolve)⟩ : Resolve Node) := by
    rw [bind_action, kind_mapM_action, Kind.mapM_map]
    rfl
  cases kind with
  | stream steps => exact stream_action cx span ty steps
  | name n => exact bare_action ..
  | call n args =>
    simp [node, Resolve.node, Kind.map, mapM_action, bare_action, Pending.action, Function.comp_def]
  | script items =>
    simp [node, Resolve.node, Kind.map, mapM_action, Pending.action, Function.comp_def]
  | methodDecl d =>
    simp [node, Resolve.node, Kind.map, mapM_action, Pending.action, Function.comp_def]
  | localDecl n declared value =>
    rw [node, Kind.map, Resolve.node, bind_action]
    congr
    funext value
    dsimp only
    cases declared <|> value.ty <;> rfl
  | _ => exact children _

/-- The events of a tree are those of its resolution: nothing else is run. -/
theorem tree_action (cx : Context) (n : Node) : (tree cx n).action = Resolve.tree cx n := by
  induction n using Node.induct with
  | h span ty kind ih =>
    have children : (kind.map (pending cx)).map Pending.action = kind.map (Resolve.pending cx) := by
      rw [Kind.map_map]
      refine Kind.map_congr fun c hc => ?_
      simp only [Pending.action, pending, ih c hc, Resolve.pending]
    rw [tree_mk, Resolve.tree_mk, ← children, ← node_action]
    rfl

end Actions

end Traced

end NavScript
