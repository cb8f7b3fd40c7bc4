import NavScript.Literal.Arithmetic
import NavScript.Proofs.Attempts
import NavScript.Proofs.Trees

/-!
# The stack machine

Executes a resolved tree against a world of objects (`exec`): nodes push values to an evaluation
stack and read what earlier nodes left there. Each access to a member is logged, with its receiver;
a null receiver is an error.
-/

namespace NavScript

inductive Value where
  | lit (l : Literal)
  | object (id : Nat)
  /-- An array, a list or a set. -/
  | list (items : List Value)
  /-- A lazy sequence. -/
  | seq (items : List Value)
  | type (name : String)

namespace Value

def null : Value := lit .null

def ofBool (b : Bool) : Value := lit (.bool b)

def isNull : Value → Bool
  | lit .null => true
  | _ => false

theorem eq_null {v : Value} (h : v.isNull = true) : v = null := by
  cases v with
  | lit l => cases l <;> first | rfl | cases h
  | object | list | seq | type => cases h

def bool? : Value → Option Bool
  | lit (.bool b) => some b
  | _ => none

/-- The values that a multi-valued value holds. -/
def items? : Value → Option (List Value)
  | list items | seq items => some items
  | _ => none

/-- The elements of a value; null has none. -/
def elements (v : Value) : List Value := v.items?.getD []

mutual

def same : Value → Value → Bool
  | lit a, lit b => a.same b
  | object a, object b => a == b
  | list as, list bs | seq as, seq bs => sameList as bs
  | type a, type b => a == b
  | _, _ => false

def sameList : List Value → List Value → Bool
  | [], [] => true
  | a :: as, b :: bs => same a b && sameList as bs
  | _, _ => false

end

/-- The values in order, of equal ones the first. -/
def distinct (items : List Value) : List Value :=
  items.foldl (fun unique v => if unique.any (·.same v) then unique else unique ++ [v]) []

/-- The collection that a reduction makes of values. -/
def collected (r : Reduction) (items : List Value) : Value :=
  match r with
  | .set => list (distinct items)
  | .array | .list => list items

end Value

structure Access where
  receiver : Value
  member : String

/-- What scripts run against. Members of null are never asked for. -/
structure World where
  this : Value
  read : Value → String → Option Value
  call : Value → String → List Value → Option Value
  /-- The methods that implement operators. -/
  operate : String → Value → Value → Option Value
  /-- The operators that need no method. -/
  compute : Operator → Value → Value → Option Value

inductive Crash where
  | emptyStack | unbalanced | unbound | nullReceiver | noMember | notBoolean | notMultiValued
  | notSequence | nullUnboxed | notNumeric | noResult | unresolved
deriving DecidableEq, Repr

structure Machine where
  stack : List Value := []
  /-- The locals in scope, the latest first. -/
  locals : List (String × Value) := []
  log : List Access := []

abbrev Action := Machine → Except Crash Machine

namespace Machine

def push (v : Value) (m : Machine) : Machine := { m with stack := v :: m.stack }

def pop (m : Machine) : Except Crash (Value × Machine) :=
  match m.stack with
  | [] => .error .emptyStack
  | v :: rest => .ok (v, { m with stack := rest })

def enter (x : String) (v : Value) (m : Machine) : Machine := { m with locals := (x, v) :: m.locals }

def leave (m : Machine) : Machine := { m with locals := m.locals.tail }

def accessed (receiver : Value) (member : String) (m : Machine) : Machine :=
  { m with log := m.log ++ [⟨receiver, member⟩] }

/-- The top of the stack changed by a function that can fail. -/
def onTop (f : Value → Except Crash Value) (m : Machine) : Except Crash Machine := do
  let (v, m) ← m.pop
  return m.push (← f v)

def popBool (m : Machine) : Except Crash (Bool × Machine) := do
  let (v, m) ← m.pop
  match v.bool? with
  | some b => return (b, m)
  | none => .error .notBoolean

def popSeq (m : Machine) : Except Crash (List Value × Machine) := do
  let (v, m) ← m.pop
  match v with
  | .seq items => return (items, m)
  | _ => .error .notSequence

def readTop (W : World) (name : String) (m : Machine) : Except Crash Machine := do
  let (receiver, m) ← m.pop
  if receiver.isNull then .error .nullReceiver
  else
    match W.read receiver name with
    | some v => return (m.accessed receiver name).push v
    | none => .error .noMember

/-- The arguments lie on the receiver, the last on top. -/
def callTop (W : World) (name : String) (arity : Nat) (m : Machine) : Except Crash Machine := do
  let args := (m.stack.take arity).reverse
  let (receiver, m) ← pop { m with stack := m.stack.drop arity }
  if receiver.isNull then .error .nullReceiver
  else
    match W.call receiver name args with
    | some v => return (m.accessed receiver (name ++ "()")).push v
    | none => .error .noMember

def operateTop (f : Value → Value → Option Value) (m : Machine) : Except Crash Machine := do
  let (r, m) ← m.pop
  let (l, m) ← m.pop
  match f l r with
  | some v => return m.push v
  | none => .error .noResult

def converted (conversion : Conversion) (ty : Option Ty) (v : Value) : Except Crash Value :=
  match conversion with
  | .box => .ok v
  | .unbox => if v.isNull then .error .nullUnboxed else .ok v
  | .widen =>
    match ty.bind NumericKind.ofTy?, v with
    | some kind, .lit l =>
      match l.widenTo? kind with
      | some wide => .ok (.lit wide)
      | none => .error .notNumeric
    | _, _ => .error .notNumeric

/-- The sequence of what a value holds; null holds nothing. -/
def sequenced (v : Value) : Except Crash Value :=
  if v.isNull then .ok (.seq [])
  else
    match v.items? with
    | some items => .ok (.seq items)
    | none => .error .notMultiValued

/-- The one value that an action pushes, taken off again. -/
def single (action : Action) (m : Machine) : Except Crash (Value × Machine) := do
  let (v, after) ← (← action m).pop
  if after.stack.length = m.stack.length then return (v, after) else .error .unbalanced

/-- What one element adds to the result of a stage. -/
def staged (op : StageKind) (item result : Value) : Except Crash (List Value) :=
  match op, result with
  | .map, _ => .ok [result]
  | .flatMap, .seq inner => .ok inner
  | .flatMap, _ => .error .notSequence
  | .filter, _ => .ok (if result.bool? = some true then [item] else [])

def stage (op : StageKind) (param : String) (body : Action) (out : List Value × Machine)
    (item : Value) : Except Crash (List Value × Machine) := do
  let (result, m) ← single body (out.2.enter param item)
  return (out.1 ++ (← staged op item result), m.leave)

def pipeTop (op : StageKind) (param : String) (body : Action) (m : Machine) :
    Except Crash Machine := do
  let (items, m) ← m.popSeq
  let (out, m) ← items.foldlM (stage op param body) ([], m)
  return m.push (.seq out)

def collectTop (r : Reduction) (m : Machine) : Except Crash Machine := do
  let (items, m) ← m.popSeq
  return m.push (.collected r items)

def stackOp (op : StackOp) (m : Machine) : Except Crash Machine := do
  let (v, rest) ← m.pop
  match op with
  | .dup => return m.push v
  | .pop => return rest

/-- Goes on with one of two actions, as the boolean on top says. -/
def branch (yes no : Action) (m : Machine) : Except Crash Machine := do
  let (b, m) ← m.popBool
  if b then yes m else no m

/-- Runs an action with the value on top taken off and bound to a local. -/
def bindTop (x : String) (body : Action) (m : Machine) : Except Crash Machine := do
  let (v, m) ← m.pop
  return (← body (m.enter x v)).leave

/-- Declares a local with the value on top, which stays. -/
def declareTop (x : String) (m : Machine) : Except Crash Machine := do
  let (v, _) ← m.pop
  return m.enter x v

def runAll (actions : List Action) (m : Machine) : Except Crash Machine :=
  actions.foldlM (fun m action => action m) m

/-- Runs the items of a script; the value of each one but the last is dropped. -/
def runScript : List Action → Action
  | [], m => .ok (m.push .null)
  | [last], m => last m
  | action :: rest, m => do
    let (_, m) ← (← action m).pop
    runScript rest m

section

variable {stack : List Value} {locals : List (String × Value)} {log : List Access}

theorem branch_none {yes no : Action} {v : Value} (h : v.bool? = none) :
    branch yes no ⟨v :: stack, locals, log⟩ = .error .notBoolean := by
  simp [branch, popBool, pop, h, bind, Except.bind]

theorem operateTop_some {f : Value → Value → Option Value} {l r v : Value} (h : f l r = some v) :
    operateTop f ⟨r :: l :: stack, locals, log⟩ = .ok ⟨v :: stack, locals, log⟩ := by
  simp [operateTop, pop, push, h, bind, Except.bind, pure, Except.pure]

theorem operateTop_none {f : Value → Value → Option Value} {l r : Value} (h : f l r = none) :
    operateTop f ⟨r :: l :: stack, locals, log⟩ = .error .noResult := by
  simp [operateTop, pop, h, bind, Except.bind]

end

end Machine

open Machine in
/-- The execution of a node, by the executions of its children. -/
def execKind (W : World) (ty : Option Ty) (kind : Kind (Node × Action)) (m : Machine) :
    Except Crash Machine :=
  match kind with
  | .literal l => .ok (m.push (.lit l))
  | .this => .ok (m.push W.this)
  | .stacked => if m.stack.isEmpty then .error .emptyStack else .ok m
  | .localRef x =>
    match m.locals.lookup x with
    | some v => .ok (m.push v)
    | none => .error .unbound
  | .typeRef t => .ok (m.push (.type t.render))
  | .propertyRead target name => target.2 m >>= readTop W name
  | .methodCall target _ name args =>
    target.2 m >>= runAll (args.map (·.2)) >>= callTop W name args.length
  | .operatorCall _ method l r => l.2 m >>= r.2 >>= operateTop (W.operate method)
  | .binary .and l r => l.2 m >>= branch r.2 fun m => .ok (m.push (.ofBool false))
  | .binary .or l r => l.2 m >>= branch (fun m => .ok (m.push (.ofBool true))) r.2
  | .binary op l r => l.2 m >>= r.2 >>= operateTop (W.compute op)
  | .conditional c t e => c.2 m >>= branch t.2 e.2
  | .convert c e => e.2 m >>= onTop (converted c ty)
  | .toSequence e => e.2 m >>= onTop sequenced
  | .pipe op source param body => source.2 m >>= pipeTop op param body.2
  | .collect source r => source.2 m >>= collectTop r
  | .letIn x value body => value.2 m >>= bindTop x body.2
  | .isNull e => e.2 m >>= onTop fun v => .ok (.ofBool v.isNull)
  | .sequence items => runAll (items.map (·.2)) m
  | .stackOp op => stackOp op m
  | .script items => runScript ((items.filter fun c => c.1.label != "MethodDecl").map (·.2)) m
  | .localDecl x _ value => value.2 m >>= declareTop x
  | .name _ | .call _ _ | .stream _ | .methodDecl _ => .error .unresolved

section

variable {W : World} {ty : Option Ty} {x : String} {m : Machine}

theorem execKind_localRef_some {v : Value} (h : m.locals.lookup x = some v) :
    execKind W ty (.localRef x) m = .ok (m.push v) := by
  simp [execKind, h]

theorem execKind_localRef_none (h : m.locals.lookup x = none) :
    execKind W ty (.localRef x) m = .error .unbound := by
  simp [execKind, h]

end

def exec (W : World) (n : Node) : Action :=
  n.para fun _ ty kind => execKind W ty kind

theorem exec_mk (W : World) (span : Span) (ty : Option Ty) (kind : Kind Node) :
    exec W ⟨span, ty, kind⟩ = execKind W ty (kind.map fun c => (c, exec W c)) := by
  unfold exec
  rw [Node.para_mk]

end NavScript
