import NavScript.Tree.Children

/-!
# Lowering of resolved navigations

The links of a resolved navigation become one expression for the evaluation stack. In scalar
context each link reads its receiver from the stack and is guarded: a null receiver makes the rest
of the chain null. A multi-valued link followed by more starts a lazy sequence, whose links become
`map`, `flat-map` and `filter` stages, until a reduction collects it and the context is scalar
again. Where the chain starts at `this`, which is never null, it is read in place.
-/

namespace NavScript

/-- One resolved element of a navigation, with the type it results in. -/
inductive Link where
  /-- An expression; every one but the first reads its receiver from the stack. -/
  | step (expr : Node) (ty : Ty)
  /-- A condition on the candidate that `param` stands for; the candidate's type. -/
  | predicate (param : String) (cond : Node) (ty : Ty)
  | reduce (into : Reduction) (ty : Ty)

def Link.ty : Link → Ty
  | step _ ty | predicate _ _ ty | reduce _ ty => ty

/-- Lowering draws fresh names from a counter. -/
abbrev Lower := StateT Nat (Except Fault)

namespace Lower

def typeOf (n : Node) : Except Fault Ty :=
  match n.ty with
  | some ty => .ok ty
  | none => .error (.untyped n.label)

def elementTy (ty : Ty) : Except Fault Ty :=
  match ty.element? with
  | some elem => .ok elem
  | none => .error (.notMultiValued ty.render)

/-- A name that no other part of the script has: a dollar sign, a letter and the counter. -/
def freshName (letter : String) (counter : Nat) : String := s!"${letter}{counter}"

def fresh (letter : String) : Lower String := do
  let n ← get
  set (n + 1)
  pure (freshName letter n)

def streamOf (elem : Ty) : Ty := .generic "Stream" elem

/-- The values of the value on the stack, which has a multi-valued type. -/
def stackedSequence (multi elem : Ty) : Node :=
  { ty := some (streamOf elem), kind := .toSequence (.stackedOf multi) }

def pipeOf (op : StageKind) (source : Node) (param : String) (body : Node) (elem : Ty) : Node :=
  { ty := some (streamOf elem), kind := .pipe op source param body }

/-- Puts a node in the place of the first stacked value in order of evaluation. The state is the
node while it is not placed. -/
def placeStacked (n : Node) : StateM (Option Node) Node :=
  n.fold fun span ty kind => do
    match kind, ← get with
    | .stacked, some value =>
      set (none : Option Node)
      pure value
    | _, _ => return ⟨span, ty, ← kind.mapM id⟩

/-- A chain that starts at `this` reads it in place. -/
def readThis : List Node → List Node
  | head :: next :: rest =>
    if head.isThis then ((placeStacked next).run (some head)).1 :: rest else head :: next :: rest
  | chain => chain

/-- Evaluates `subject` and hands it to `body` on the stack, or short-circuits to a null of the
body's type. A primitive is never null: it is handed on as it is, or boxed first so that all links
look alike. -/
def guardLink (boxPrimitives : Bool) (subject body : Node) : Except Fault Node := do
  let subjectTy ← typeOf subject
  let bodyTy ← typeOf body
  let span := body.span
  if subjectTy.isPrimitive && !boxPrimitives then
    return { span, ty := some bodyTy, kind := .sequence [subject, body] }
  let resultTy := bodyTy.boxed
  let body := if bodyTy.isPrimitive then Node.convertTo .box body resultTy else body
  let guarded (subject : Node) (stackedTy : Ty) (body : Node) : Node :=
    let test : Node := { ty := some .boolean, kind := .isNull (.stackedOf stackedTy) }
    let stop : Node :=
      { ty := some resultTy, kind := .sequence [.ofStackOp .pop, .nullOf resultTy] }
    let branch : Node := { ty := some resultTy, kind := .conditional test stop body }
    { span, ty := some resultTy, kind := .sequence [subject, .ofStackOp .dup, branch] }
  if subjectTy.isPrimitive then
    let boxed := subjectTy.boxed
    let unbox := Node.convertTo .unbox (.stackedOf boxed) subjectTy
    let body : Node := { ty := some resultTy, kind := .sequence [unbox, body] }
    return guarded (.convertTo .box subject boxed) boxed body
  else
    return guarded subject subjectTy body

/-- Chains links from the last to the first, each guarding the one after it. -/
def guardLinks (boxPrimitives : Bool) : List Node → Except Fault Node
  | [] => .error (.untyped "chain")
  | [n] => .ok n
  | subject :: rest => do guardLink boxPrimitives subject (← guardLinks boxPrimitives rest)

/-- A predicate in scalar context: the candidate if the condition holds, else null. -/
def keepIf (param : String) (cond : Node) (ty : Ty) : Node :=
  let resultTy := ty.boxed
  let candidate := Node.localOf param ty
  let candidate := if ty.isPrimitive then Node.convertTo .box candidate resultTy else candidate
  let branch : Node :=
    { ty := some resultTy, kind := .conditional cond candidate (.nullOf resultTy) }
  { span := cond.span, ty := some resultTy, kind := .letIn param (.stackedOf ty) branch }

/-- The condition of a filter stage, false for a null element. -/
def nullSafe (param : String) (cond : Node) (elem : Ty) : Node :=
  if elem.isPrimitive then cond
  else
    let test : Node := { ty := some .boolean, kind := .isNull (.localOf param elem) }
    { span := cond.span, ty := some .boolean
      kind := .conditional test (.ofLiteral (.bool false)) cond }

/-- A lazy sequence under construction: what makes it so far, and the type of its elements. -/
structure Source where
  node : Node
  elem : Ty

/-- Adds a stage that runs a chain of links on every element. A run that ends multi-valued is
flattened. -/
def stage (boxPrimitives : Bool) (source : Source) (run : List Node) (flatten : Bool) :
    Lower Source := do
  let param ← fresh "e"
  let body ← guardLinks boxPrimitives (.localOf param source.elem :: run)
  let bodyTy ← typeOf body
  if flatten then
    let inner ← elementTy bodyTy
    let body : Node := { ty := some (streamOf inner), kind := .toSequence body }
    return ⟨pipeOf .flatMap source.node param body inner, inner⟩
  else
    return ⟨pipeOf .map source.node param body bodyTy, bodyTy⟩

/-- Adds a stage for a run, unless the run is empty. -/
def flush (boxPrimitives : Bool) (source : Source) (run : List Node) : Lower Source :=
  if run.isEmpty then pure source else stage boxPrimitives source run false

def collectInto (source : Source) (r : Reduction) : Node :=
  { ty := some (r.collectionTy source.elem), kind := .collect source.node r }

/-- The sequence of the value on the stack. -/
def sourceOf (multi : Ty) : Except Fault Source := do
  let elem ← elementTy multi
  pure ⟨stackedSequence multi elem, elem⟩

/-- The type of the last link of a chain, which a reduction collects again. -/
def multiValuedEnd (chain : List Node) : Except Fault Ty :=
  match chain.getLast?.bind (·.ty) with
  | some ty => if ty.isMultiValued then .ok ty else .error .reductionOutsideStream
  | none => .error .reductionOutsideStream

/-- The finished chain of scalar links. -/
def close (boxPrimitives : Bool) (chain : List Node) : Except Fault Node :=
  guardLinks boxPrimitives (readThis chain)

mutual

/-- Lowers links in scalar context behind the links lowered before. -/
def scalar (boxPrimitives : Bool) (chain : List Node) : List Link → Lower Node
  | [] => liftM (close boxPrimitives chain)
  | .step expr ty :: rest => do
    if ty.isMultiValued && !rest.isEmpty then
      let tail ← stream boxPrimitives (← sourceOf ty) [] rest
      close boxPrimitives (chain ++ [expr, tail])
    else scalar boxPrimitives (chain ++ [expr]) rest
  | .predicate param cond ty :: rest =>
    scalar boxPrimitives (chain ++ [keepIf param cond ty]) rest
  | .reduce r _ :: rest => do
    let source ← sourceOf (← multiValuedEnd chain)
    let tail ← scalar boxPrimitives [collectInto source r] rest
    close boxPrimitives (chain ++ [tail])

/-- Lowers links over a lazy sequence; `run` holds the links that the next stage will have. -/
def stream (boxPrimitives : Bool) (source : Source) (run : List Node) : List Link → Lower Node
  | [] => do return (← flush boxPrimitives source run).node
  | .step expr ty :: rest => do
    if ty.isMultiValued then
      stream boxPrimitives (← stage boxPrimitives source (run ++ [expr]) true) [] rest
    else stream boxPrimitives source (run ++ [expr]) rest
  | .predicate param cond _ :: rest => do
    let source ← flush boxPrimitives source run
    let filtered := pipeOf .filter source.node param (nullSafe param cond source.elem) source.elem
    stream boxPrimitives ⟨filtered, source.elem⟩ [] rest
  | .reduce r _ :: rest => do
    let source ← flush boxPrimitives source run
    scalar boxPrimitives [collectInto source r] rest

end

end Lower

end NavScript
