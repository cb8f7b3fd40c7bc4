import NavScript.Literal.Basic
import NavScript.Operator.Basic
import NavScript.Span
import NavScript.Ty.Text

/-!
# Syntax trees

One tree serves the whole analysis: scripts, names, calls and navigation streams come from the
front end, and the passes turn them into property reads, method calls, sequence pipelines and
requests to the evaluation stack. The shape of a node, `Kind`, is a functor in what stands for the
children, so that children, printing and recursion are each said once.
-/

namespace NavScript

/-- The direction of a navigation step. -/
inductive Axis where
  | child | self | parent | attr | ancestor | ancestorOrSelf | descendant | descendantOrSelf
  | following | followingSibling | preceding | precedingSibling
  | custom (name : String)
deriving DecidableEq, Inhabited, Repr

namespace Axis

def standard : List Axis :=
  [child, self, parent, attr, ancestor, ancestorOrSelf, descendant, descendantOrSelf,
    following, followingSibling, preceding, precedingSibling]

def name : Axis → String
  | child => "child"
  | self => "self"
  | parent => "parent"
  | attr => "attribute"
  | ancestor => "ancestor"
  | ancestorOrSelf => "ancestor-or-self"
  | descendant => "descendant"
  | descendantOrSelf => "descendant-or-self"
  | following => "following"
  | followingSibling => "following-sibling"
  | preceding => "preceding"
  | precedingSibling => "preceding-sibling"
  | custom n => n

/-- A name that is not standard denotes a custom axis. -/
def ofName (s : String) : Axis := (standard.find? (·.name == s)).getD (custom s)

def isCustom : Axis → Bool
  | custom _ => true
  | _ => false

end Axis

/-- The concrete sequence into which a stream of values is collected. -/
inductive Reduction where
  | array | list | set
deriving DecidableEq, Inhabited, Repr

namespace Reduction

def symbol : Reduction → String
  | array => "[[]]"
  | list => "[]"
  | set => "\x7b\x7d"

def name : Reduction → String
  | array => "array"
  | list => "list"
  | set => "set"

def ofName? (s : String) : Option Reduction := [array, list, set].find? (·.name == s)

/-- The type of the collection of values of type `elem`. Lists and sets hold references only. -/
def collectionTy (r : Reduction) (elem : Ty) : Ty :=
  match r with
  | array => .array elem
  | list => .generic "List" elem.boxed
  | set => .generic "Set" elem.boxed

end Reduction

inductive Conversion where
  /-- A number to a wider kind. -/
  | widen
  /-- A primitive to its class. -/
  | box
  /-- A boxed value to its primitive. -/
  | unbox
deriving DecidableEq, Inhabited, Repr

def Conversion.name : Conversion → String
  | .widen => "widen"
  | .box => "box"
  | .unbox => "unbox"

def Conversion.ofName? (s : String) : Option Conversion :=
  [.widen, .box, .unbox].find? (·.name == s)

/-- What a pipeline stage does with each value. -/
inductive StageKind where
  | map | flatMap | filter
deriving DecidableEq, Inhabited, Repr

def StageKind.name : StageKind → String
  | .map => "map"
  | .flatMap => "flat-map"
  | .filter => "filter"

def StageKind.ofName? (s : String) : Option StageKind :=
  [.map, .flatMap, .filter].find? (·.name == s)

/-- A request to the evaluation stack: copy its top, or drop it. -/
inductive StackOp where
  | dup | pop
deriving DecidableEq, Inhabited, Repr

def StackOp.name : StackOp → String
  | .dup => "dup"
  | .pop => "pop"

def StackOp.ofName? (s : String) : Option StackOp := [.dup, .pop].find? (·.name == s)

structure Param where
  name : String
  ty : Ty
deriving DecidableEq

/-- What a step navigates to along its axis. -/
inductive Test (α : Type) where
  | name (name : String)
  | wildcard
  /-- The value in view, as it is. -/
  | self
  | call (name : String) (args : List α)
  | reduction (into : Reduction)

/-- One hop of a navigation stream; the predicates filter its candidates from left to right. -/
structure Step (α : Type) where
  span : Span := .synthetic
  axis : Axis
  test : Test α
  predicates : List α := []

/-- A method of the script. Without a return type, the type of the body is taken. -/
structure Method (α : Type) where
  name : String
  params : List Param
  returnTy : Option Ty
  body : List α

/-- The shape of a node whose children are of type `α`. -/
inductive Kind (α : Type) where
  | script (items : List α)
  | literal (lit : Literal)
  /-- A bare identifier. -/
  | name (name : String)
  /-- A bare call. -/
  | call (name : String) (args : List α)
  | stream (steps : List (Step α))
  | binary (op : Operator) (lhs rhs : α)
  | conditional (cond thenBranch elseBranch : α)
  | methodDecl (decl : Method α)
  | localDecl (name : String) (declared : Option Ty) (value : α)
  /-- The value the script is bound to. -/
  | this
  /-- The value the chain before left on the evaluation stack. -/
  | stacked
  | localRef (name : String)
  /-- A type used as a value. -/
  | typeRef (ty : Ty)
  | propertyRead (target : α) (name : String)
  | methodCall (target : α) (owner : Ty) (name : String) (args : List α)
  | operatorCall (owner : Ty) (method : String) (lhs rhs : α)
  /-- A conversion to the type of the node. -/
  | convert (conversion : Conversion) (expr : α)
  /-- The values of a multi-valued value; none of a null value. -/
  | toSequence (expr : α)
  | pipe (op : StageKind) (source : α) (param : String) (body : α)
  | collect (source : α) (into : Reduction)
  | letIn (name : String) (value body : α)
  | isNull (expr : α)
  /-- Children run in order; their effects on the stack add up. -/
  | sequence (items : List α)
  | stackOp (stackOp : StackOp)

structure Node where
  span : Span := .synthetic
  ty : Option Ty := none
  kind : Kind Node

instance : Inhabited Node := ⟨⟨.synthetic, none, .literal .null⟩⟩

/-- The name of a shape. -/
def Kind.label {α : Type} : Kind α → String
  | script _ => "Script"
  | literal _ => "Literal"
  | name _ => "Name"
  | call _ _ => "Call"
  | stream _ => "Stream"
  | binary _ _ _ => "Binary"
  | conditional _ _ _ => "Conditional"
  | methodDecl _ => "MethodDecl"
  | localDecl _ _ _ => "LocalDecl"
  | this => "This"
  | stacked => "Stacked"
  | localRef _ => "LocalRef"
  | typeRef _ => "TypeRef"
  | propertyRead _ _ => "PropertyRead"
  | methodCall _ _ _ _ => "MethodCall"
  | operatorCall _ _ _ _ => "OperatorCall"
  | convert _ _ => "Convert"
  | toSequence _ => "ToSequence"
  | pipe _ _ _ _ => "Pipe"
  | collect _ _ => "Collect"
  | letIn _ _ _ => "Let"
  | isNull _ => "IsNull"
  | sequence _ => "Sequence"
  | stackOp _ => "Instr"

namespace Node

/-- A node without type and region. -/
def ofKind (kind : Kind Node) : Node := { kind }

def withSpan (n : Node) (span : Span) : Node := { n with span }

def withTy (n : Node) (ty : Ty) : Node := { n with ty := some ty }

/-- A constant with its own type. -/
def ofLiteral (lit : Literal) : Node := { ty := some lit.ty, kind := .literal lit }

/-- A null that stands in for a value of the given type. -/
def nullOf (ty : Ty) : Node := { ty := some ty, kind := .literal .null }

def thisOf (ty : Ty) : Node := { ty := some ty, kind := .this }

def stackedOf (ty : Ty) : Node := { ty := some ty, kind := .stacked }

def localOf (name : String) (ty : Ty) : Node := { ty := some ty, kind := .localRef name }

/-- A conversion stands where its operand stood. -/
def convertTo (conversion : Conversion) (expr : Node) (ty : Ty) : Node :=
  { span := expr.span, ty := some ty, kind := .convert conversion expr }

def ofStackOp (i : StackOp) : Node := { kind := .stackOp i }

def isLiteral (n : Node) : Bool :=
  match n.kind with
  | .literal _ => true
  | _ => false

def isThis (n : Node) : Bool :=
  match n.kind with
  | .this => true
  | _ => false

def isStacked (n : Node) : Bool :=
  match n.kind with
  | .stacked => true
  | _ => false

def label (n : Node) : String := n.kind.label

/-- The text of the type, a question mark while there is none. -/
def tyName (n : Node) : String :=
  match n.ty with
  | some t => t.render
  | none => "?"

end Node

end NavScript
