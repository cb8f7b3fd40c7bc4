import NavScript.Literal.Json
import NavScript.Tree.Fold
import NavScript.Ty.Json

/-!
# Trees in JSON

`Node.toJson` writes every field of every node; `Node.ofJson?` reads it back and takes the
defaults for regions, types, parameters, bodies and predicates that are missing.
-/

namespace NavScript

open Json (required? defaulted? optional? list? unit? tagged)

/-- A number of 32 bits. -/
def Json.word32? (j : Json) : Option UInt32 := do
  let n ← j.nat?
  if n < UInt32.size then some n.toUInt32 else none

namespace Position

def toJson (p : Position) : Json :=
  .object [("line", .ofNat p.line.toNat), ("column", .ofNat p.column.toNat)]

def ofJson? (j : Json) : Option Position := do
  let r ← j.record? ["line", "column"]
  return ⟨← required? r "line" Json.word32?, ← required? r "column" Json.word32?⟩

end Position

namespace Span

def toJson (s : Span) : Json :=
  .object [("start", s.start.toJson), ("end", s.stop.toJson), ("offset", .ofNat s.offset.toNat),
    ("len", .ofNat s.len.toNat), ("lexeme", .string s.lexeme)]

def ofJson? (j : Json) : Option Span := do
  let r ← j.record? ["start", "end", "offset", "len", "lexeme"]
  return {
    start := ← required? r "start" Position.ofJson?
    stop := ← required? r "end" Position.ofJson?
    offset := ← defaulted? r "offset" 0 Json.word32?
    len := ← defaulted? r "len" 0 Json.word32?
    lexeme := ← defaulted? r "lexeme" "" Json.string? }

end Span

namespace Axis

def toJson : Axis → Json
  | custom n => tagged "custom" (.string n)
  | axis => .string axis.name

def ofJson? (j : Json) : Option Axis :=
  match j.variant? with
  | some ("custom", .string n) => some (custom n)
  | some (name, .null) => standard.find? (·.name == name)
  | _ => none

end Axis

namespace Param

def toJson (p : Param) : Json := .object [("name", .string p.name), ("ty", p.ty.toJson)]

def ofJson? (j : Json) : Option Param := do
  let r ← j.record? ["name", "ty"]
  return ⟨← required? r "name" Json.string?, ← required? r "ty" Ty.ofJson?⟩

end Param

namespace Test

def toJson : Test Json → Json
  | name n => tagged "Name" (.string n)
  | wildcard => .string "Wildcard"
  | self => .string "SelfTest"
  | call n args => tagged "Call" (.object [("name", .string n), ("args", .array args)])
  | reduction r => tagged "Reduction" (.string r.name)

def ofJson? {α : Type} (child : Json → Option α) (j : Json) : Option (Test α) :=
  match j.variant? with
  | some ("Name", v) => v.string?.map name
  | some ("Wildcard", .null) => some wildcard
  | some ("SelfTest", .null) => some self
  | some ("Call", v) => do
    let r ← v.record? ["name", "args"]
    return call (← required? r "name" Json.string?) (← required? r "args" (list? child))
  | some ("Reduction", v) => (unit? Reduction.ofName? v).map reduction
  | _ => none

end Test

namespace Step

def toJson (s : Step Json) : Json :=
  .object [("span", s.span.toJson), ("axis", s.axis.toJson), ("test", s.test.toJson),
    ("predicates", .array s.predicates)]

def ofJson? {α : Type} (child : Json → Option α) (j : Json) : Option (Step α) := do
  let r ← j.record? ["span", "axis", "test", "predicates"]
  return {
    span := ← defaulted? r "span" .synthetic Span.ofJson?
    axis := ← required? r "axis" Axis.ofJson?
    test := ← required? r "test" (Test.ofJson? child)
    predicates := ← defaulted? r "predicates" [] (list? child) }

end Step

namespace Method

def toJson (d : Method Json) : Json :=
  .object [("name", .string d.name), ("params", .array (d.params.map Param.toJson)),
    ("return_ty", .ofOption Ty.toJson d.returnTy), ("body", .array d.body)]

def ofJson? {α : Type} (child : Json → Option α) (j : Json) : Option (Method α) := do
  let r ← j.record? ["name", "params", "return_ty", "body"]
  return {
    name := ← required? r "name" Json.string?
    params := ← defaulted? r "params" [] (list? Param.ofJson?)
    returnTy := ← optional? r "return_ty" Ty.ofJson?
    body := ← defaulted? r "body" [] (list? child) }

end Method

namespace Kind

def toJson (k : Kind Json) : Json :=
  match k with
  | this | stacked => .string k.label
  | script items | sequence items => tagged k.label (.array items)
  | literal l => tagged k.label l.toJson
  | name n | localRef n => tagged k.label (.string n)
  | call n args => tagged k.label (.object [("name", .string n), ("args", .array args)])
  | stream steps => tagged k.label (.array (steps.map Step.toJson))
  | binary op l r =>
    tagged k.label (.object [("op", .string op.label), ("lhs", l), ("rhs", r)])
  | conditional c t e =>
    tagged k.label (.object [("cond", c), ("then_branch", t), ("else_branch", e)])
  | methodDecl d => tagged k.label d.toJson
  | localDecl n declared v =>
    tagged k.label
      (.object [("name", .string n), ("declared", .ofOption Ty.toJson declared), ("value", v)])
  | typeRef t => tagged k.label t.toJson
  | propertyRead t n => tagged k.label (.object [("target", t), ("name", .string n)])
  | methodCall t owner n args =>
    tagged k.label
      (.object [("target", t), ("owner", owner.toJson), ("name", .string n), ("args", .array args)])
  | operatorCall owner method l r =>
    tagged k.label
      (.object [("owner", owner.toJson), ("method", .string method), ("lhs", l), ("rhs", r)])
  | convert c e => tagged k.label (.object [("conversion", .string c.name), ("expr", e)])
  | toSequence e | isNull e => tagged k.label e
  | pipe op s p b =>
    tagged k.label
      (.object [("op", .string op.name), ("source", s), ("param", .string p), ("body", b)])
  | collect s r => tagged k.label (.object [("source", s), ("into", .string r.name)])
  | letIn n v b => tagged k.label (.object [("name", .string n), ("value", v), ("body", b)])
  | stackOp i => tagged k.label (.string i.name)

def ofJson? {α : Type} (child : Json → Option α) (j : Json) : Option (Kind α) := do
  let (label, payload) ← j.variant?
  match label with
  | "This" => if let .null := payload then some this else none
  | "Stacked" => if let .null := payload then some stacked else none
  | "Script" => return script (← list? child payload)
  | "Sequence" => return sequence (← list? child payload)
  | "Literal" => return literal (← Literal.ofJson? payload)
  | "Name" => return name (← payload.string?)
  | "LocalRef" => return localRef (← payload.string?)
  | "TypeRef" => return typeRef (← Ty.ofJson? payload)
  | "Stream" => return stream (← list? (Step.ofJson? child) payload)
  | "MethodDecl" => return methodDecl (← Method.ofJson? child payload)
  | "ToSequence" => return toSequence (← child payload)
  | "IsNull" => return isNull (← child payload)
  | "Instr" => return stackOp (← unit? StackOp.ofName? payload)
  | "Call" =>
    let r ← payload.record? ["name", "args"]
    return call (← required? r "name" Json.string?) (← required? r "args" (list? child))
  | "Binary" =>
    let r ← payload.record? ["op", "lhs", "rhs"]
    return binary (← required? r "op" (unit? Operator.ofLabel?)) (← required? r "lhs" child)
      (← required? r "rhs" child)
  | "Conditional" =>
    let r ← payload.record? ["cond", "then_branch", "else_branch"]
    return conditional (← required? r "cond" child) (← required? r "then_branch" child)
      (← required? r "else_branch" child)
  | "LocalDecl" =>
    let r ← payload.record? ["name", "declared", "value"]
    return localDecl (← required? r "name" Json.string?) (← optional? r "declared" Ty.ofJson?)
      (← required? r "value" child)
  | "PropertyRead" =>
    let r ← payload.record? ["target", "name"]
    return propertyRead (← required? r "target" child) (← required? r "name" Json.string?)
  | "MethodCall" =>
    let r ← payload.record? ["target", "owner", "name", "args"]
    return methodCall (← required? r "target" child) (← required? r "owner" Ty.ofJson?)
      (← required? r "name" Json.string?) (← required? r "args" (list? child))
  | "OperatorCall" =>
    let r ← payload.record? ["owner", "method", "lhs", "rhs"]
    return operatorCall (← required? r "owner" Ty.ofJson?) (← required? r "method" Json.string?)
      (← required? r "lhs" child) (← required? r "rhs" child)
  | "Convert" =>
    let r ← payload.record? ["conversion", "expr"]
    return convert (← required? r "conversion" (unit? Conversion.ofName?))
      (← required? r "expr" child)
  | "Pipe" =>
    let r ← payload.record? ["op", "source", "param", "body"]
    return pipe (← required? r "op" (unit? StageKind.ofName?)) (← required? r "source" child)
      (← required? r "param" Json.string?) (← required? r "body" child)
  | "Collect" =>
    let r ← payload.record? ["source", "into"]
    return collect (← required? r "source" child) (← required? r "into" (unit? Reduction.ofName?))
  | "Let" =>
    let r ← payload.record? ["name", "value", "body"]
    return letIn (← required? r "name" Json.string?) (← required? r "value" child)
      (← required? r "body" child)
  | _ => none

end Kind

namespace Node

def toJson (n : Node) : Json :=
  n.fold fun span ty kind =>
    .object [("span", span.toJson), ("ty", .ofOption Ty.toJson ty), ("kind", kind.toJson)]

/-- Reads a tree whose JSON form is nested no deeper than the first argument. -/
def ofJsonWithin? : Nat → Json → Option Node
  | 0, _ => none
  | fuel + 1, j => do
    let r ← j.record? ["span", "ty", "kind"]
    return {
      span := ← defaulted? r "span" .synthetic Span.ofJson?
      ty := ← optional? r "ty" Ty.ofJson?
      kind := ← required? r "kind" (Kind.ofJson? (ofJsonWithin? fuel)) }

def ofJson? (j : Json) : Option Node := ofJsonWithin? (j.depth + 1) j

end Node

end NavScript
