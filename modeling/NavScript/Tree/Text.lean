import NavScript.Tree.Fold
import NavScript.Ty.Text

/-!
# Trees as text

A tree is written on one line: leaves bare, everything else as a head and its parts in
parentheses. With types, each typed node carries its type after a colon; the steps of a stream are
always written without, and a conversion names its type in the head only.
-/

namespace NavScript

variable {α : Type}

/-- Each part behind a space. -/
def spaced (parts : List String) : String := String.join (parts.map (" " ++ ·))

def Test.render (child : α → String) : Test α → String
  | .name n => n
  | .wildcard => "*"
  | .self => "node()"
  | .call n args => n ++ "(" ++ " ".intercalate (args.map child) ++ ")"
  | .reduction r => r.symbol

def Step.render (child : α → String) (s : Step α) : String :=
  s.axis.name ++ "::" ++ s.test.render child ++
    String.join (s.predicates.map fun p => "[" ++ child p ++ "]")

def Param.render (p : Param) : String := p.name ++ ":" ++ p.ty.render

/-- The text of one node; `inStep` writes the children of a stream, `tyName` is the text of the
node's own type. -/
def Kind.render (child inStep : α → String) (tyName : String) : Kind α → String
  | .script items => "(script" ++ spaced (items.map child) ++ ")"
  | .literal l => l.render
  | .name n => "(name " ++ n ++ ")"
  | .call n args => "(call " ++ n ++ spaced (args.map child) ++ ")"
  | .stream steps => "(stream" ++ spaced (steps.map (·.render inStep)) ++ ")"
  | .binary op l r => "(" ++ op.symbol ++ " " ++ child l ++ " " ++ child r ++ ")"
  | .conditional c t e => "(if " ++ child c ++ " " ++ child t ++ " " ++ child e ++ ")"
  | .methodDecl d =>
    let returns := match d.returnTy with
      | some t => " -> " ++ t.render
      | none => ""
    "(method " ++ d.name ++ " (" ++ " ".intercalate (d.params.map (·.render)) ++ ")" ++ returns ++
      spaced (d.body.map child) ++ ")"
  | .localDecl n _ v => "(local " ++ n ++ " " ++ child v ++ ")"
  | .this => "this"
  | .stacked => "_"
  | .localRef n => n
  | .typeRef t => "(type " ++ t.render ++ ")"
  | .propertyRead t n => "(. " ++ child t ++ " " ++ n ++ ")"
  | .methodCall t owner n args =>
    "(invoke " ++ child t ++ " " ++ owner.render ++ "." ++ n ++ spaced (args.map child) ++ ")"
  | .operatorCall owner method l r =>
    "(op " ++ owner.render ++ "." ++ method ++ " " ++ child l ++ " " ++ child r ++ ")"
  | .convert c e => "(" ++ c.name ++ " " ++ tyName ++ " " ++ child e ++ ")"
  | .toSequence e => "(seq " ++ child e ++ ")"
  | .pipe op s p b => "(" ++ op.name ++ " " ++ child s ++ " |" ++ p ++ "| " ++ child b ++ ")"
  | .collect s r => "(collect " ++ r.symbol ++ " " ++ child s ++ ")"
  | .letIn n v b => "(let " ++ n ++ " " ++ child v ++ " " ++ child b ++ ")"
  | .isNull e => "(null? " ++ child e ++ ")"
  | .sequence items => "(do" ++ spaced (items.map child) ++ ")"
  | .stackOp i => i.name

/-- The two texts of a tree, without and with types. -/
structure Printed where
  plain : String
  typed : String

def Kind.isConversion : Kind α → Bool
  | .convert _ _ => true
  | _ => false

def Node.printed (n : Node) : Printed :=
  n.fold fun _ ty kind =>
    let name := match ty with
      | some t => t.render
      | none => "?"
    let typed := kind.render (·.typed) (·.plain) name
    { plain := kind.render (·.plain) (·.plain) name
      typed := if ty.isSome && !kind.isConversion then typed ++ ":" ++ name else typed }

def Node.render (n : Node) : String := n.printed.plain

def Node.renderTyped (n : Node) : String := n.printed.typed

/-- A step without the types of its children. -/
def Step.text (s : Step Node) : String := s.render (·.render)

end NavScript
