import NavScript.Text.Alphanumeric
import NavScript.Ty.Basic

/-!
# Types as text

A type is written as a primitive, as `null`, or as a dotted path with type arguments in angle
brackets, followed by any number of `[]`. Spaces may stand in front of every token and at the end;
the last component of a path is the name of the class, what is in front of it the package.
-/

namespace NavScript.Ty

mutual

def render : Ty → String
  | prim k => k.name
  | named c => c.render
  | app c args => c.render ++ "<" ++ renderList args ++ ">"
  | array t => render t ++ "[]"
  | null => "null"

def renderList : List Ty → String
  | [] => ""
  | [t] => render t
  | t :: u :: rest => render t ++ ", " ++ renderList (u :: rest)

end

def isPathChar (c : Char) : Bool := Text.isAlphanumeric c || c == '_' || c == '.' || c == '$'

def skipSpaces : List Char → List Char
  | ' ' :: cs => skipSpaces cs
  | cs => cs

/-- Package and name, parted at the last dot. -/
def classNameOfPath (path : List Char) : ClassName :=
  let name := path.reverse.takeWhile (· ≠ '.')
  match path.reverse.dropWhile (· ≠ '.') with
  | [] => ⟨String.ofList path, none⟩
  | _ :: package => ⟨String.ofList name.reverse, some (String.ofList package.reverse)⟩

/-- Wraps a type in an array for every `[]` that follows. -/
def arraySuffixes (t : Ty) : List Char → Ty × List Char
  | ' ' :: cs => arraySuffixes t cs
  | '[' :: ']' :: cs => arraySuffixes (array t) cs
  | cs => (t, cs)

mutual

/-- Reads one type from the front of a text and gives back the rest. The first argument bounds
the nesting; a type is never nested deeper than its text is long. -/
def readType : Nat → List Char → Option (Ty × List Char)
  | 0, _ => none
  | fuel + 1, cs =>
    let cs := skipSpaces cs
    let path := cs.takeWhile isPathChar
    let rest := cs.dropWhile isPathChar
    if path.isEmpty then none
    else
      match Prim.ofName? (String.ofList path) with
      | some k => some (arraySuffixes (prim k) rest)
      | none =>
        if path = "null".toList then some (arraySuffixes null rest)
        else
          let c := classNameOfPath path
          match skipSpaces rest with
          | '<' :: rest => do
            let (first, rest) ← readType fuel rest
            let (others, rest) ← readArguments fuel rest
            pure (arraySuffixes (app c (first :: others)) rest)
          | rest => some (arraySuffixes (named c) rest)

/-- Reads the arguments after the first one, each behind a comma, and the closing bracket. -/
def readArguments : Nat → List Char → Option (List Ty × List Char)
  | 0, _ => none
  | fuel + 1, cs =>
    match skipSpaces cs with
    | ',' :: cs => do
      let (t, cs) ← readType fuel cs
      let (ts, cs) ← readArguments fuel cs
      pure (t :: ts, cs)
    | '>' :: cs => some ([], cs)
    | _ => none

end

/-- The type a whole text denotes. -/
def parse? (text : String) : Option Ty :=
  match readType (text.length + 1) text.toList with
  | some (t, rest) => if (skipSpaces rest).isEmpty then some t else none
  | none => none

/-- What is reported about a text that is no type. -/
def malformed (text : String) : String := s!"malformed type name `{text}`"

end NavScript.Ty
