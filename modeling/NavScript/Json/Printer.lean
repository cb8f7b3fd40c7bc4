import NavScript.Decimal.Layout
import NavScript.Json.Basic

/-!
# Writing JSON

Compact text. Only quotes, backslashes and controls are escaped in strings; `sorted` orders the
members of every object by name.
-/

namespace NavScript.Json

def hexPadded (n : Nat) : String :=
  let ds := Nat.toDigits 16 n
  String.ofList (List.replicate (4 - ds.length) '0' ++ ds)

def escapeChar (c : Char) : String :=
  if c == '"' then "\\\""
  else if c == '\\' then "\\\\"
  else if c == '\n' then "\\n"
  else if c == '\r' then "\\r"
  else if c == '\t' then "\\t"
  else if c == '\x08' then "\\b"
  else if c == '\x0c' then "\\f"
  else if c.toNat < 0x20 then "\\u" ++ hexPadded c.toNat
  else c.toString

def quote (s : String) : String :=
  s.foldl (fun text c => text ++ escapeChar c) "\"" ++ "\""

def Number.render : Number → String
  | .integer negative n => (if negative then "-" else "") ++ toString n
  | .decimal negative digits exponent =>
    let text := if digits = 0 then "0.0" else Decimal.Layout.marked.digitsText ⟨digits, exponent⟩
    (if negative then "-" else "") ++ text

mutual

def render : Json → String
  | null | illFormed => "null"
  | bool true => "true"
  | bool false => "false"
  | number n => n.render
  | string s => quote s
  | array items => "[" ++ renderItems items ++ "]"
  | object members => "\x7b" ++ renderMembers members ++ "\x7d"

def renderItems : List Json → String
  | [] => ""
  | [j] => render j
  | j :: k :: rest => render j ++ "," ++ renderItems (k :: rest)

def renderMembers : List (String × Json) → String
  | [] => ""
  | [(key, j)] => quote key ++ ":" ++ render j
  | (key, j) :: m :: rest => quote key ++ ":" ++ render j ++ "," ++ renderMembers (m :: rest)

end

/-- Puts a member into a list ordered by name. -/
def insertMember (member : String × Json) : List (String × Json) → List (String × Json)
  | [] => [member]
  | m :: rest => if member.1 < m.1 then member :: m :: rest else m :: insertMember member rest

mutual

/-- The same value with the members of every object in order of their names. -/
def sorted : Json → Json
  | array items => array (sortedItems items)
  | object members => object (sortedMembers members)
  | j => j

def sortedItems : List Json → List Json
  | [] => []
  | j :: rest => sorted j :: sortedItems rest

def sortedMembers : List (String × Json) → List (String × Json)
  | [] => []
  | (key, j) :: rest => insertMember (key, sorted j) (sortedMembers rest)

end

end NavScript.Json
