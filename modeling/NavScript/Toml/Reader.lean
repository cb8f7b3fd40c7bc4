import NavScript.Json.Reader
import NavScript.Toml.Basic

/-!
# Reading tables of options

A document is a sequence of lines: entries, headers of tables `[a.b]`, headers of arrays of tables
`[[a.b]]`, comments and blank lines. Strings come in four forms, with or without escapes and on one
or on several lines.
-/

namespace NavScript.Toml

def skipBlank : List Char → List Char
  | ' ' :: cs | '\t' :: cs => skipBlank cs
  | cs => cs

/-- Controls other than the tab stand nowhere, not even in comments. -/
def isControl (c : Char) : Bool := (c.toNat < 0x20 && c != '\t') || c.toNat == 0x7F

/-- The end of a line. -/
def readNewline? : List Char → Option (List Char)
  | '\n' :: cs => some cs
  | '\r' :: '\n' :: cs => some cs
  | _ => none

/-- Skips a comment, if there is one, up to the end of its line. -/
def skipComment : List Char → List Char
  | '#' :: cs => cs.dropWhile (!isControl ·)
  | cs => cs

/-- Blanks and a comment, then the end of the line or of the text. -/
def readLineEnd? (cs : List Char) : Option (List Char) :=
  match skipComment (skipBlank cs) with
  | [] => some []
  | cs => readNewline? cs

/-- Blanks, comments and ends of lines, as between the items of an array. -/
def skipLines : Nat → List Char → List Char
  | 0, cs => cs
  | fuel + 1, cs =>
    match readNewline? (skipComment (skipBlank cs)) with
    | some rest => skipLines fuel rest
    | none => skipBlank cs

/-- The character with the number that some hexadecimal digits give. -/
def codeChar? (digits : List Char) : Option Char := do
  let ds ← digits.mapM Json.hexDigit?
  let n := ds.foldl (fun n d => n * 16 + d) 0
  if n < 0xD800 || (0xE000 ≤ n && n < 0x110000) then some (Char.ofNat n) else none

def escapes : List (Char × Char) :=
  [('b', '\x08'), ('t', '\t'), ('n', '\n'), ('f', '\x0c'), ('r', '\r'), ('"', '"'), ('\\', '\\')]

/-- What follows a backslash. -/
def readEscape? : List Char → Option (Char × List Char)
  | 'u' :: cs =>
    if cs.length < 4 then none else (codeChar? (cs.take 4)).map fun c => (c, cs.drop 4)
  | 'U' :: cs =>
    if cs.length < 8 then none else (codeChar? (cs.take 8)).map fun c => (c, cs.drop 8)
  | c :: cs => (escapes.lookup c).map fun c => (c, cs)
  | [] => none

/-- A string with escapes on one line, up to its closing quote. -/
def readBasic : Nat → List Char → List Char → Option (String × List Char)
  | 0, _, _ => none
  | fuel + 1, done, cs =>
    match cs with
    | [] => none
    | '"' :: cs => some (String.ofList done.reverse, cs)
    | '\\' :: cs => do
      let (c, cs) ← readEscape? cs
      readBasic fuel (c :: done) cs
    | c :: cs => if isControl c then none else readBasic fuel (c :: done) cs

/-- A string without escapes on one line. -/
def readVerbatim (done : List Char) : List Char → Option (String × List Char)
  | [] => none
  | '\'' :: cs => some (String.ofList done.reverse, cs)
  | c :: cs => if isControl c then none else readVerbatim (c :: done) cs

/-- A string on several lines, up to three closing quotes; one or two more quotes in front of them
belong to the string. With escapes, a backslash at the end of a line takes the line end and the
blanks after it away. -/
def readLong (quote : Char) (escaped : Bool) :
    Nat → List Char → List Char → Option (String × List Char)
  | 0, _, _ => none
  | fuel + 1, done, cs =>
    let quotes := (cs.takeWhile (· == quote)).length
    if 3 ≤ quotes then
      let kept := min (quotes - 3) 2
      some (String.ofList (List.replicate kept quote ++ done).reverse, cs.drop (kept + 3))
    else
      match cs with
      | [] => none
      | '\\' :: rest =>
        if !escaped then readLong quote escaped fuel ('\\' :: done) rest
        else
          match readNewline? (skipBlank rest) with
          | some rest => readLong quote escaped fuel done (skipBlankLines fuel rest)
          | none => do
            let (c, rest) ← readEscape? rest
            readLong quote escaped fuel (c :: done) rest
      | c :: rest =>
        match readNewline? cs with
        | some rest => readLong quote escaped fuel ('\n' :: done) rest
        | none => if isControl c then none else readLong quote escaped fuel (c :: done) rest
where
  /-- Blanks and ends of lines. -/
  skipBlankLines : Nat → List Char → List Char
    | 0, cs => cs
    | fuel + 1, cs =>
      let cs := skipBlank cs
      match readNewline? cs with
      | some rest => skipBlankLines fuel rest
      | none => cs

/-- The text after three opening quotes, without a line end right behind them. -/
def afterOpening (cs : List Char) : List Char := (readNewline? cs).getD cs

/-- A string in any of its forms. -/
def readString? (cs : List Char) : Option (String × List Char) :=
  let fuel := cs.length + 1
  match cs with
  | '"' :: '"' :: '"' :: cs => readLong '"' true fuel [] (afterOpening cs)
  | '\'' :: '\'' :: '\'' :: cs => readLong '\'' false fuel [] (afterOpening cs)
  | '"' :: cs => readBasic fuel [] cs
  | '\'' :: cs => readVerbatim [] cs
  | _ => none

def isBareKeyChar (c : Char) : Bool := c.isAlphanum || c == '_' || c == '-'

/-- One component of a key. -/
def readKeyPart? (cs : List Char) : Option (String × List Char) :=
  match cs with
  | '"' :: rest => readBasic (rest.length + 1) [] rest
  | '\'' :: rest => readVerbatim [] rest
  | cs =>
    let bare := cs.takeWhile isBareKeyChar
    if bare.isEmpty then none else some (String.ofList bare, cs.dropWhile isBareKeyChar)

/-- A dotted key: the path in front of its last component, and that component. -/
def readKey? : Nat → List Char → Option ((List String × String) × List Char)
  | 0, _ => none
  | fuel + 1, cs => do
    let (part, cs) ← readKeyPart? (skipBlank cs)
    match skipBlank cs with
    | '.' :: cs => do
      let ((path, last), cs) ← readKey? fuel cs
      pure ((part :: path, last), cs)
    | cs => pure (([], part), cs)

mutual

def readValue : Nat → List Char → Option (Value × List Char)
  | 0, _ => none
  | fuel + 1, cs =>
    match cs with
    | '[' :: cs => (readItems fuel cs).map fun (items, cs) => (.array items, cs)
    | '{' :: cs =>
      match skipBlank cs with
      | '}' :: cs => some (.table [], cs)
      | cs => (readPairs fuel .empty cs).map fun (t, cs) => (t.finish, cs)
    | 't' :: cs => (Json.expect? "rue" cs).map fun cs => (.bool true, cs)
    | 'f' :: cs => (Json.expect? "alse" cs).map fun cs => (.bool false, cs)
    | cs => (readString? cs).map fun (s, cs) => (.string s, cs)

/-- The items of an array up to the closing bracket; a comma may stand behind the last one. -/
def readItems : Nat → List Char → Option (List Value × List Char)
  | 0, _ => none
  | fuel + 1, cs =>
    match skipLines cs.length cs with
    | ']' :: cs => some ([], cs)
    | cs => do
      let (item, cs) ← readValue fuel cs
      match skipLines cs.length cs with
      | ',' :: cs => do
        let (items, cs) ← readItems fuel cs
        pure (item :: items, cs)
      | ']' :: cs => pure ([item], cs)
      | _ => none

/-- The entries of a table on one line, at least one, up to the closing brace. -/
def readPairs : Nat → Draft → List Char → Option (Draft × List Char)
  | 0, _, _ => none
  | fuel + 1, t, cs => do
    let ((path, key), cs) ← readKey? cs.length cs
    match cs with
    | '=' :: cs => do
      let (v, cs) ← readValue fuel (skipBlank cs)
      let t ← t.addEntry path key v
      match skipBlank cs with
      | ',' :: cs => readPairs fuel t cs
      | '}' :: cs => pure (t, cs)
      | _ => none
    | _ => none

end

/-- A document while it is read: all tables, and the path of the one that is open. -/
structure Document where
  root : Draft := .empty
  header : List String := []

/-- A header behind its opening brackets. -/
def readHeader? (d : Document) (array : Bool) (cs : List Char) : Option (Document × List Char) := do
  let ((path, key), cs) ← readKey? cs.length cs
  let cs ← Json.expect? (if array then "]]" else "]") cs
  let root ← if array then d.root.appendTable path key else d.root.openTable path key
  pure (⟨root, path ++ [key]⟩, cs)

/-- An entry of the open table. -/
def readEntry? (d : Document) (cs : List Char) : Option (Document × List Char) := do
  let ((path, key), cs) ← readKey? cs.length cs
  match cs with
  | '=' :: cs => do
    let (v, cs) ← readValue (cs.length + 1) (skipBlank cs)
    let root ← d.root.addUnder d.header path key v
    pure ({ d with root }, cs)
  | _ => none

def readLines : Nat → Document → List Char → Option Document
  | 0, _, _ => none
  | fuel + 1, d, cs =>
    match readLineEnd? cs with
    | some [] => some d
    | some rest => readLines fuel d rest
    | none => do
      let (d, cs) ← match skipBlank cs with
        | '[' :: '[' :: cs => readHeader? d true cs
        | '[' :: cs => readHeader? d false cs
        | cs => readEntry? d cs
      readLines fuel d (← readLineEnd? cs)

/-- The table that a whole text denotes. A byte order mark may stand in front. -/
def parse? (text : String) : Option Value :=
  let cs := match text.toList with
    | '\uFEFF' :: cs => cs
    | cs => cs
  (readLines (cs.length + 1) {} cs).map (·.root.finish)

end NavScript.Toml
