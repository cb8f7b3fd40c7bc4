import NavScript.Json.Basic

/-!
# Reading JSON

The strict grammar: no trailing commas, no control characters in strings, no leading zeros. A
surrogate escape without its partner and containers nested deeper than `nestingLimit` keep to the
grammar but denote nothing.

A decimal is kept with as many leading digits as 64 bits hold. Further ones in front of the point
count as zeros, further ones behind it are dropped.
-/

namespace NavScript.Json

def nestingLimit : Nat := 127

def isBlank (c : Char) : Bool := c == ' ' || c == '\n' || c == '\t' || c == '\r'

def skipBlanks : List Char → List Char
  | c :: cs => if isBlank c then skipBlanks cs else c :: cs
  | [] => []

def hexDigit? (c : Char) : Option Nat :=
  if '0' ≤ c && c ≤ '9' then some (c.toNat - '0'.toNat)
  else if 'a' ≤ c && c ≤ 'f' then some (c.toNat - 'a'.toNat + 10)
  else if 'A' ≤ c && c ≤ 'F' then some (c.toNat - 'A'.toNat + 10)
  else none

/-- The number of four hexadecimal digits. -/
def hexUnit? (a b c d : Char) : Option Nat := do
  return (((← hexDigit? a) * 16 + (← hexDigit? b)) * 16 + (← hexDigit? c)) * 16 + (← hexDigit? d)

def escapes : List (Char × Char) :=
  [('"', '"'), ('\\', '\\'), ('/', '/'), ('b', '\x08'), ('f', '\x0c'), ('n', '\n'), ('r', '\r'),
    ('t', '\t')]

/-- The character of two surrogates. -/
def pairChar? (high low : Nat) : Option Char :=
  if 0xD800 ≤ high && high < 0xDC00 && 0xDC00 ≤ low && low < 0xE000 then
    some (Char.ofNat (0x10000 + (high - 0xD800) * 0x400 + (low - 0xDC00)))
  else none

def isSurrogate (unit : Nat) : Bool := 0xD800 ≤ unit && unit < 0xE000

/-- The characters up to the closing quote, in reverse before `done`, and what follows it. The text
is `none` if `sound` is false or a surrogate has no partner. -/
def readString (sound : Bool) (done : List Char) : List Char → Option (Option String × List Char)
  | [] => none
  | '"' :: cs => some (if sound then some (String.ofList done.reverse) else none, cs)
  | '\\' :: 'u' :: a :: b :: c :: d :: '\\' :: 'u' :: e :: f :: g :: h :: cs =>
    match hexUnit? a b c d with
    | none => none
    | some unit =>
      match (hexUnit? e f g h).bind (pairChar? unit) with
      | some ch => readString sound (ch :: done) cs
      | none =>
        readString (sound && !isSurrogate unit) (Char.ofNat unit :: done)
          ('\\' :: 'u' :: e :: f :: g :: h :: cs)
  | '\\' :: 'u' :: a :: b :: c :: d :: cs =>
    match hexUnit? a b c d with
    | none => none
    | some unit => readString (sound && !isSurrogate unit) (Char.ofNat unit :: done) cs
  | '\\' :: c :: cs =>
    match escapes.lookup c with
    | some ch => readString sound (ch :: done) cs
    | none => none
  | c :: cs => if c.toNat < 0x20 || c == '\\' then none else readString sound (c :: done) cs

def isDigit (c : Char) : Bool := '0' ≤ c && c ≤ '9'

def digitValue (c : Char) : Nat := c.toNat - '0'.toNat

/-- The value of a run of decimal digits. -/
def digitsValue (cs : List Char) : Nat := cs.foldl (fun n c => n * 10 + digitValue c) 0

/-- Appends decimal digits to a number as long as it stays below `2 ^ 64`, and counts the others. -/
def gather (n : Nat) : List Char → Nat × Nat
  | [] => (n, 0)
  | c :: cs =>
    let next := n * 10 + digitValue c
    if next < UInt64.size then gather next cs else (n, cs.length + 1)

/-- The decimal that digits before and behind the point and an exponent give. -/
def decimalOf (negative : Bool) (whole fraction : List Char) (exponent : Int) : Number :=
  let (n, zeros) := gather 0 whole
  let (digits, dropped) := gather n fraction
  .decimal negative digits (exponent + zeros - (fraction.length - dropped : Nat))

/-- The exponent part, if there is one: its value and what follows. -/
def readExponent? : List Char → Option (Option Int × List Char)
  | c :: cs =>
    if c == 'e' || c == 'E' then
      let (negative, cs) := match cs with
        | '+' :: cs => (false, cs)
        | '-' :: cs => (true, cs)
        | cs => (false, cs)
      let digits := cs.takeWhile isDigit
      if digits.isEmpty then none
      else
        let n : Int := digitsValue digits
        some (some (if negative then -n else n), cs.dropWhile isDigit)
    else some (none, c :: cs)
  | [] => some (none, [])

/-- The digits behind a point, if there is one, and what follows. -/
def readFraction? : List Char → Option (List Char × List Char)
  | '.' :: cs =>
    let digits := cs.takeWhile isDigit
    if digits.isEmpty then none else some (digits, cs.dropWhile isDigit)
  | cs => some ([], cs)

/-- A number without its sign. -/
def readNumber? (negative : Bool) (cs : List Char) : Option (Number × List Char) := do
  let whole := cs.takeWhile isDigit
  if whole.isEmpty || (whole.length > 1 && whole.head? == some '0') then none
  else
    let (fraction, rest) ← readFraction? (cs.dropWhile isDigit)
    let (exponent, rest) ← readExponent? rest
    match fraction, exponent with
    | [], none => pure (.integer negative (digitsValue whole), rest)
    | _, _ => pure (decimalOf negative whole fraction (exponent.getD 0), rest)

/-- Takes a fixed word from the front of a text. -/
def expect? (word : String) (cs : List Char) : Option (List Char) :=
  let word := word.toList
  if cs.take word.length = word then some (cs.drop word.length) else none

/-- A container, where so many more may be nested. -/
def within (depth : Nat) (j : Json) : Json := if depth = 0 then illFormed else j

/-- An object, unless one of its names denotes nothing. -/
def objectOf (members : List (Option String × Json)) : Json :=
  let named (m : Option String × Json) : Option (String × Json) := m.1.map fun key => (key, m.2)
  ((members.mapM named).map object).getD illFormed

mutual

/-- Reads one value from the front of a text. The first argument bounds the steps, the second is
how deep the text may still be nested. -/
def readValue : Nat → Nat → List Char → Option (Json × List Char)
  | 0, _, _ => none
  | fuel + 1, depth, cs =>
    match skipBlanks cs with
    | [] => none
    | '"' :: cs => (readString true [] cs).map fun (s, cs) => ((s.map string).getD illFormed, cs)
    | '[' :: cs =>
      match skipBlanks cs with
      | ']' :: cs => some (within depth (array []), cs)
      | cs => do
        let (first, cs) ← readValue fuel (depth - 1) cs
        let (others, cs) ← readItems fuel (depth - 1) cs
        pure (within depth (array (first :: others)), cs)
    | '{' :: cs =>
      match skipBlanks cs with
      | '}' :: cs => some (within depth (object []), cs)
      | cs => do
        let (first, cs) ← readMember fuel (depth - 1) cs
        let (others, cs) ← readMembers fuel (depth - 1) cs
        pure (within depth (objectOf (first :: others)), cs)
    | 't' :: cs => (expect? "rue" cs).map fun cs => (bool true, cs)
    | 'f' :: cs => (expect? "alse" cs).map fun cs => (bool false, cs)
    | 'n' :: cs => (expect? "ull" cs).map fun cs => (null, cs)
    | '-' :: cs => (readNumber? true cs).map fun (n, cs) => (number n, cs)
    | cs => (readNumber? false cs).map fun (n, cs) => (number n, cs)

/-- The items after the first one, each behind a comma, and the closing bracket. -/
def readItems : Nat → Nat → List Char → Option (List Json × List Char)
  | 0, _, _ => none
  | fuel + 1, depth, cs =>
    match skipBlanks cs with
    | ',' :: cs => do
      let (item, cs) ← readValue fuel depth cs
      let (items, cs) ← readItems fuel depth cs
      pure (item :: items, cs)
    | ']' :: cs => some ([], cs)
    | _ => none

def readMember : Nat → Nat → List Char → Option ((Option String × Json) × List Char)
  | 0, _, _ => none
  | fuel + 1, depth, cs =>
    match skipBlanks cs with
    | '"' :: cs => do
      let (key, cs) ← readString true [] cs
      match skipBlanks cs with
      | ':' :: cs => do
        let (value, cs) ← readValue fuel depth cs
        pure ((key, value), cs)
      | _ => none
    | _ => none

/-- The members after the first one, each behind a comma, and the closing brace. -/
def readMembers : Nat → Nat → List Char → Option (List (Option String × Json) × List Char)
  | 0, _, _ => none
  | fuel + 1, depth, cs =>
    match skipBlanks cs with
    | ',' :: cs => do
      let (member, cs) ← readMember fuel depth cs
      let (members, cs) ← readMembers fuel depth cs
      pure (member :: members, cs)
    | '}' :: cs => some ([], cs)
    | _ => none

end

/-- The value a whole text denotes. -/
def parse? (text : String) : Option Json :=
  let cs := text.toList
  match readValue (cs.length + 1) nestingLimit cs with
  | some (j, rest) => if (skipBlanks rest).isEmpty then some j else none
  | none => none

end NavScript.Json
