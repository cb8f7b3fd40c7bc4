import NavScript.Text.Extending
import NavScript.Text.Unprintable

/-!
# Quoted characters and strings

A character or string between quotes on one line. The quote itself and the backslash are escaped
by a backslash, four controls have letters of their own, and a character that would not show
(`isPrintable`) or would lean on its neighbour (`isExtending`) is written by its number.
-/

namespace NavScript.Text

/-- The number of a character, in lower-case hexadecimal. -/
def hexNumber (n : Nat) : String := String.ofList (Nat.toDigits 16 n)

/-- One character as it stands between quotes of the given kind. -/
def escape (quote c : Char) : String :=
  if c == quote || c == '\\' then String.ofList ['\\', c]
  else if c == '\n' then "\\n"
  else if c == '\r' then "\\r"
  else if c == '\t' then "\\t"
  else if c == '\x00' then "\\0"
  else if isExtending c || !isPrintable c then "\\u\x7b" ++ hexNumber c.toNat ++ "\x7d"
  else c.toString

def quoteChar (c : Char) : String := "'" ++ escape '\'' c ++ "'"

def quoteString (s : String) : String :=
  "\"" ++ String.join (s.toList.map (escape '"')) ++ "\""

end NavScript.Text
