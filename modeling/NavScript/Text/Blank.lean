import NavScript.Text.Ranges

/-!
# Blanks and lines

The characters of the property White_Space, and the ends of lines among them. `lines_flatten` says
that cutting a text into lines loses nothing.
-/

namespace NavScript.Text

def blankRanges : Ranges where
  table :=
    [(0x09, 0x0D), (0x20, 0x20), (0x85, 0x85), (0xA0, 0xA0), (0x1680, 0x1680), (0x2000, 0x200A),
     (0x2028, 0x2029), (0x202F, 0x202F), (0x205F, 0x205F), (0x3000, 0x3000)]

def isBlank (c : Char) : Bool := blankRanges.contains c.toNat

def lineEndRanges : Ranges where
  table := [(0x0A, 0x0D), (0x85, 0x85), (0x2028, 0x2029)]

/-- Whether a line ends between two characters. A carriage return and the line feed behind it are
one end. -/
def isLineBreak (c next : Char) : Bool :=
  lineEndRanges.contains c.toNat && !(c == '\r' && next == '\n')

/-- The lines of a text, each with its end. -/
def lines : List Char → List (List Char)
  | [] => []
  | [c] => [[c]]
  | c :: next :: cs =>
    match lines (next :: cs) with
    | line :: rest =>
      if isLineBreak c next then [c] :: line :: rest else (c :: line) :: rest
    | [] => [[c]]

/-- The text without blanks at its end. -/
def trimEnd (cs : List Char) : List Char := (cs.reverse.dropWhile isBlank).reverse

theorem lines_ne_nil (c : Char) (cs : List Char) : lines (c :: cs) ≠ [] := by
  cases cs with
  | nil => simp [lines]
  | cons next cs =>
    unfold lines
    split
    · split <;> simp
    · simp

theorem lines_flatten (cs : List Char) : (lines cs).flatten = cs := by
  fun_induction lines cs with
  | case1 => rfl
  | case2 => rfl
  | case3 c next cs line rest h hb ih => simp_all
  | case4 c next cs line rest h hb ih => simp_all
  | case5 c next cs h => exact absurd h (lines_ne_nil next cs)

end NavScript.Text
