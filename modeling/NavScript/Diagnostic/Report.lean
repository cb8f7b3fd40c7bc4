import NavScript.Diagnostic.Json
import NavScript.Json.Printer
import NavScript.Text.Blank
import NavScript.Text.Width

/-!
# Reports

A diagnostic is written for people or, as JSON, for tools. With the source at hand, a report shows
the line in question with the marked part underlined. It is made as lines of inked pieces first, so
that a coloured report is the plain one with escapes around some pieces (`Piece.render`).
-/

namespace NavScript

inductive ReportMode where
  | plain | color | json
deriving DecidableEq, Inhabited, Repr

inductive Ink where
  | severity (s : Severity)
  /-- The frame and the number of a line. -/
  | frame
  /-- The frame beside lines without a number. -/
  | margin
  /-- Source text outside the marked part. -/
  | faint
  /-- The marked part and what points at it. -/
  | mark
  | help
deriving DecidableEq

/-- Parameters of the escape that turns an ink on. -/
def Ink.code : Ink → String
  | severity .error | mark => "31"
  | severity .warning => "33"
  | frame => "38;5;246"
  | margin => "38;5;240"
  | faint => "38;5;249"
  | help => "38;5;115"

/-- Text in one ink, or in none. -/
structure Piece where
  ink : Option Ink := none
  text : String

def Piece.render (colored : Bool) (p : Piece) : String :=
  match p.ink with
  | some ink => if colored then s!"\x1b[{ink.code}m{p.text}\x1b[0m" else p.text
  | none => p.text

/-- The marked part of a source of the given length. A part that reaches beyond the source is cut;
an empty one takes in the next character, or the last one at the end of the source. -/
def Span.markedIn (s : Span) (length : Nat) : Nat × Nat :=
  let first := min s.range.1 length
  let last := max (min s.range.2 length) first
  if first < last then (first, last)
  else if first < length then (first, first + 1)
  else (first - 1, first)

/-- The line that holds the character of a source with a given offset. -/
structure SourceLine where
  /-- Lines before this one. -/
  index : Nat
  /-- Offset of the first character. -/
  offset : Nat
  text : List Char

/-- The line that holds an offset, looked for from a line on; the end of the last line belongs to
it. -/
def SourceLine.find (offset : Nat) (index start : Nat) : List (List Char) → Option SourceLine
  | [] => none
  | [line] => if offset ≤ start + line.length then some ⟨index, start, line⟩ else none
  | line :: rest =>
    if offset < start + line.length then some ⟨index, start, line⟩
    else find offset (index + 1) (start + line.length) rest

/-- A marked part of a line, by columns from zero, and the column that its label hangs from. -/
structure Mark where
  first : Nat
  last : Nat
  anchor : Nat

namespace Mark

def covers (m : Mark) (column : Nat) : Bool := m.first ≤ column && column < m.last

/-- The columns written below the line: two more than the mark reaches. -/
def columns (m : Mark) : List Nat := List.range (m.last + 2)

end Mark

def tabWidth : Nat := 4

/-- What stands for the character of a column: blanks are spaces, and a tab is as many as there are
to the next multiple of `tabWidth`. -/
def shown (column : Nat) (c : Char) : List Char :=
  if c == '\t' then List.replicate (tabWidth - column % tabWidth) ' '
  else if Text.isBlank c then [' ']
  else [c]

/-- How many places the character of a column takes; there is one place behind the line's end. -/
def places (chars : List Char) (column : Nat) : Nat :=
  match chars[column]? with
  | some c => if Text.isBlank c then (shown column c).length else Text.width c
  | none => 1

/-- A column below the line, filled with a first character and a second one in further places. -/
def fill (ink : Option Ink) (line : List Char) (column : Nat) (head tail : Char) : List Piece :=
  ((head :: List.replicate (places line column - 1) tail).take (places line column)).map
    fun c => ⟨ink, c.toString⟩

/-- The line itself. -/
def sourcePieces (m : Mark) (line : List Char) : List Piece :=
  line.zipIdx.flatMap fun (c, column) =>
    (shown column c).map fun c => ⟨some (if m.covers column then .mark else .faint), c.toString⟩

/-- The underline, with a bend above the label. -/
def underlinePieces (m : Mark) (line : List Char) : List Piece :=
  m.columns.flatMap fun column =>
    if m.covers column then
      fill (some .mark) line column (if column = m.anchor then '┬' else '─') '─'
    else fill none line column ' ' ' '

/-- The arrow to the label. -/
def arrowPieces (m : Mark) (line : List Char) : List Piece :=
  m.columns.flatMap fun column =>
    if column < m.anchor then fill none line column ' ' ' '
    else fill (some .mark) line column (if column = m.anchor then '╰' else '─') '─'

def spaces (n : Nat) : String := String.ofList (List.replicate n ' ')

namespace Diagnostic

def title (d : Diagnostic) : List Piece :=
  let word := match d.severity with
    | .error => "Error"
    | .warning => "Warning"
  [⟨some (.severity d.severity), s!"[{d.code}] {word}:"⟩, ⟨none, s!" {d.message}"⟩]

/-- The lines of a report that shows a line of the source. An empty one stands for that line and what
is below it if the mark ends behind the line. -/
def excerpt (d : Diagnostic) (row : SourceLine) (m : Mark) : List (List Piece) :=
  let number := toString (row.index + 1)
  let line := Text.trimEnd row.text
  let place := s!" <unknown>:{number}:{m.first + 1} "
  let margin : List Piece := [⟨none, " "⟩, ⟨some .margin, spaces (number.length + 1) ++ "│"⟩]
  let indent : Piece := ⟨none, spaces (number.length + 2)⟩
  let body :=
    if m.last ≤ row.text.length then
      [[⟨none, " "⟩, ⟨some .frame, number ++ " │"⟩, ⟨none, " "⟩] ++ sourcePieces m line,
        margin ++ [⟨none, " "⟩] ++ underlinePieces m line,
        margin ++ [⟨none, " "⟩] ++ arrowPieces m line ++ [⟨none, s!" {d.label}"⟩]]
    else [margin ++ [⟨none, " "⟩]]
  let help := match d.help? with
    | some text => [margin ++ [⟨none, " "⟩],
        margin ++ [⟨none, " "⟩, ⟨some .help, "Help"⟩, ⟨none, s!": {text}"⟩]]
    | none => []
  [d.title,
    [indent, ⟨some .frame, "╭"⟩, ⟨some .frame, "─"⟩, ⟨some .frame, "["⟩, ⟨none, place⟩,
      ⟨some .frame, "]"⟩],
    [indent, ⟨some .frame, "│"⟩]]
  ++ body ++ help
  ++ [[⟨some .frame, String.ofList (List.replicate (number.length + 2) '─') ++ "╯"⟩]]

/-- The lines of a report over a source. The bounds of the marked part are found on the length in
bytes and count characters; the frame is left out for a part that ends more than one place behind
the last character. -/
def reportLines (d : Diagnostic) (source : String) (span : Span) : List (List Piece) :=
  let (first, last) := span.markedIn source.utf8ByteSize
  match SourceLine.find first 0 0 (Text.lines source.toList) with
  | some row =>
    if last ≤ source.length + 1 then
      d.excerpt row ⟨first - row.offset, last - row.offset, (first + last) / 2 - row.offset⟩
    else [d.title]
  | none => [d.title]

/-- A report without the source. -/
def brief (d : Diagnostic) : String :=
  s!"{d.severity.name}[{d.code}]: {d.message}\n"
    ++ (match d.region? with
      | some span => s!"  --> {span.start.render}\n"
      | none => "")
    ++ (match d.help? with
      | some text => s!"  = help: {text}\n"
      | none => "")

def report (d : Diagnostic) (mode : ReportMode) (source file : String) : String :=
  match mode, d.region? with
  | .json, _ => (d.toJson file).sorted.render ++ "\n"
  | _, none => d.brief
  | mode, some span =>
    if source.isEmpty then d.brief
    else
      String.join ((d.reportLines source span).map fun pieces =>
        String.join (pieces.map (Piece.render (mode == .color))) ++ "\n")

end Diagnostic

end NavScript
