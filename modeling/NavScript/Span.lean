/-!
# Regions of source text

Every node and step carries the region it was written in. Lines and columns count from one; a
region that starts on line zero has no place in the source and is called synthetic.
-/

namespace NavScript

structure Position where
  line : UInt32 := 0
  column : UInt32 := 0
deriving DecidableEq, Inhabited, Repr

namespace Position

/-- Positions are ordered by line, then by column. -/
def before (p q : Position) : Bool :=
  p.line < q.line || (p.line == q.line && p.column < q.column)

def earlier (p q : Position) : Position := if q.before p then q else p

def later (p q : Position) : Position := if q.before p then p else q

def render (p : Position) : String := s!"{p.line.toNat}:{p.column.toNat}"

end Position

/-- A region of source text: line and column range, first byte, length in bytes and the text of
the token itself. -/
structure Span where
  start : Position := {}
  stop : Position := {}
  offset : UInt32 := 0
  len : UInt32 := 0
  lexeme : String := ""
deriving DecidableEq, Inhabited, Repr

namespace Span

/-- The region of no source text at all. -/
def synthetic : Span := {}

/-- A token on a single line. Its end column and its length count bytes. -/
def ofLexeme (line column offset : UInt32) (lexeme : String) : Span :=
  let len := lexeme.utf8ByteSize.toUInt32
  { start := ⟨line, column⟩, stop := ⟨line, column + len⟩, offset, len, lexeme }

def isSynthetic (s : Span) : Bool := s.start.line == 0

/-- First byte and the byte after the last. -/
def range (s : Span) : Nat × Nat := (s.offset.toNat, s.offset.toNat + s.len.toNat)

/-- The least region that holds both; a synthetic region adds nothing. -/
def cover (s t : Span) : Span :=
  if s.isSynthetic then t
  else if t.isSynthetic then s
  else
    let first := min s.offset t.offset
    let last := max (s.offset + s.len) (t.offset + t.len)
    { start := s.start.earlier t.start, stop := s.stop.later t.stop
      offset := first, len := last - first, lexeme := "" }

def render (s : Span) : String := s!"{s.start.render}-{s.stop.render}"

end Span

end NavScript
