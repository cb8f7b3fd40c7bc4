import Mathlib.Data.String.Basic
import NavScript.Diagnostic.Report

/-!
# Marks

The range of a mark is found on the length of a source in bytes, and is a part of them that is not
empty (`Span.markedIn_inside`). A report counts characters by it: it inks the characters of a line
whose positions are in the range, and none if the range ends behind the last character
(`Diagnostic.reportLines_draws`). So a region is marked as it was written exactly if every character up to its
end takes one byte (`Diagnostic.marked_regions`).
-/

namespace NavScript

namespace Text

/-- There are as many bytes as characters exactly if each character takes one, and never less. -/
theorem length_utf8Len : ∀ cs : List Char, cs.length ≤ String.utf8Len cs ∧
    (String.utf8Len cs = cs.length ↔ ∀ c ∈ cs, c.utf8Size = 1)
  | [] => by simp
  | c :: cs => by
    obtain ⟨le, eq⟩ := length_utf8Len cs
    have pos := c.utf8Size_pos
    simp only [String.utf8Len_cons, List.length_cons, List.forall_mem_cons, ← eq]
    omega

theorem length_le_utf8ByteSize (s : String) : s.length ≤ s.utf8ByteSize := by
  rw [← String.utf8Len_toList, ← String.length_toList]
  exact (length_utf8Len _).1

theorem utf8ByteSize_eq_length_iff {s : String} :
    s.utf8ByteSize = s.length ↔ ∀ c ∈ s.toList, c.utf8Size = 1 := by
  rw [← String.utf8Len_toList, ← String.length_toList]
  exact (length_utf8Len _).2

theorem utf8ByteSize_pos {s : String} (h : s ≠ "") : 0 < s.utf8ByteSize := by
  rwa [Nat.pos_iff_ne_zero, ne_eq, String.utf8ByteSize_eq_zero_iff]

end Text

namespace Span

theorem markedIn_inside (s : Span) {length : Nat} (h : 0 < length) :
    (s.markedIn length).1 < (s.markedIn length).2 ∧ (s.markedIn length).2 ≤ length := by
  unfold markedIn
  simp only
  split_ifs <;> simp only <;> omega

theorem markedIn_of_inside {s : Span} {length : Nat} (h : s.range.1 < s.range.2)
    (h' : s.range.2 ≤ length) : s.markedIn length = s.range := by
  unfold markedIn
  simp only
  rw [if_pos (by omega)]
  ext <;> simp only <;> omega

/-- Whether the report on a region marks the character of a source at a position. -/
def marks (s : Span) (source : String) (position : Nat) : Bool :=
  let range := s.markedIn source.utf8ByteSize
  range.1 ≤ position && position < range.2

/-- A region that was written as a part of the source is marked exactly if every character up to its end
takes one byte. -/
theorem marks_iff {s : Span} {source before part behind : String}
    (split : source = before ++ part ++ behind) (hpart : part ≠ "")
    (hrange : s.range = (before.utf8ByteSize, before.utf8ByteSize + part.utf8ByteSize)) :
    (∀ i, s.marks source i = true ↔ before.length ≤ i ∧ i < before.length + part.length) ↔
      ∀ c ∈ (before ++ part).toList, c.utf8Size = 1 := by
  have some : 0 < part.length := by
    rw [← String.length_toList, List.length_pos_iff]
    simpa using hpart
  have hbefore := Text.length_le_utf8ByteSize before
  have hpartSize := Text.length_le_utf8ByteSize part
  have bytes : source.utf8ByteSize =
      before.utf8ByteSize + part.utf8ByteSize + behind.utf8ByteSize := by
    rw [split, String.utf8ByteSize_append, String.utf8ByteSize_append]
  have chars : source.length = before.length + part.length + behind.length := by
    rw [split, String.length_append, String.length_append]
  have marked : s.markedIn source.utf8ByteSize = s.range :=
    markedIn_of_inside (by rw [hrange]; simp only; omega) (by rw [hrange]; simp only; omega)
  rw [← Text.utf8ByteSize_eq_length_iff, String.utf8ByteSize_append, String.length_append]
  simp only [marks, marked, hrange, Bool.and_eq_true, decide_eq_true_eq]
  constructor
  · -- no size is below its length, so the two ends differ as soon as one character is longer
    intro h
    have first := h before.length
    have last := h (before.length + part.length - 1)
    have next := h (before.length + part.length)
    omega
  · intro h i
    omega

end Span

theorem SourceLine.find_row {offset : Nat} : ∀ {before behind : List (List Char)} {row : List Char}
    {index start : Nat}, start + before.flatten.length ≤ offset →
      offset < start + before.flatten.length + row.length →
      find offset index start (before ++ row :: behind) =
        some ⟨index + before.length, start + before.flatten.length, row⟩
  | [], [], row, index, start, _, h => by
    -- the last line also holds the position behind its characters
    have inside : offset ≤ start + row.length := Nat.le_of_lt (by simpa using h)
    simp [find, inside]
  | [], _ :: _, row, index, start, _, h => by
    have inside : offset < start + row.length := by simpa using h
    simp [find, inside]
  | line :: before, behind, row, index, start, h, h' => by
    simp only [List.flatten_cons, List.length_append, ← Nat.add_assoc] at h h'
    have past : ¬ offset < start + line.length := by omega
    have next : find offset (index + 1) (start + line.length) (before ++ row :: behind) =
        some ⟨index + 1 + before.length, start + line.length + before.flatten.length, row⟩ :=
      find_row h h'
    obtain ⟨second, rest, hrest⟩ : ∃ second rest, before ++ row :: behind = second :: rest :=
      List.exists_cons_of_ne_nil (by simp)
    rw [hrest] at next
    rw [List.cons_append, hrest, find, if_neg past, next]
    · simp [Nat.add_assoc, Nat.add_comm 1]
    · simp

theorem SourceLine.find_le {offset index start : Nat} {lines : List (List Char)} {row : SourceLine}
    (h : find offset index start lines = some row) :
    row.offset + row.text.length ≤ start + lines.flatten.length := by
  fun_induction find offset index start lines with
  | case1 => cases h
  | case2 | case4 =>
    cases h
    simp
  | case3 => cases h
  | case5 _ _ _ _ _ _ ih =>
    have := ih h
    simp only [List.flatten_cons, List.length_append]
    omega

namespace Diagnostic

/-- The line of a source as a report shows it, its characters inked by their positions in the source. -/
def inkedRow (span : Span) (source : String) (row : SourceLine) : List Piece :=
  [⟨none, " "⟩, ⟨some .frame, toString (row.index + 1) ++ " │"⟩, ⟨none, " "⟩] ++
    (Text.trimEnd row.text).zipIdx.flatMap fun (c, column) => (shown column c).map fun c =>
      ⟨some (if span.marks source (row.offset + column) then .mark else .faint), c.toString⟩

/-- The report inks what is marked, if that is in one line. If it starts in the last line and ends behind
the source, nothing is inked. -/
structure Draws (d : Diagnostic) (source : String) (span : Span) : Prop where
  row : ∀ before row behind, Text.lines source.toList = before ++ row :: behind →
    before.flatten.length ≤ (span.markedIn source.utf8ByteSize).1 →
    (span.markedIn source.utf8ByteSize).2 ≤ before.flatten.length + row.length →
    inkedRow span source ⟨before.length, before.flatten.length, row⟩ ∈ d.reportLines source span
  beyond : ∀ before row, Text.lines source.toList = before ++ [row] →
    before.flatten.length ≤ (span.markedIn source.utf8ByteSize).1 →
    source.length < (span.markedIn source.utf8ByteSize).2 →
    ∀ line ∈ d.reportLines source span, ∀ piece ∈ line, piece.ink ≠ some .mark

theorem title_unmarked (d : Diagnostic) : ∀ piece ∈ d.title, piece.ink ≠ some .mark := by
  simp [title]

theorem excerpt_unmarked {d : Diagnostic} {row : SourceLine} {m : Mark}
    (h : row.text.length < m.last) :
    ∀ line ∈ d.excerpt row m, ∀ piece ∈ line, piece.ink ≠ some .mark := by
  simp only [excerpt, if_neg (Nat.not_le.2 h)]
  cases d.help? <;> simp [title]

theorem inkedRow_mem {d : Diagnostic} {source : String} {span : Span} {row : SourceLine} {m : Mark}
    (h : m.last ≤ row.text.length)
    (covers : ∀ column, m.covers column = span.marks source (row.offset + column)) :
    inkedRow span source row ∈ d.excerpt row m := by
  have inked : sourcePieces m (Text.trimEnd row.text) =
      (Text.trimEnd row.text).zipIdx.flatMap fun (c, column) => (shown column c).map fun c =>
        ⟨some (if span.marks source (row.offset + column) then .mark else .faint), c.toString⟩ := by
    simp only [sourcePieces, covers]
  simp only [excerpt, if_pos h, inked, inkedRow]
  simp

theorem reportLines_draws (d : Diagnostic) {source : String} (span : Span) (h : source ≠ "") :
    d.Draws source span := by
  obtain ⟨some, -⟩ := span.markedIn_inside (Text.utf8ByteSize_pos h)
  refine ⟨fun before row behind hlines first last => ?_, fun _ _ _ _ beyond => ?_⟩
  · have found : SourceLine.find (span.markedIn source.utf8ByteSize).1 0 0
        (before ++ row :: behind) = .some ⟨0 + before.length, 0 + before.flatten.length, row⟩ :=
      SourceLine.find_row (by omega) (by omega)
    have total : before.flatten.length + row.length ≤ source.length := by
      rw [← String.length_toList, ← Text.lines_flatten source.toList, hlines]
      simp
    rw [← hlines] at found
    simp only [Nat.zero_add] at found
    simp only [reportLines, found]
    rw [if_pos (by omega)]
    refine inkedRow_mem (by simp only; omega) fun column => ?_
    rw [Bool.eq_iff_iff]
    simp only [Mark.covers, Span.marks, Bool.and_eq_true, decide_eq_true_eq]
    omega
  · simp only [reportLines]
    split
    · rename_i row found
      have inside := SourceLine.find_le found
      rw [Text.lines_flatten, String.length_toList] at inside
      split
      · exact excerpt_unmarked (by simp only; omega)
      · simpa using d.title_unmarked
    · simpa using d.title_unmarked

/-- What a report marks, for each region and each source that is not empty. -/
theorem marked_regions (d : Diagnostic) {source : String} (span : Span) (h : source ≠ "") :
    ((span.markedIn source.utf8ByteSize).1 < (span.markedIn source.utf8ByteSize).2 ∧
      (span.markedIn source.utf8ByteSize).2 ≤ source.utf8ByteSize) ∧
    ((∀ c ∈ source.toList, c.utf8Size = 1) →
      (span.markedIn source.utf8ByteSize).2 ≤ source.length) ∧
    (∀ before part behind : String, source = before ++ part ++ behind → part ≠ "" →
      span.range = (before.utf8ByteSize, before.utf8ByteSize + part.utf8ByteSize) →
        ((∀ i, span.marks source i = true ↔
            before.length ≤ i ∧ i < before.length + part.length) ↔
          ∀ c ∈ (before ++ part).toList, c.utf8Size = 1)) ∧
    d.Draws source span := by
  have inside := span.markedIn_inside (Text.utf8ByteSize_pos h)
  refine ⟨inside, fun ascii => ?_, fun _ _ _ split hpart hrange => Span.marks_iff split hpart hrange,
    d.reportLines_draws span h⟩
  rw [Text.utf8ByteSize_eq_length_iff.2 ascii] at inside ⊢
  exact inside.2

/-- A name on the second line. -/
def missingSpan : Span := .ofLexeme 2 1 5 "missing"

/-- A name on the second line is marked where it was written. -/
theorem marked_regions_missing :
    "self\nmissing" ≠ "" ∧ (∀ c ∈ "self\nmissing".toList, c.utf8Size = 1) ∧
      "self\nmissing" = "self\n" ++ "missing" ++ "" ∧ "missing" ≠ "" ∧
      missingSpan.range = ("self\n".utf8ByteSize, "self\n".utf8ByteSize + "missing".utf8ByteSize) ∧
      (missingSpan.markedIn "self\nmissing".utf8ByteSize).2 ≤ "self\nmissing".length ∧
      (∀ i, missingSpan.marks "self\nmissing" i = true ↔ 5 ≤ i ∧ i < 12) ∧
      inkedRow missingSpan "self\nmissing" ⟨1, 5, "missing".toList⟩ ∈
        (unresolvedName "missing" missingSpan).reportLines "self\nmissing" missingSpan := by
  obtain ⟨-, inside, region, drawn⟩ := @marked_regions (unresolvedName "missing" missingSpan)
    "self\nmissing" missingSpan (by decide)
  have ascii : ∀ c ∈ "self\nmissing".toList, c.utf8Size = 1 :=
    Text.utf8ByteSize_eq_length_iff.1 (by decide)
  refine ⟨by decide, ascii, by decide, by decide, by decide, inside ascii, ?_, ?_⟩
  · exact (region "self\n" "missing" "" (by decide) (by decide) (by decide)).2 ascii
  · exact drawn.row ["self\n".toList] "missing".toList [] (by decide) (by decide) (by decide)

/-- Behind a character of two bytes the next character is marked. -/
theorem marked_regions_shifted :
    "é = x + y" = "é = " ++ "x" ++ " + y" ∧
      (Span.ofLexeme 1 5 5 "x").range =
        ("é = ".utf8ByteSize, "é = ".utf8ByteSize + "x".utf8ByteSize) ∧
      (Span.ofLexeme 1 5 5 "x").marks "é = x + y" "é = ".length = false ∧
      (Span.ofLexeme 1 5 5 "x").marks "é = x + y" ("é = ".length + "x".length) = true := by
  decide

end Diagnostic

end NavScript
