import MonkeyLang.Proofs.Report.Rows
import MonkeyLang.Text.Lines

namespace MonkeyLang

namespace Text.Line

/-- The range is not empty, and stands on the line. -/
structure Has (line : Line) (range : Report.Range) : Prop where
  start_le : line.start ≤ range.start
  nonempty : range.start < range.stop
  stop_le : range.stop ≤ line.start + line.text.length

/-- Lines that end at or before the position are passed, and each is counted. -/
theorem find_eq {position : Nat} {text : List Char} {behind : List (List Char)} :
    ∀ {before : List (List Char)} {number start : Nat},
      start + before.flatten.length ≤ position →
      position < start + before.flatten.length + text.length →
      find position number start (before ++ text :: behind) =
        ⟨number + before.length, start + before.flatten.length, text⟩
  | [], number, start, _, hlt => by
    cases behind with
    | nil => rfl
    | cons next rest => exact if_pos hlt
  | passed :: before, number, start, hle, hlt => by
    rw [List.flatten_cons, List.length_append, ← Nat.add_assoc] at hle hlt
    have hpassed : ¬position < start + passed.length := by omega
    have hrest : find position (number + 1) (start + passed.length) (before ++ text :: behind) =
        ⟨number + 1 + before.length, start + passed.length + before.flatten.length, text⟩ :=
      find_eq hle hlt
    obtain ⟨next, rest, hnext⟩ : ∃ next rest, before ++ text :: behind = next :: rest := by
      cases before <;> exact ⟨_, _, rfl⟩
    rw [List.cons_append, hnext, find, if_neg hpassed, ← hnext, hrest, List.flatten_cons,
      List.length_append, List.length_cons]
    simp only [Nat.add_assoc, Nat.add_comm 1]

end Text.Line

namespace Report.Library

open Text (Line)

/-- A line of the text: its number counts the lines before it, and its start the characters in
them. -/
def IsLine (library : Library) (text : List Char) (line : Line) : Prop :=
  ∃ before behind, library.lines text = before ++ line.text :: behind ∧
    line.number = before.length + 1 ∧ line.start = before.flatten.length

/-- How many cells of the line are before a column. -/
def cellsBefore (library : Library) (line : Line) : Nat → Nat
  | 0 => 0
  | column + 1 => library.cellsBefore line column + library.cells line.text column

/-- The report names the first of these characters of the line, and underlines the cells of all of
them and no others. -/
structure PointsAt (library : Library) (report path : String) (line : Line) (range : Range) :
    Prop where
  names : Names report path line.number (range.start - line.start + 1)
  underlines : Underlines report (library.cellsBefore line (range.start - line.start))
    (library.cellsBefore line (range.stop - line.start))

/-- What is relied on: lines are cut out of the text, and ranges are read as positions among its
characters. The place named is that of the first character of the one range, and the characters of
the other are underlined. -/
structure Lawful (library : Library) : Prop where
  flatten_lines : ∀ text, (library.lines text).flatten = text
  draws : ∀ (request : Request) {named line : Line},
    library.IsLine request.source.toList named → named.Has request.place →
    library.IsLine request.source.toList line → line.Has request.label.range →
    '\n' ∉ request.label.note.toList →
    Names (library.draw request) request.path named.number
        (request.place.start - named.start + 1) ∧
      Underlines (library.draw request)
        (library.cellsBefore line (request.label.range.start - line.start))
        (library.cellsBefore line (request.label.range.stop - line.start))

section
variable {library : Library} {text : List Char} {line other : Line} {position : Nat}

theorem IsLine.find_eq (h : library.IsLine text line) (hle : line.start ≤ position)
    (hlt : position < line.start + line.text.length) :
    Line.find position 1 0 (library.lines text) = line := by
  obtain ⟨before, behind, hlines, hnumber, hstart⟩ := h
  obtain ⟨number, start, line⟩ := line
  cases hnumber
  cases hstart
  rw [hlines, Line.find_eq (by simpa using hle) (by simpa using hlt)]
  simp [Nat.add_comm]

theorem IsLine.eq_of_number (h : library.IsLine text line) (h' : library.IsLine text other)
    (hn : other.number = line.number) : other = line := by
  obtain ⟨before, behind, hlines, hnumber, hstart⟩ := h
  obtain ⟨before', behind', hlines', hnumber', hstart'⟩ := h'
  have hlength : before'.length = before.length := by omega
  have hsame := hlines'.symm.trans hlines
  obtain ⟨rfl, hrest⟩ := List.append_inj hsame hlength
  obtain ⟨number, start, line⟩ := line
  obtain ⟨number', start', line'⟩ := other
  obtain ⟨htext, -⟩ := List.cons.inj hrest
  simp only at hn htext hstart hstart'
  rw [hn, htext, hstart, hstart']

/-- A position is on no two lines. -/
theorem IsLine.eq_of_has {range range' : Range} (h : library.IsLine text line)
    (h' : library.IsLine text other) (hr : line.Has range) (hr' : other.Has range')
    (hs : range'.start = range.start) : other = line := by
  have hline := h.find_eq hr.start_le (Nat.lt_of_lt_of_le hr.nonempty hr.stop_le)
  have hother := h'.find_eq hr'.start_le (Nat.lt_of_lt_of_le hr'.nonempty hr'.stop_le)
  rw [← hother, hs, hline]

/-- A line has no more characters than the text. -/
theorem IsLine.stop_le (hl : (library.lines text).flatten = text) (h : library.IsLine text line) :
    line.start + line.text.length ≤ text.length := by
  obtain ⟨before, behind, hlines, -, hstart⟩ := h
  rw [← hl, hlines, hstart]
  simp only [List.flatten_append, List.flatten_cons, List.length_append]
  omega

end

end Report.Library

end MonkeyLang
