import MonkeyLang.Report.Library
import MonkeyLang.Report.Paint
import MonkeyLang.Text.Lines
import MonkeyLang.Text.Width

namespace MonkeyLang.Report

open Text (Line)

/-- The cells under a column of a line: those of its character, and one where the line has none or
ends in blanks. -/
def cells (line : List Char) (column : Nat) : Nat :=
  match (Text.trimEnd line)[column]? with
  | some c => Text.cellCount column c
  | none => 1

/-- The line and the column that are named, both counted from one, and the line that is drawn, with
what is underlined in it, as positions, and what is written under it. -/
structure Drawing where
  number : Nat
  column : Nat
  line : Line
  start : Nat
  stop : Nat
  note : String

namespace Drawing

def visible (drawing : Drawing) : List Char := Text.trimEnd drawing.line.text

/-- Whether a column is underlined. -/
def covers (drawing : Drawing) (column : Nat) : Bool :=
  drawing.start ≤ drawing.line.start + column && drawing.line.start + column < drawing.stop

/-- The column in the middle of what is underlined, where the note is attached. -/
def middle (drawing : Drawing) : Nat := (drawing.start + drawing.stop) / 2 - drawing.line.start

/-- The columns that the rows under the line run over: one more than up to the last underlined. -/
def columns (drawing : Drawing) : List Nat := List.range (drawing.stop - drawing.line.start + 2)

def numberWidth (drawing : Drawing) : Nat := drawing.line.number.repr.length

/-- The margin of a row without a line number. -/
def margin (drawing : Drawing) : String :=
  " " ++ paint .faint (blanks (drawing.numberWidth + 1) ++ "│") ++ " "

def characterCells (drawing : Drawing) (column : Nat) (c : Char) : String :=
  let colour := if drawing.covers column then Colour.label else Colour.dim
  if Text.isWhite c then
    repeated (cells drawing.line.text column) (paint colour " ")
  else
    paint colour (String.singleton c)

/-- The source line. -/
def sourceRow (drawing : Drawing) : String :=
  " " ++ paint .margin (drawing.line.number.repr ++ " │") ++ " " ++
    String.join (drawing.visible.mapIdx drawing.characterCells)

/-- A row of which a column has one first cell and further ones like `more`. -/
def row (drawing : Drawing) (first more : Nat → String) : String :=
  drawing.margin ++ String.join (drawing.columns.map fun column =>
    match cells drawing.line.text column with
    | 0 => ""
    | n + 1 => first column ++ repeated n (more column))

/-- The marks under the line, and the place in their middle that the note hangs from. -/
def underlineRow (drawing : Drawing) : String :=
  let line := fun column => if drawing.covers column then paint .label "─" else " "
  let first := fun column =>
    if column = drawing.middle then
      paint .label (if drawing.covers column then "┬" else "│")
    else
      line column
  drawing.row first line

/-- The way from the middle to the note, and the note. -/
def noteRow (drawing : Drawing) : String :=
  let line := fun column => if column < drawing.middle then " " else paint .label "─"
  let first := fun column => if column = drawing.middle then paint .label "╰" else line column
  drawing.row first line ++ " " ++ drawing.note

/-- The place that is named. -/
def placeRow (drawing : Drawing) (path : String) : String :=
  blanks (drawing.numberWidth + 2) ++ paint .margin "╭" ++ paint .margin "─" ++ paint .margin "[" ++
    " " ++ path ++ ":" ++ drawing.number.repr ++ ":" ++ drawing.column.repr ++ " " ++
    paint .margin "]"

def barRow (drawing : Drawing) : String :=
  blanks (drawing.numberWidth + 2) ++ paint .margin "│"

def footRow (drawing : Drawing) : String :=
  paint .margin (repeated (drawing.numberWidth + 2) "─" ++ "╯")

/-- The frame around the line. It stays empty if what is underlined goes beyond the line. -/
def text (drawing : Drawing) (path : String) : String :=
  let rows :=
    if drawing.line.start + drawing.line.text.length < drawing.stop then
      drawing.margin
    else
      drawing.sourceRow ++ "\n" ++ drawing.underlineRow ++ "\n" ++ drawing.noteRow
  drawing.placeRow path ++ "\n" ++ drawing.barRow ++ "\n" ++ rows ++ "\n" ++ drawing.footRow ++ "\n"

end Drawing

/-- Whether a range begins and ends inside a text of so many characters or just behind it. -/
def isWithin (range : Range) (characters : Nat) : Bool :=
  range.start ≤ characters && (range.stop ≤ range.start || range.stop - 1 ≤ characters)

/-- The library that colours its reports for a terminal. Ranges are positions among the characters
of the source; without a drawing where the label is not within it. -/
def terminal : Library where
  lines := Text.splitLines
  cells := cells
  draw request :=
    let characters := request.source.toList
    let headline := paint .red ("[" ++ request.code ++ "] Error:") ++ " " ++ request.message ++ "\n"
    let range := request.label.range
    if isWithin range characters.length then
      let named := Text.lineAt characters request.place.start
      let drawing : Drawing :=
        ⟨named.number, request.place.start - named.start + 1, Text.lineAt characters range.start,
          range.start, range.stop, request.label.note⟩
      headline ++ drawing.text request.path
    else
      headline

/-- The report of an error as it is shown on a terminal. -/
def render (path source : String) (error : SyntaxError) : String :=
  terminal.report path source error

end MonkeyLang.Report
