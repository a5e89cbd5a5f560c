import MonkeyLang.Syntax.Error

namespace MonkeyLang

/-- Numbers from the first on, without the last. -/
structure Report.Range where
  start : Nat
  stop : Nat
deriving DecidableEq, Repr

def Span.range (span : Span) : Report.Range := ⟨span.start, span.stop⟩

namespace Report

/-- A range of a source that is underlined, with what is written under it. -/
structure Label where
  range : Range
  note : String
deriving DecidableEq, Repr

/-- What a report is asked to tell: an error of this code, met at a place of a source. -/
structure Request where
  path : String
  source : String
  code : String
  message : String
  place : Range
  label : Label
deriving DecidableEq, Repr

/-- What draws reports. It takes the source apart into lines, and draws each character of a line,
which it is given by its column, in so many cells. -/
structure Library where
  lines : List Char → List (List Char)
  cells : List Char → Nat → Nat
  draw : Request → String

/-- The report of an error. The numbers of its span are handed over as they are. -/
def Library.report (library : Library) (path source : String) (error : SyntaxError) : String :=
  library.draw ⟨path, source, error.code, error.message, error.span.range,
    ⟨error.span.range, error.note⟩⟩

end Report

end MonkeyLang
