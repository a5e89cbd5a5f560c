import MonkeyLang.Token.Display

namespace MonkeyLang

inductive SyntaxError.Cause where
  | unexpected (expected actual : Token.Kind)
  | noOperand (found : Token.Kind)
  | integerTooLarge (digits : String)
deriving DecidableEq, Repr

/-- A cause and the span of the token where it was met. -/
structure SyntaxError where
  cause : SyntaxError.Cause
  span : Span
deriving DecidableEq, Repr

namespace SyntaxError

def code (error : SyntaxError) : String :=
  match error.cause with
  | .unexpected .. => "PE001"
  | .noOperand _ => "PE002"
  | .integerTooLarge _ => "PE003"

def message (error : SyntaxError) : String :=
  match error.cause with
  | .unexpected expected actual =>
    "next token error. expected=\x60" ++ expected.text ++ "\x60, actual=\x60" ++ actual.text ++
      "\x60"
  | .noOperand found => "no prefix parse function for " ++ found.text ++ " found"
  | .integerTooLarge digits => "could not parse \"" ++ digits ++ "\" as integer"

/-- The message between tabs. -/
def line (error : SyntaxError) : String := "\t" ++ error.message ++ "\t"

/-- What a report writes under the place of the error. -/
def note (error : SyntaxError) : String :=
  match error.cause with
  | .unexpected expected actual => "Expected " ++ expected.text ++ " but got " ++ actual.text
  | .noOperand found => found.text ++ " cannot start an expression"
  | .integerTooLarge _ => "Does not fit in a 64-bit integer"

end SyntaxError

end MonkeyLang
