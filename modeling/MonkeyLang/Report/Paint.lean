namespace MonkeyLang.Report

inductive Colour where
  | red
  | margin
  | faint
  | dim
  | label
deriving DecidableEq, Repr

/-- The parameters of the control sequence that selects the colour. -/
def Colour.code : Colour → String
  | .red => "31"
  | .margin => "38;5;246"
  | .faint => "38;5;240"
  | .dim => "38;5;249"
  | .label => "91"

/-- A text in a colour, which is switched off behind it. -/
def paint (colour : Colour) (text : String) : String :=
  "\x1b[" ++ colour.code ++ "m" ++ text ++ "\x1b[0m"

def repeated (n : Nat) (text : String) : String := String.join (List.replicate n text)

def blanks (n : Nat) : String := repeated n " "

end MonkeyLang.Report
