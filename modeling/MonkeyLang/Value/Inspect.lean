import MonkeyLang.Value.Basic

namespace MonkeyLang

/-- A function in the form of its literal. -/
def Closure.text (closure : Closure) : String :=
  "fn(" ++ parameterText closure.parameters ++ ") " ++ closure.body.text

namespace Value

mutual

/-- Strings have no quotes here. -/
def inspect : Value → String
  | integer value => value.toInt.repr
  | boolean value => if value then "true" else "false"
  | string text => text
  | array _ items => "[" ++ commaSeparated (inspectAll items) ++ "]"
  | null => "null"
  | returned value => inspect value
  | error e => e.line
  | function _ closure => closure.text
  | builtin b => "builtin function " ++ b.name

def inspectAll : List Value → List String
  | [] => []
  | value :: values => inspect value :: inspectAll values

end

theorem inspect_array (identity : Nat) (items : List Value) :
    (array identity items).inspect = "[" ++ commaSeparated (inspectAll items) ++ "]" := rfl

theorem inspect_returned (value : Value) : (returned value).inspect = value.inspect := rfl

theorem inspect_function (identity : Nat) (closure : Closure) :
    (function identity closure).inspect = closure.text := rfl

theorem inspectAll_cons (value : Value) (values : List Value) :
    inspectAll (value :: values) = value.inspect :: inspectAll values := rfl

/-- The text of a value, with the code in front of an error. -/
def codedText : Value → String
  | error e => e.codedLine
  | value => inspect value

end Value

end MonkeyLang
