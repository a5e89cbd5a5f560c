import MonkeyLang.Syntax.Tree

namespace MonkeyLang

/-- Texts with a comma and a blank between them. -/
def commaSeparated : List String → String
  | [] => ""
  | [text] => text
  | text :: next :: rest => text ++ ", " ++ commaSeparated (next :: rest)

def parameterText (parameters : List Identifier) : String :=
  commaSeparated (parameters.map Identifier.name)

/-- What stands between a statement and the next. -/
def Stmt.separator : Stmt → String
  | .expression .. => "; "
  | _ => " "

mutual

def Expr.text : Expr → String
  | .name identifier => identifier.name
  | .integer _ value => value.toInt.repr
  | .boolean _ value => if value then "true" else "false"
  | .string _ value => "\"" ++ value ++ "\""
  | .array _ items => "[" ++ commaSeparated (Expr.texts items) ++ "]"
  | .unary _ op right => "(" ++ op.symbol ++ right.text ++ ")"
  | .binary _ left op right => "(" ++ left.text ++ " " ++ op.symbol ++ " " ++ right.text ++ ")"
  | .conditional _ condition consequence none =>
    "if (" ++ condition.text ++ ") " ++ consequence.text
  | .conditional _ condition consequence (some alternative) =>
    "if (" ++ condition.text ++ ") " ++ consequence.text ++ " else " ++ alternative.text
  | .function _ parameters body => "fn(" ++ parameterText parameters ++ ") " ++ body.text
  | .call _ callee arguments => callee.text ++ "(" ++ commaSeparated (Expr.texts arguments) ++ ")"
  | .index _ left position => "(" ++ left.text ++ "[" ++ position.text ++ "])"

def Expr.texts : List Expr → List String
  | [] => []
  | expr :: exprs => expr.text :: Expr.texts exprs

def Stmt.text : Stmt → String
  | .letName _ name value => "let " ++ name.name ++ " = " ++ value.text ++ ";"
  | .returnValue _ value => "return " ++ value.text ++ ";"
  | .expression _ value => value.text
  | .block body => body.text

def Stmt.sequenceText : List Stmt → String
  | [] => ""
  | [statement] => statement.text
  | statement :: next :: rest =>
    statement.text ++ statement.separator ++ Stmt.sequenceText (next :: rest)

/-- The statements in braces; two braces with a blank between them if there are none. -/
def Block.text : Block → String
  | .mk _ [] => "\x7b \x7d"
  | .mk _ (statement :: rest) => "\x7b " ++ Stmt.sequenceText (statement :: rest) ++ " \x7d"

end

def Program.text (program : Program) : String := Stmt.sequenceText program

end MonkeyLang
