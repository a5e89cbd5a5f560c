import MonkeyLang.Token.Basic

namespace MonkeyLang.Token

/-- The kind as messages name it. -/
def Kind.text : Kind → String
  | .illegal => "Illegal"
  | .endOfInput => "Eof"
  | .name => "Identifier"
  | .integer => "Integer"
  | .string => "String"
  | .assign => "="
  | .plus => "+"
  | .minus => "-"
  | .star => "*"
  | .slash => "/"
  | .bang => "!"
  | .less => "<"
  | .greater => ">"
  | .lessEqual => "<="
  | .greaterEqual => ">="
  | .equal => "=="
  | .notEqual => "!="
  | .and => "&&"
  | .or => "||"
  | .comma => ","
  | .semicolon => ";"
  | .leftParen => "("
  | .rightParen => ")"
  | .leftBrace => "\x7b"
  | .rightBrace => "\x7d"
  | .leftBracket => "["
  | .rightBracket => "]"
  | .fnWord => "Function"
  | .letWord => "Let"
  | .ifWord => "If"
  | .elseWord => "Else"
  | .returnWord => "Return"
  | .trueWord => "True"
  | .falseWord => "False"

/-- The kind as debug text names it. -/
def Kind.label : Kind → String
  | .illegal => "Illegal"
  | .endOfInput => "Eof"
  | .name => "Ident"
  | .integer => "IntegerLiteral"
  | .string => "StringLiteral"
  | .assign => "Equal"
  | .plus => "Plus"
  | .minus => "Minus"
  | .star => "Star"
  | .slash => "Slash"
  | .bang => "Bang"
  | .less => "LessThan"
  | .greater => "GreaterThan"
  | .lessEqual => "LessThanEqual"
  | .greaterEqual => "GreaterThanEqual"
  | .equal => "EqualEqual"
  | .notEqual => "BangEqual"
  | .and => "AndAnd"
  | .or => "OrOr"
  | .comma => "Comma"
  | .semicolon => "Semicolon"
  | .leftParen => "LeftParenthesis"
  | .rightParen => "RightParenthesis"
  | .leftBrace => "LeftBrace"
  | .rightBrace => "RightBrace"
  | .leftBracket => "LeftBracket"
  | .rightBracket => "RightBracket"
  | .fnWord => "KeywordFn"
  | .letWord => "KeywordLet"
  | .ifWord => "KeywordIf"
  | .elseWord => "KeywordElse"
  | .returnWord => "KeywordReturn"
  | .trueWord => "KeywordTrue"
  | .falseWord => "KeywordFalse"

/-- The kind in capitals and the literal; only strings are quoted and the end mark stands alone. -/
def line (token : Token) : String :=
  match token.kind with
  | .endOfInput => "EOF"
  | .string => "STRING \"" ++ token.literal ++ "\""
  | kind => kind.text.toUpper ++ " " ++ token.literal

end MonkeyLang.Token
