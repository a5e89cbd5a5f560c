namespace MonkeyLang

/-- A stretch of the source text, counted in bytes. -/
structure Span where
  start : Nat
  length : Nat
deriving DecidableEq, Repr

/-- The first byte after the stretch. -/
def Span.stop (s : Span) : Nat := s.start + s.length

inductive Token.Kind where
  | illegal
  | endOfInput
  | name
  | integer
  | string
  | assign
  | plus
  | minus
  | star
  | slash
  | bang
  | less
  | greater
  | lessEqual
  | greaterEqual
  | equal
  | notEqual
  | and
  | or
  | comma
  | semicolon
  | leftParen
  | rightParen
  | leftBrace
  | rightBrace
  | leftBracket
  | rightBracket
  | fnWord
  | letWord
  | ifWord
  | elseWord
  | returnWord
  | trueWord
  | falseWord
deriving DecidableEq, Repr

/-- The literal is the source text of the token; that of a string leaves out the quotes,
while the span covers them. -/
structure Token where
  kind : Token.Kind
  literal : String
  span : Span
deriving DecidableEq, Repr

namespace Token

/-- The mark that stands behind the last token of a text of so many bytes. -/
def endAt (bytes : Nat) : Token := ⟨.endOfInput, "", ⟨bytes, 0⟩⟩

namespace Kind

def keywords : List (String × Kind) :=
  [("fn", .fnWord), ("let", .letWord), ("if", .ifWord), ("else", .elseWord),
    ("return", .returnWord), ("true", .trueWord), ("false", .falseWord)]

/-- A word is a keyword or else a name. -/
def ofWord (word : String) : Kind := (keywords.lookup word).getD .name

/-- The symbol at the front of a text. Where a longer one begins with the same character, a look at
the character behind it decides. -/
def symbolAt? : List Char → Option (List Char × Kind)
  | [] => none
  | c :: cs =>
    let orLonger (short : Option Kind) (next : Char) (long : Kind) : Option (List Char × Kind) :=
      if cs.head? = some next then some ([c, next], long) else short.map ([c], ·)
    match c with
    | '+' => some ([c], .plus)
    | '-' => some ([c], .minus)
    | '*' => some ([c], .star)
    | '/' => some ([c], .slash)
    | ',' => some ([c], .comma)
    | ';' => some ([c], .semicolon)
    | '(' => some ([c], .leftParen)
    | ')' => some ([c], .rightParen)
    | '{' => some ([c], .leftBrace)
    | '}' => some ([c], .rightBrace)
    | '[' => some ([c], .leftBracket)
    | ']' => some ([c], .rightBracket)
    | '=' => orLonger (some .assign) '=' .equal
    | '!' => orLonger (some .bang) '=' .notEqual
    | '<' => orLonger (some .less) '=' .lessEqual
    | '>' => orLonger (some .greater) '=' .greaterEqual
    | '&' => orLonger none '&' .and
    | '|' => orLonger none '|' .or
    | _ => none

def all : List Kind :=
  [.illegal, .endOfInput, .name, .integer, .string, .assign, .plus, .minus, .star, .slash, .bang,
    .less, .greater, .lessEqual, .greaterEqual, .equal, .notEqual, .and, .or, .comma, .semicolon,
    .leftParen, .rightParen, .leftBrace, .rightBrace, .leftBracket, .rightBracket, .fnWord,
    .letWord, .ifWord, .elseWord, .returnWord, .trueWord, .falseWord]

end Kind

end Token

end MonkeyLang
