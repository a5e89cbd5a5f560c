import MonkeyLang.Syntax.Error
import MonkeyLang.Syntax.Tree
import MonkeyLang.Token.Lexer

namespace MonkeyLang

/-- The tokens from the current one on, the mark behind the last, and the errors so far. -/
structure Parser where
  tokens : List Token
  endMark : Token
  errors : List SyntaxError

/-- Why a construct was not read: a syntax error, which is recorded then, or nesting deeper than
the limit on recursion. -/
inductive Parser.Stop where
  | syntaxError
  | depth
deriving DecidableEq, Repr

namespace Parser

def ofLexer (lexer : Lexer) : Parser := ⟨lexer.tokens, lexer.endMark, []⟩

def current (parser : Parser) : Token := parser.tokens.headD parser.endMark

def next (parser : Parser) : Token := parser.tokens.tail.headD parser.endMark

def advance (parser : Parser) : Parser := { parser with tokens := parser.tokens.tail }

def record (parser : Parser) (cause : SyntaxError.Cause) (token : Token) : Parser :=
  { parser with errors := parser.errors ++ [⟨cause, token.span⟩] }

/-- The tokens from the place where a failed statement is given up: its semicolon, or the last token
before a closing brace or the end. -/
def abandon : List Token → List Token
  | token :: next :: rest =>
    if token.kind = .semicolon ∨ token.kind = .rightBrace ∨ next.kind = .rightBrace then
      token :: next :: rest
    else
      abandon (next :: rest)
  | tokens => tokens

end Parser

namespace Parse

section
variable {m : Type → Type} [Monad m] [MonadStateOf Parser m] [MonadExceptOf Parser.Stop m]

def current : m Token := return (← get).current

def next : m Token := return (← get).next

def advance : m Unit := modify Parser.advance

def recover : m Unit :=
  modify fun parser => { parser with tokens := Parser.abandon parser.tokens }

/-- Fails without an error. -/
def giveUp {α : Type} : m α := throw .syntaxError

def fail {α : Type} (cause : SyntaxError.Cause) (token : Token) : m α := do
  modify fun parser => parser.record cause token
  giveUp

/-- Moves onto the next token, which has to be of this kind. -/
def demand (kind : Token.Kind) : m Unit := do
  let token ← next
  if token.kind = kind then advance else fail (.unexpected kind token.kind) token

/-- Moves onto the next token if it is of this kind, and says whether it was. -/
def accept (kind : Token.Kind) : m Bool := do
  if (← next).kind = kind then
    advance
    return true
  else
    return false

/-- The greatest integer is 2^63 - 1; leading zeros do not count. -/
def integer (token : Token) : m Expr :=
  let value := Nat.ofDigitChars 10 token.literal.toList 0
  if value < Nat.pow 2 63 then
    return .integer token (Int64.ofNat value)
  else
    fail (.integerTooLarge token.literal) token

/-- The readers of what an expression begins with. -/
inductive Prefix where
  | name
  | integer
  | string
  | boolean
  | operator
  | group
  | conditional
  | function
  | array
deriving DecidableEq, Repr

/-- The reader that is registered for a kind of token. -/
def Prefix.ofKind? : Token.Kind → Option Prefix
  | .name => some .name
  | .integer => some .integer
  | .string => some .string
  | .trueWord | .falseWord => some .boolean
  | .bang | .minus => some .operator
  | .leftParen => some .group
  | .ifWord => some .conditional
  | .fnWord => some .function
  | .leftBracket => some .array
  | _ => none

/-- The readers of what an expression goes on with. -/
inductive Infix where
  | operator
  | call
  | index
deriving DecidableEq, Repr

def Infix.ofKind? : Token.Kind → Option Infix
  | .plus | .minus | .star | .slash | .equal | .notEqual | .less | .lessEqual | .greater
  | .greaterEqual | .and | .or => some .operator
  | .leftParen => some .call
  | .leftBracket => some .index
  | _ => none

namespace Body

/-- The names of parameters up to the closing parenthesis. -/
def parameters (parameters : m (List Identifier)) : m (List Identifier) := do
  demand .name
  let token ← current
  if ← accept .comma then
    return ⟨token, token.literal⟩ :: (← parameters)
  else
    demand .rightParen
    return [⟨token, token.literal⟩]

/-- An expression whose operators bind tighter than `least`. -/
def expression (operand : m Expr) (extend : Strength → Expr → m Expr) (least : Strength) :
    m Expr := do
  let left ← operand
  extend least left

/-- What an expression begins with: a literal, a name, or a form with a token of its own. -/
def operand (expression : Strength → m Expr) (items : Token.Kind → m (List Expr)) (block : m Block)
    (parameters : m (List Identifier)) : m Expr := do
  let token ← current
  match Prefix.ofKind? token.kind with
  | none => fail (.noOperand token.kind) token
  | some .name => return .name ⟨token, token.literal⟩
  | some .integer => integer token
  | some .string => return .string token token.literal
  | some .boolean => return .boolean token (token.kind = .trueWord)
  | some .operator =>
    match PrefixOp.ofKind? token.kind with
    | none => giveUp
    | some op => do
      advance
      return .unary token op (← expression .unary)
  | some .group => do
    advance
    let inner ← expression .lowest
    demand .rightParen
    return inner
  | some .conditional => do
    demand .leftParen
    advance
    let condition ← expression .lowest
    demand .rightParen
    demand .leftBrace
    let consequence ← block
    if ← accept .elseWord then
      demand .leftBrace
      return .conditional token condition consequence (some (← block))
    else
      return .conditional token condition consequence none
  | some .function => do
    demand .leftParen
    let names ← if ← accept .rightParen then pure [] else parameters
    demand .leftBrace
    return .function token names (← block)
  | some .array => return .array token (← items .rightBracket)

/-- Goes on with operators, calls and indexing for as long as they bind tighter than `least`. -/
def extend (expression : Strength → m Expr) (items : Token.Kind → m (List Expr))
    (extend : Strength → Expr → m Expr) (least : Strength) (left : Expr) : m Expr := do
  let token ← next
  if token.kind ≠ .semicolon ∧ least < Strength.ofKind token.kind then
    match Infix.ofKind? token.kind with
    | none => return left
    | some .operator => do
      advance
      match InfixOp.ofKind? token.kind with
      | none => giveUp
      | some op => do
        advance
        let right ← expression (Strength.ofKind token.kind)
        extend least (.binary token left op right)
    | some .call => do
      advance
      let arguments ← items .rightParen
      extend least (.call token left arguments)
    | some .index => do
      advance
      advance
      let position ← expression .lowest
      demand .rightBracket
      extend least (.index token left position)
  else
    return left

/-- Expressions with commas between them, up to the token that closes the list. -/
def items (expression : Strength → m Expr) (moreItems : Token.Kind → m (List Expr))
    (closing : Token.Kind) : m (List Expr) := do
  if ← accept closing then
    return []
  else
    advance
    let first ← expression .lowest
    return first :: (← moreItems closing)

def moreItems (expression : Strength → m Expr) (moreItems : Token.Kind → m (List Expr))
    (closing : Token.Kind) : m (List Expr) := do
  if ← accept .comma then
    advance
    let first ← expression .lowest
    return first :: (← moreItems closing)
  else
    demand closing
    return []

def statement (expression : Strength → m Expr) : m Stmt := do
  let token ← current
  match token.kind with
  | .letWord => do
    demand .name
    let name ← current
    demand .assign
    advance
    let value ← expression .lowest
    let _ ← accept .semicolon
    return .letName token ⟨name, name.literal⟩ value
  | .returnWord => do
    advance
    let value ← expression .lowest
    let _ ← accept .semicolon
    return .returnValue token value
  | _ => do
    let value ← expression .lowest
    let _ ← accept .semicolon
    return .expression token value

/-- A block, from its opening brace on. -/
def block (statements : m (List Stmt)) : m Block := do
  let token ← current
  advance
  return .mk token (← statements)

/-- The statements of a block, up to its closing brace or the end of the text, given what an attempt
at one comes to: nothing if there was a syntax error. -/
def statements (attempt : m (Option Stmt)) (statements : m (List Stmt)) : m (List Stmt) := do
  match (← current).kind with
  | .rightBrace | .endOfInput => return []
  | _ =>
    match ← attempt with
    | some first =>
      advance
      return first :: (← statements)
    | none =>
      recover
      if (← current).kind = .rightBrace then
        return []
      else
        advance
        statements

/-- The statements up to the end of the text. -/
def program (attempt : m (Option Stmt)) (program : m Program) : m Program := do
  if (← current).kind = .endOfInput then
    return []
  else
    match ← attempt with
    | some first =>
      advance
      return first :: (← program)
    | none =>
      recover
      advance
      program

end Body

end

/-- Attempts at a statement, which come to nothing if there is a syntax error. -/
class Attempts (m : Type → Type) where
  attempt : m Stmt → m (Option Stmt)

section
variable {m : Type → Type} [Monad m] [MonadStateOf Parser m] [MonadExceptOf Parser.Stop m]

/-- At most `n` parameters. -/
def parameters : Nat → m (List Identifier)
  | 0 => throw .depth
  | n + 1 => Body.parameters (parameters n)

variable [Attempts m]

mutual

def expression : Nat → Strength → m Expr
  | 0, _ => throw .depth
  | n + 1, least => Body.expression (operand n) (extend n) least

def operand : Nat → m Expr
  | 0 => throw .depth
  | n + 1 => Body.operand (expression n) (items n) (block n) (parameters n)

def extend : Nat → Strength → Expr → m Expr
  | 0, _, _ => throw .depth
  | n + 1, least, left => Body.extend (expression n) (items n) (extend n) least left

def items : Nat → Token.Kind → m (List Expr)
  | 0, _ => throw .depth
  | n + 1, closing => Body.items (expression n) (moreItems n) closing

def moreItems : Nat → Token.Kind → m (List Expr)
  | 0, _ => throw .depth
  | n + 1, closing => Body.moreItems (expression n) (moreItems n) closing

def statement : Nat → m Stmt
  | 0 => throw .depth
  | n + 1 => Body.statement (expression n)

def block : Nat → m Block
  | 0 => throw .depth
  | n + 1 => Body.block (statements n)

def statements : Nat → m (List Stmt)
  | 0 => throw .depth
  | n + 1 => Body.statements (Attempts.attempt (statement n)) (statements n)

end

def program : Nat → m Program
  | 0 => throw .depth
  | n + 1 => Body.program (Attempts.attempt (statement n)) (program n)

end

end Parse

abbrev Parse := EStateM Parser.Stop Parser

/-- Nothing if there was a syntax error. -/
def Parse.attempt {α : Type} (parse : Parse α) : Parse (Option α) := fun parser =>
  match parse parser with
  | .ok a after => .ok (some a) after
  | .error .syntaxError after => .ok none after
  | .error .depth after => .error .depth after

instance : Parse.Attempts Parse := ⟨Parse.attempt⟩

namespace Parser

/-- A limit on recursion that the tokens left do not exhaust: between two tokens consumed there are
never more than a few steps down. -/
def limit (parser : Parser) : Nat := 8 * (parser.tokens.length + 1)

/-- An expression from the current token on, or nothing after a syntax error. -/
def readExpression (parser : Parser) (least : Strength) : Option Expr × Parser :=
  match (Parse.expression parser.limit least : Parse Expr) parser with
  | .ok expr after => (some expr, after)
  | .error _ after => (none, after)

/-- The program from the current token on, without the statements that had syntax errors. -/
def readProgram (parser : Parser) : Program × Parser :=
  match (Parse.program parser.limit : Parse Program) parser with
  | .ok program after => (program, after)
  | .error _ after => ([], after)

end Parser

/-- A program and the syntax errors met while reading it, in order. -/
structure Reading where
  program : Program
  errors : List SyntaxError

def Reading.ofSource (source : String) : Reading :=
  let (program, parser) := (Parser.ofLexer (Lexer.ofString source)).readProgram
  ⟨program, parser.errors⟩

end MonkeyLang
