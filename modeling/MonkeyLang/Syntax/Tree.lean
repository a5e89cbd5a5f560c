import MonkeyLang.Syntax.Operator

namespace MonkeyLang

structure Identifier where
  token : Token
  name : String
deriving DecidableEq, Repr

mutual

inductive Expr where
  | name (identifier : Identifier)
  | integer (token : Token) (value : Int64)
  | boolean (token : Token) (value : Bool)
  | string (token : Token) (value : String)
  | array (token : Token) (items : List Expr)
  | unary (token : Token) (op : PrefixOp) (right : Expr)
  | binary (token : Token) (left : Expr) (op : InfixOp) (right : Expr)
  | conditional (token : Token) (condition : Expr) (consequence : Block)
      (alternative : Option Block)
  | function (token : Token) (parameters : List Identifier) (body : Block)
  | call (token : Token) (callee : Expr) (arguments : List Expr)
  | index (token : Token) (left : Expr) (position : Expr)

inductive Stmt where
  | letName (token : Token) (name : Identifier) (value : Expr)
  | returnValue (token : Token) (value : Expr)
  | expression (token : Token) (value : Expr)
  | block (body : Block)

/-- Statements in braces, with the token of the opening brace. -/
inductive Block where
  | mk (token : Token) (statements : List Stmt)

end

abbrev Program := List Stmt

namespace Block

def token : Block → Token
  | mk token _ => token

def statements : Block → List Stmt
  | mk _ statements => statements

end Block

namespace Stmt

def token : Stmt → Token
  | letName token _ _ => token
  | returnValue token _ => token
  | expression token _ => token
  | block body => body.token

def isLet : Stmt → Bool
  | letName .. => true
  | _ => false

/-- The expression of a statement that holds one. -/
def value? : Stmt → Option Expr
  | letName _ _ value => some value
  | returnValue _ value => some value
  | expression _ value => some value
  | block _ => none

/-- A conditional that stands as a statement becomes the block of its consequence. -/
def consequenceAlone : Stmt → Stmt
  | expression _ (.conditional _ _ consequence _) => block consequence
  | statement => statement

end Stmt

end MonkeyLang
