import MonkeyLang.Syntax.Canonical

namespace MonkeyLang

/-- The type of a value, as programs see it in error messages. -/
inductive Value.Tag where
  | integer
  | boolean
  | string
  | array
  | null
  | returned
  | error
  | function
  | builtin
deriving DecidableEq, Repr

def Value.Tag.text : Value.Tag → String
  | .integer => "INTEGER"
  | .boolean => "BOOLEAN"
  | .string => "STRING"
  | .array => "ARRAY"
  | .null => "NULL"
  | .returned => "RETURN_VALUE"
  | .error => "ERROR"
  | .function => "FUNCTION"
  | .builtin => "BUILTIN"

/-- The functions that names stand for where no scope binds them. -/
inductive Builtin where
  | len
  | first
  | last
  | push
deriving DecidableEq, Repr

namespace Builtin

def name : Builtin → String
  | .len => "len"
  | .first => "first"
  | .last => "last"
  | .push => "push"

def all : List Builtin := [.len, .first, .last, .push]

def ofName? (name : String) : Option Builtin := all.find? fun builtin => builtin.name == name

end Builtin

inductive RuntimeError where
  | unknownName (name : String)
  | unknownPrefix (op : PrefixOp) (operand : Value.Tag)
  | unknownInfix (left : Value.Tag) (op : InfixOp) (right : Value.Tag)
  | typeMismatch (left : Value.Tag) (op : InfixOp) (right : Value.Tag)
  | unknownIndex (left position : Value.Tag)
  | divisionByZero (dividend : Int64)
  | notCallable (callee : Value.Tag)
  | argumentCount (expected actual : Nat)
  | unsupportedArgument (builtin : Builtin) (actual : Value.Tag)
deriving DecidableEq

namespace RuntimeError

def code : RuntimeError → String
  | .unknownName _ => "RT001"
  | .unknownPrefix .. => "RT002"
  | .unknownInfix .. => "RT003"
  | .typeMismatch .. => "RT004"
  | .unknownIndex .. => "RT005"
  | .divisionByZero _ => "RT006"
  | .notCallable _ => "RT007"
  | .argumentCount .. => "RT008"
  | .unsupportedArgument .. => "RT009"

def message : RuntimeError → String
  | .unknownName name => "identifier not found: " ++ name
  | .unknownPrefix op operand => "unknown operator: " ++ op.symbol ++ operand.text
  | .unknownInfix left op right =>
    "unknown operator: " ++ left.text ++ " " ++ op.symbol ++ " " ++ right.text
  | .typeMismatch left op right =>
    "type mismatch: " ++ left.text ++ " " ++ op.symbol ++ " " ++ right.text
  | .unknownIndex left position =>
    "unknown operator: " ++ left.text ++ "[" ++ position.text ++ "]"
  | .divisionByZero dividend => "division by zero: " ++ dividend.toInt.repr ++ " / 0"
  | .notCallable callee => "not a function: " ++ callee.text
  | .argumentCount expected actual =>
    "wrong number of arguments. expected=" ++ expected.repr ++ ", actual=" ++ actual.repr
  | .unsupportedArgument builtin actual =>
    "argument to '" ++ builtin.name ++ "' method is not supported. actual=" ++ actual.text

/-- The error as sessions show it. -/
def line (error : RuntimeError) : String := "ERROR: " ++ error.message

/-- The error behind its code in brackets. -/
def codedLine (error : RuntimeError) : String := "[" ++ error.code ++ "] " ++ error.line

end RuntimeError

abbrev ScopeId := Nat

/-- A function with the scope that it was made in. -/
structure Closure where
  parameters : List Identifier
  body : Block
  scope : ScopeId

/-- Arrays and functions have an identity, given when they are made and kept when they are passed
on. A `returned` value is one on its way out of a call, and an `error` what stopped a run. -/
inductive Value where
  | integer (value : Int64)
  | boolean (value : Bool)
  | string (text : String)
  | array (identity : Nat) (items : List Value)
  | null
  | returned (value : Value)
  | error (error : RuntimeError)
  | function (identity : Nat) (closure : Closure)
  | builtin (builtin : Builtin)

namespace Value

def tag : Value → Tag
  | integer _ => .integer
  | boolean _ => .boolean
  | string _ => .string
  | array .. => .array
  | null => .null
  | returned _ => .returned
  | error _ => .error
  | function .. => .function
  | builtin _ => .builtin

/-- All values but `null` and `false` count as true. -/
def isTruthy : Value → Bool
  | null => false
  | boolean value => value
  | _ => true

def isError : Value → Bool
  | error _ => true
  | _ => false

/-- Whether two values are one and the same: by identity for arrays and functions, and never for
integers and strings. -/
def same : Value → Value → Bool
  | null, null => true
  | boolean a, boolean b => a == b
  | array i _, array j _ => i == j
  | function i _, function j _ => i == j
  | builtin a, builtin b => a.name == b.name
  | _, _ => false

mutual

/-- Equality of contents; functions have none but their identity. -/
def equal : Value → Value → Bool
  | integer a, integer b => a == b
  | string a, string b => a == b
  | array _ xs, array _ ys => equalItems xs ys
  | returned a, returned b => equal a b
  | error a, error b => a == b
  | a, b => a.same b

def equalItems : List Value → List Value → Bool
  | [], [] => true
  | x :: xs, y :: ys => equal x y && equalItems xs ys
  | _, _ => false

end

end Value

end MonkeyLang
