import MonkeyLang.Token.Basic

namespace MonkeyLang

inductive PrefixOp where
  | not
  | negate
deriving DecidableEq, Repr

namespace PrefixOp

def ofKind? : Token.Kind → Option PrefixOp
  | .bang => some .not
  | .minus => some .negate
  | _ => none

def symbol : PrefixOp → String
  | .not => "!"
  | .negate => "-"

/-- The operator as debug text names it. -/
def label : PrefixOp → String
  | .not => "Bang"
  | .negate => "Minus"

end PrefixOp

inductive InfixOp where
  | add
  | subtract
  | multiply
  | divide
  | less
  | lessEqual
  | greater
  | greaterEqual
  | equal
  | notEqual
  | and
  | or
deriving DecidableEq, Repr

namespace InfixOp

def ofKind? : Token.Kind → Option InfixOp
  | .plus => some .add
  | .minus => some .subtract
  | .star => some .multiply
  | .slash => some .divide
  | .less => some .less
  | .lessEqual => some .lessEqual
  | .greater => some .greater
  | .greaterEqual => some .greaterEqual
  | .equal => some .equal
  | .notEqual => some .notEqual
  | .and => some .and
  | .or => some .or
  | _ => none

def symbol : InfixOp → String
  | .add => "+"
  | .subtract => "-"
  | .multiply => "*"
  | .divide => "/"
  | .less => "<"
  | .lessEqual => "<="
  | .greater => ">"
  | .greaterEqual => ">="
  | .equal => "=="
  | .notEqual => "!="
  | .and => "&&"
  | .or => "||"

/-- The operator as debug text names it. -/
def label : InfixOp → String
  | .add => "Add"
  | .subtract => "Subtract"
  | .multiply => "Multiply"
  | .divide => "Divide"
  | .less => "LessThan"
  | .lessEqual => "LessThanEqual"
  | .greater => "GreaterThan"
  | .greaterEqual => "GreaterThanEqual"
  | .equal => "EqualEqual"
  | .notEqual => "BangEqual"
  | .and => "And"
  | .or => "Or"

end InfixOp

/-- How tightly an operator binds its operands, from loosest to tightest. -/
inductive Strength where
  | lowest
  | equality
  | relational
  | logical
  | sum
  | product
  | unary
  | call
  | index
deriving DecidableEq, Repr

namespace Strength

def rank : Strength → Nat
  | .lowest => 0
  | .equality => 1
  | .relational => 2
  | .logical => 3
  | .sum => 4
  | .product => 5
  | .unary => 6
  | .call => 7
  | .index => 8

instance : LT Strength := ⟨fun s t => s.rank < t.rank⟩

instance (s t : Strength) : Decidable (s < t) := Nat.decLt s.rank t.rank

theorem lt_iff {s t : Strength} : s < t ↔ s.rank < t.rank := Iff.rfl

/-- The strength with which a token goes on an expression; tokens that do not go on one have the
lowest. -/
def ofKind : Token.Kind → Strength
  | .equal | .notEqual => .equality
  | .less | .lessEqual | .greater | .greaterEqual => .relational
  | .and | .or => .logical
  | .plus | .minus => .sum
  | .star | .slash => .product
  | .leftParen => .call
  | .leftBracket => .index
  | _ => .lowest

def label : Strength → String
  | .lowest => "Lowest"
  | .equality => "Equality"
  | .relational => "Relational"
  | .logical => "Logical"
  | .sum => "Sum"
  | .product => "Product"
  | .unary => "Prefix"
  | .call => "Call"
  | .index => "Index"

def all : List Strength :=
  [.lowest, .equality, .relational, .logical, .sum, .product, .unary, .call, .index]

end Strength

end MonkeyLang
