import MonkeyLang.Eval.Basic

namespace MonkeyLang

def PrefixOp.apply : PrefixOp → Value → Except RuntimeError Value
  | .not, right => .ok (.boolean (!right.isTruthy))
  | .negate, .integer value => .ok (.integer (-value))
  | .negate, right => .error (.unknownPrefix .negate right.tag)

namespace InfixOp

/-- Division goes toward zero. -/
def onIntegers (a b : Int64) : InfixOp → Except RuntimeError Value
  | .add => .ok (.integer (a + b))
  | .subtract => .ok (.integer (a - b))
  | .multiply => .ok (.integer (a * b))
  | .divide => if b = 0 then .error (.divisionByZero a) else .ok (.integer (a / b))
  | .less => .ok (.boolean (decide (a < b)))
  | .lessEqual => .ok (.boolean (decide (a ≤ b)))
  | .greater => .ok (.boolean (decide (b < a)))
  | .greaterEqual => .ok (.boolean (decide (b ≤ a)))
  | .equal => .ok (.boolean (a == b))
  | .notEqual => .ok (.boolean (a != b))
  | .and | .or => .ok (.boolean true)

/-- Two values that are not both integers: strings only concatenate, and values of one other type
only compare. -/
def onOthers (op : InfixOp) (left right : Value) : Except RuntimeError Value :=
  match op, left, right with
  | .add, .string a, .string b => .ok (.string (a ++ b))
  | op, left, right =>
    if left.tag ≠ right.tag then
      .error (.typeMismatch left.tag op right.tag)
    else if left.tag = .string then
      .error (.unknownInfix left.tag op right.tag)
    else
      match op with
      | .equal => .ok (.boolean (left.same right))
      | .notEqual => .ok (.boolean (!left.same right))
      | op => .error (.unknownInfix left.tag op right.tag)

def apply (op : InfixOp) (left right : Value) : Except RuntimeError Value :=
  match op with
  | .and => .ok (.boolean (left.isTruthy && right.isTruthy))
  | .or => .ok (.boolean (left.isTruthy || right.isTruthy))
  | op =>
    match left, right with
    | .integer a, .integer b => onIntegers a b op
    | left, right => onOthers op left right

end InfixOp

/-- There is nothing outside an array. -/
def Value.atIndex : Value → Value → Except RuntimeError Value
  | .array _ items, .integer i =>
    .ok (if i < 0 then .null else items.getD i.toInt.toNat .null)
  | left, position => .error (.unknownIndex left.tag position.tag)

namespace Builtin

/-- A character that is one byte, and for a byte of a longer one the replacement character. -/
def ofByteIn (c : Char) : Value :=
  .string (String.singleton (if c.utf8Size = 1 then c else '\ufffd'))

def oneArgument : List Value → Except RuntimeError Value
  | [argument] => .ok argument
  | arguments => .error (.argumentCount 1 arguments.length)

/-- The length of a string is counted in bytes. -/
def length : Value → Except RuntimeError Value
  | .string text => .ok (.integer (Int64.ofNat text.utf8ByteSize))
  | .array _ items => .ok (.integer (Int64.ofNat items.length))
  | other => .error (.unsupportedArgument .len other.tag)

/-- Of a string, its first byte. -/
def firstOf : Value → Except RuntimeError Value
  | .string text => .ok ((text.toList.head?.map ofByteIn).getD .null)
  | .array _ items => .ok (items.head?.getD .null)
  | other => .error (.unsupportedArgument .first other.tag)

/-- Of a string, its last byte. -/
def lastOf : Value → Except RuntimeError Value
  | .string text => .ok ((text.toList.getLast?.map ofByteIn).getD .null)
  | .array _ items => .ok (items.getLast?.getD .null)
  | other => .error (.unsupportedArgument .last other.tag)

/-- The items of an array with one more behind them. -/
def pushed : List Value → Except RuntimeError (List Value)
  | [.array _ items, value] => .ok (items ++ [value])
  | [other, _] => .error (.unsupportedArgument .push other.tag)
  | arguments => .error (.argumentCount 2 arguments.length)

end Builtin

namespace Eval

def ofExcept {α : Type} : Except RuntimeError α → Eval α
  | .ok a => return a
  | .error error => fail error

def callBuiltin (builtin : Builtin) (arguments : List Value) : Eval Value :=
  match builtin with
  | .len => ofExcept (Builtin.oneArgument arguments >>= Builtin.length)
  | .first => ofExcept (Builtin.oneArgument arguments >>= Builtin.firstOf)
  | .last => ofExcept (Builtin.oneArgument arguments >>= Builtin.lastOf)
  | .push => do newArray (← ofExcept (Builtin.pushed arguments))

end Eval

end MonkeyLang
