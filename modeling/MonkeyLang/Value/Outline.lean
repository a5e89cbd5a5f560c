import MonkeyLang.Syntax.Outline
import MonkeyLang.Value.Basic

namespace MonkeyLang

open Text (Outline)

namespace Value.Tag

/-- The tag as debug text names it. -/
def label : Value.Tag → String
  | .integer => "Integer"
  | .boolean => "Boolean"
  | .string => "String"
  | .array => "Array"
  | .null => "Null"
  | .returned => "ReturnValue"
  | .error => "Error"
  | .function => "Function"
  | .builtin => "BuiltIn"

def outline (tag : Value.Tag) : Outline := .leaf tag.label

end Value.Tag

namespace Builtin

def label : Builtin → String
  | .len => "NativeLen"
  | .first => "NativeFirst"
  | .last => "NativeLast"
  | .push => "NativePush"

end Builtin

namespace RuntimeError

def outline : RuntimeError → Outline
  | .unknownName name => .tuple "UnknownIdentifier" [.quoted name]
  | .unknownPrefix op operand =>
    .record "UnknownPrefixOperator" [.field "operator" (.leaf op.label),
      .field "operand" operand.outline]
  | .unknownInfix left op right => ofOperands "UnknownInfixOperator" left op right
  | .typeMismatch left op right => ofOperands "TypeMismatch" left op right
  | .unknownIndex left position =>
    .record "UnknownIndexOperator" [.field "left" left.outline, .field "index" position.outline]
  | .divisionByZero dividend => .tuple "DivisionByZero" [.leaf dividend.toInt.repr]
  | .notCallable callee => .tuple "NotCallable" [callee.outline]
  | .argumentCount expected actual =>
    .record "InvalidArgumentCount" [.field "expected" (.nat expected),
      .field "actual" (.nat actual)]
  | .unsupportedArgument builtin actual =>
    .record "UnsupportedArgument" [.field "name" (.quoted builtin.name),
      .field "actual" actual.outline]
where
  ofOperands (label : String) (left : Value.Tag) (op : InfixOp) (right : Value.Tag) : Outline :=
    .record label [.field "left" left.outline, .field "operator" (.leaf op.label),
      .field "right" right.outline]

end RuntimeError

/-- The scope of a function is left out. -/
def Closure.outline (closure : Closure) : Outline :=
  .node .partialRecord "Function"
    [.field "parameters" (.list (closure.parameters.map Identifier.outline)),
      .field "body" closure.body.outline]

namespace Value

mutual

def outline : Value → Outline
  | integer value => .tuple "Integer" [.leaf value.toInt.repr]
  | boolean value => .tuple "Boolean" [.leaf (if value then "true" else "false")]
  | string text => .tuple "String" [.quoted text]
  | array _ items => .tuple "Array" [.list (outlines items)]
  | null => .leaf "Null"
  | returned value => .tuple "ReturnValue" [outline value]
  | error e => .tuple "Error" [e.outline]
  | function _ closure => .tuple "Function" [closure.outline]
  | builtin b => .tuple "BuiltIn" [.leaf b.label]

def outlines : List Value → List Outline
  | [] => []
  | value :: values => outline value :: outlines values

end

end Value

end MonkeyLang
