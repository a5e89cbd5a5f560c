import MonkeyLang.Syntax.Error
import MonkeyLang.Syntax.Tree
import MonkeyLang.Token.Outline

namespace MonkeyLang

open Text (Outline)

def Identifier.outline (identifier : Identifier) : Outline :=
  .record "Identifier" [.field "token" identifier.token.outline,
    .field "name" (.quoted identifier.name)]

/-- A node is shown as its class around the record of its fields, the token first. -/
def nodeOutline (label record : String) (token : Token) (fields : List Outline) : Outline :=
  .tuple label [.record record (.field "token" token.outline :: fields)]

mutual

def Expr.outline : Expr → Outline
  | .name identifier => .tuple "Identifier" [identifier.outline]
  | .integer token value =>
    nodeOutline "Integer" "IntegerLiteral" token [.field "value" (.leaf value.toInt.repr)]
  | .boolean token value =>
    nodeOutline "Boolean" "BooleanLiteral" token
      [.field "value" (.leaf (if value then "true" else "false"))]
  | .string token value =>
    nodeOutline "String" "StringLiteral" token [.field "value" (.quoted value)]
  | .array token items =>
    nodeOutline "Array" "ArrayLiteral" token [.field "elements" (.list (Expr.outlines items))]
  | .unary token op right =>
    nodeOutline "Prefix" "PrefixExpression" token
      [.field "operator" (.leaf op.label), .field "right" right.outline]
  | .binary token left op right =>
    nodeOutline "Infix" "InfixExpression" token
      [.field "left" left.outline, .field "operator" (.leaf op.label),
        .field "right" right.outline]
  | .conditional token condition consequence none =>
    nodeOutline "If" "IfExpression" token
      [.field "condition" condition.outline, .field "consequence" consequence.outline,
        .field "alternative" (.leaf "None")]
  | .conditional token condition consequence (some alternative) =>
    nodeOutline "If" "IfExpression" token
      [.field "condition" condition.outline, .field "consequence" consequence.outline,
        .field "alternative" (.tuple "Some" [alternative.outline])]
  | .function token parameters body =>
    nodeOutline "Function" "FunctionLiteral" token
      [.field "parameters" (.list (parameters.map Identifier.outline)),
        .field "body" body.outline]
  | .call token callee arguments =>
    nodeOutline "Call" "CallExpression" token
      [.field "function" callee.outline, .field "arguments" (.list (Expr.outlines arguments))]
  | .index token left position =>
    nodeOutline "Index" "IndexExpression" token
      [.field "left" left.outline, .field "index" position.outline]

def Expr.outlines : List Expr → List Outline
  | [] => []
  | expr :: exprs => expr.outline :: Expr.outlines exprs

def Stmt.outline : Stmt → Outline
  | .letName token name value =>
    nodeOutline "Let" "LetStatement" token
      [.field "name" name.outline, .field "value" value.outline]
  | .returnValue token value =>
    nodeOutline "Return" "ReturnStatement" token [.field "value" value.outline]
  | .expression token value =>
    nodeOutline "Expression" "ExpressionStatement" token [.field "expression" value.outline]
  | .block body => .tuple "Block" [body.outline]

def Stmt.outlines : List Stmt → List Outline
  | [] => []
  | statement :: rest => statement.outline :: Stmt.outlines rest

def Block.outline : Block → Outline
  | .mk token statements =>
    .record "BlockStatement" [.field "token" token.outline,
      .field "statements" (.list (Stmt.outlines statements))]

end

def Program.outline (program : Program) : Outline :=
  .record "Program" [.field "statements" (.list (Stmt.outlines program))]

def SyntaxError.Cause.outline : SyntaxError.Cause → Outline
  | .unexpected expected actual =>
    .record "UnexpectedToken" [.field "expected" (.leaf expected.label),
      .field "actual" (.leaf actual.label)]
  | .noOperand found => .tuple "NoPrefixParseFunction" [.leaf found.label]
  | .integerTooLarge digits => .tuple "InvalidInteger" [.quoted digits]

def SyntaxError.outline (error : SyntaxError) : Outline :=
  .record "ParserError" [.field "kind" error.cause.outline, .field "span" error.span.outline]

end MonkeyLang
