import MonkeyLang.Eval.Operation

namespace MonkeyLang.Eval

/-- A way to call functions. -/
abbrev Call := Closure → List Value → Eval Value

/-- The value of a call. Its arguments are evaluated before it shows whether the callee is a
function. -/
def apply (call : Call) (callee : Value) (arguments : List Value) : Eval Value :=
  match callee with
  | .function _ closure => call closure arguments
  | .builtin builtin => callBuiltin builtin arguments
  | other => fail (.notCallable other.tag)

mutual

/-- Operands, items and arguments are evaluated from left to right, and every operator has both its
operands evaluated. -/
def evaluate (call : Call) (scope : ScopeId) : Expr → Eval Value
  | .name identifier => resolve scope identifier.name
  | .integer _ value => return .integer value
  | .boolean _ value => return .boolean value
  | .string _ value => return .string value
  | .array _ items => do newArray (← evaluateAll call scope items)
  | .unary _ op right => do ofExcept (op.apply (← evaluate call scope right))
  | .binary _ left op right => do
    let a ← evaluate call scope left
    let b ← evaluate call scope right
    ofExcept (op.apply a b)
  | .conditional _ condition consequence none => do
    if (← evaluate call scope condition).isTruthy then
      runBlock call scope consequence
    else
      return .null
  | .conditional _ condition consequence (some alternative) => do
    if (← evaluate call scope condition).isTruthy then
      runBlock call scope consequence
    else
      runBlock call scope alternative
  | .function _ parameters body => newFunction ⟨parameters, body, scope⟩
  | .call _ callee arguments => do
    let f ← evaluate call scope callee
    let values ← evaluateAll call scope arguments
    apply call f values
  | .index _ left position => do
    let a ← evaluate call scope left
    let i ← evaluate call scope position
    ofExcept (a.atIndex i)

def evaluateAll (call : Call) (scope : ScopeId) : List Expr → Eval (List Value)
  | [] => return []
  | expr :: exprs => do
    let value ← evaluate call scope expr
    let values ← evaluateAll call scope exprs
    return value :: values

/-- A statement's value is that of its expression; a `let` has none but `null`. -/
def run (call : Call) (scope : ScopeId) : Stmt → Eval Value
  | .letName _ name value => do
    declare scope name.name (← evaluate call scope value)
    return .null
  | .returnValue _ value => do throw (.returned (← evaluate call scope value))
  | .expression _ value => evaluate call scope value
  | .block body => runBlock call scope body

/-- The value of the last statement, or `null` without one. -/
def runAll (call : Call) (scope : ScopeId) : List Stmt → Eval Value
  | [] => return .null
  | [statement] => run call scope statement
  | statement :: next :: rest => do
    let _ ← run call scope statement
    runAll call scope (next :: rest)

/-- A block opens no scope of its own. -/
def runBlock (call : Call) (scope : ScopeId) : Block → Eval Value
  | .mk _ statements => runAll call scope statements

end

/-- Calls a function, with at most `n` calls inside one another. The parameters are bound in a new
scope inside the one that the function was made in. -/
def invoke : Nat → Call
  | 0, _, _ => throw .tooDeep
  | n + 1, closure, arguments =>
    if arguments.length = closure.parameters.length then do
      let scope ← newScope closure.scope
      declareAll scope closure.parameters arguments
      catchReturn (runBlock (invoke n) scope closure.body)
    else
      fail (.argumentCount closure.parameters.length arguments.length)

/-- The value of a program: none if its last statement is a `let` or if it has no statement. -/
def runProgram (call : Call) (scope : ScopeId) : Program → Eval (Option Value)
  | [] => return none
  | [statement] => do
    let value ← run call scope statement
    return if statement.isLet then none else some value
  | statement :: next :: rest => do
    let _ ← run call scope statement
    runProgram call scope (next :: rest)

end MonkeyLang.Eval
