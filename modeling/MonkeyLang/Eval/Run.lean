import MonkeyLang.Eval.Tree

namespace MonkeyLang

/-- What a run answers: a value, no value, or that calls were nested too deeply. -/
inductive Answer where
  | value (value : Value)
  | none
  | tooDeep

namespace Answer

/-- The value, with `null` where there is none. -/
def orNull : Answer → Answer
  | none => value .null
  | answer => answer

end Answer

/-- How many calls may be nested; a run that goes deeper is given up. -/
def callLimit : Nat := 10000

/-- Runs a program. Here a `return` outside functions ends the program with its value. -/
def Program.run (limit : Nat) (program : Program) (scope : ScopeId) (store : Store) :
    Answer × Store :=
  match Eval.runProgram (Eval.invoke limit) scope program store with
  | .ok (some value) after => (.value value, after)
  | .ok none after => (.none, after)
  | .error (.returned value) after => (.value value, after)
  | .error (.failed error) after => (.value (.error error), after)
  | .error .tooDeep after => (.tooDeep, after)

namespace Eval

/-- The answer of a statement or an expression. -/
def answer (eval : Eval Value) (store : Store) : Answer × Store :=
  match eval store with
  | .ok value after => (.value value, after)
  | .error (.returned value) after => (.value (.returned value), after)
  | .error (.failed error) after => (.value (.error error), after)
  | .error .tooDeep after => (.tooDeep, after)

end Eval

def Stmt.run (limit : Nat) (statement : Stmt) (scope : ScopeId) : Store → Answer × Store :=
  Eval.answer (Eval.run (Eval.invoke limit) scope statement)

def Expr.run (limit : Nat) (expr : Expr) (scope : ScopeId) : Store → Answer × Store :=
  Eval.answer (Eval.evaluate (Eval.invoke limit) scope expr)

end MonkeyLang
