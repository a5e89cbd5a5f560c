import Mathlib.Logic.Relation
import MonkeyLang.Proofs.Evaluation.Keeps

namespace MonkeyLang

open Eval

/-- What is about to be done. -/
inductive Task where
  | expression (e : Expr)
  | expressions (es : List Expr)
  | statement (s : Stmt)
  | statements (ss : List Stmt)
  | program (program : Program)
  | application (callee : Value) (arguments : List Value)
  | binding (parameters : List Identifier) (arguments : List Value)

namespace Task

/-- Does the task, with the values that it comes to. -/
def run (limit : Nat) (scope : ScopeId) : Task → Eval (List Value)
  | expression e => do return [← evaluate (invoke limit) scope e]
  | expressions es => evaluateAll (invoke limit) scope es
  | statement s => do return [← Eval.run (invoke limit) scope s]
  | statements ss => do return [← runAll (invoke limit) scope ss]
  | program p => do return (← runProgram (invoke limit) scope p).toList
  | application callee arguments => do return [← apply (invoke limit) callee arguments]
  | binding parameters arguments => do
    declareAll scope parameters arguments
    return []

/-- The values that the task is about. -/
def values : Task → List Value
  | application callee arguments => callee :: arguments
  | binding _ arguments => arguments
  | _ => []

/-- The task comes to these values. -/
def Ends (limit : Nat) (scope : ScopeId) (store : Store) (task : Task) (values : List Value)
    (after : Store) : Prop :=
  EStateM.run (task.run limit scope) store = .ok values after

/-- A task that is done as a part of another, in the same scope, and the store in which its turn
comes. -/
inductive Part (limit : Nat) (scope : ScopeId) (store : Store) : Task → Task → Store → Prop where
  | items {token : Token} {es : List Expr} :
    Part limit scope store (expression (.array token es)) (expressions es) store
  | operand {token : Token} {op : PrefixOp} {e : Expr} :
    Part limit scope store (expression (.unary token op e)) (expression e) store
  | left {token : Token} {a b : Expr} {op : InfixOp} :
    Part limit scope store (expression (.binary token a op b)) (expression a) store
  | right {token : Token} {a b : Expr} {op : InfixOp} {value : Value} {middle : Store}
    (ha : Ends limit scope store (expression a) [value] middle) :
    Part limit scope store (expression (.binary token a op b)) (expression b) middle
  | condition {token : Token} {e : Expr} {b : Block} {alternative : Option Block} :
    Part limit scope store (expression (.conditional token e b alternative)) (expression e) store
  | consequence {token : Token} {e : Expr} {b : Block} {alternative : Option Block}
    {value : Value} {middle : Store} (he : Ends limit scope store (expression e) [value] middle)
    (ht : value.isTruthy = true) :
    Part limit scope store (expression (.conditional token e b alternative))
      (statements b.statements) middle
  | alternative {token : Token} {e : Expr} {b a : Block} {value : Value} {middle : Store}
    (he : Ends limit scope store (expression e) [value] middle) (ht : value.isTruthy = false) :
    Part limit scope store (expression (.conditional token e b (some a)))
      (statements a.statements) middle
  | callee {token : Token} {e : Expr} {es : List Expr} :
    Part limit scope store (expression (.call token e es)) (expression e) store
  | arguments {token : Token} {e : Expr} {es : List Expr} {value : Value} {middle : Store}
    (he : Ends limit scope store (expression e) [value] middle) :
    Part limit scope store (expression (.call token e es)) (expressions es) middle
  | application {token : Token} {e : Expr} {es : List Expr} {value : Value} {values : List Value}
    {middle after : Store} (he : Ends limit scope store (expression e) [value] middle)
    (hes : Ends limit scope middle (expressions es) values after) :
    Part limit scope store (expression (.call token e es)) (application value values) after
  | indexed {token : Token} {a i : Expr} :
    Part limit scope store (expression (.index token a i)) (expression a) store
  | position {token : Token} {a i : Expr} {value : Value} {middle : Store}
    (ha : Ends limit scope store (expression a) [value] middle) :
    Part limit scope store (expression (.index token a i)) (expression i) middle
  | firstItem {e : Expr} {es : List Expr} :
    Part limit scope store (expressions (e :: es)) (expression e) store
  | otherItems {e : Expr} {es : List Expr} {value : Value} {middle : Store}
    (he : Ends limit scope store (expression e) [value] middle) :
    Part limit scope store (expressions (e :: es)) (expressions es) middle
  | letName {token : Token} {name : Identifier} {e : Expr} :
    Part limit scope store (statement (.letName token name e)) (expression e) store
  | returnValue {token : Token} {e : Expr} :
    Part limit scope store (statement (.returnValue token e)) (expression e) store
  | alone {token : Token} {e : Expr} :
    Part limit scope store (statement (.expression token e)) (expression e) store
  | block {b : Block} :
    Part limit scope store (statement (.block b)) (statements b.statements) store
  | firstStatement {s : Stmt} {ss : List Stmt} :
    Part limit scope store (statements (s :: ss)) (statement s) store
  | otherStatements {s : Stmt} {ss : List Stmt} {value : Value} {middle : Store}
    (hs : Ends limit scope store (statement s) [value] middle) :
    Part limit scope store (statements (s :: ss)) (statements ss) middle
  | firstOfProgram {s : Stmt} {ss : List Stmt} :
    Part limit scope store (program (s :: ss)) (statement s) store
  | othersOfProgram {s : Stmt} {ss : List Stmt} {value : Value} {middle : Store}
    (hs : Ends limit scope store (statement s) [value] middle) :
    Part limit scope store (program (s :: ss)) (program ss) middle
  | otherParameters {x : Identifier} {xs : List Identifier} {v : Value} {vs : List Value} :
    Part limit scope store (binding (x :: xs) (v :: vs)) (binding xs vs)
      (store.declare scope x.name v)

end Task

/-- A task about to be done, with at most so many calls inside one another. -/
structure Moment where
  limit : Nat
  scope : ScopeId
  store : Store
  task : Task

namespace Moment

def outcome (moment : Moment) : EStateM.Result Exit Store (List Value) :=
  EStateM.run (moment.task.run moment.limit moment.scope) moment.store

/-- The second moment comes while the task of the first is done: it is a part of that task, or of a
call that the task is. -/
inductive Does : Moment → Moment → Prop where
  | part {limit : Nat} {scope : ScopeId} {store middle : Store} {task part : Task}
    (h : task.Part limit scope store part middle) :
    Does ⟨limit, scope, store, task⟩ ⟨limit, scope, middle, part⟩
  | parameters {limit : Nat} {scope : ScopeId} {store : Store} {identity : Nat}
    {closure : Closure} {arguments : List Value}
    (hl : arguments.length = closure.parameters.length) :
    Does ⟨limit + 1, scope, store, .application (.function identity closure) arguments⟩
      ⟨limit, (store.newScope closure.scope).1, (store.newScope closure.scope).2,
        .binding closure.parameters arguments⟩
  | body {limit : Nat} {scope : ScopeId} {store bound : Store} {identity : Nat}
    {closure : Closure} {arguments : List Value}
    (hl : arguments.length = closure.parameters.length)
    (hb : Task.Ends limit (store.newScope closure.scope).1 (store.newScope closure.scope).2
      (.binding closure.parameters arguments) [] bound) :
    Does ⟨limit + 1, scope, store, .application (.function identity closure) arguments⟩
      ⟨limit, (store.newScope closure.scope).1, bound, .statements closure.body.statements⟩

/-- The second moment comes in the course of the first. -/
def Leads : Moment → Moment → Prop := Relation.ReflTransGen Does

end Moment

end MonkeyLang
