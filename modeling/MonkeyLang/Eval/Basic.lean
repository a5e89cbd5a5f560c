import MonkeyLang.Store.Basic

namespace MonkeyLang

/-- Why evaluation ends early. -/
inductive Exit where
  | returned (value : Value)
  | failed (error : RuntimeError)
  | tooDeep

abbrev Eval := EStateM Exit Store

namespace Eval

def fail {α : Type} (error : RuntimeError) : Eval α := throw (.failed error)

def newScope (parent : ScopeId) : Eval ScopeId := modifyGet fun store => store.newScope parent

def declare (scope : ScopeId) (name : String) (value : Value) : Eval Unit :=
  modify fun store => store.declare scope name value

def newArray (items : List Value) : Eval Value := modifyGet fun store => store.newArray items

def newFunction (closure : Closure) : Eval Value := modifyGet fun store => store.newFunction closure

/-- Binds names to values one by one, the first to the first. -/
def declareAll (scope : ScopeId) : List Identifier → List Value → Eval Unit
  | parameter :: parameters, value :: values => do
    declare scope parameter.name value
    declareAll scope parameters values
  | _, _ => return ()

/-- The end of a call: a value on its way out is the value of the call. -/
def catchReturn (body : Eval Value) : Eval Value := fun store =>
  match body store with
  | .error (.returned value) after => .ok value after
  | result => result

/-- What a name stands for: a binding of the nearest scope that has one, or else a builtin. -/
def resolve (scope : ScopeId) (name : String) : Eval Value := do
  match (← get).access scope name with
  | some value => return value
  | none =>
    match Builtin.ofName? name with
    | some builtin => return .builtin builtin
    | none => fail (.unknownName name)

end Eval

end MonkeyLang
