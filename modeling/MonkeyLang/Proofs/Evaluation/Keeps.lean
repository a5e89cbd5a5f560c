import MonkeyLang.Eval.Run

namespace MonkeyLang.Eval

variable {α β : Type} {R : Store → Store → Prop}

/-- The store behind a run, however it ends. -/
def final (x : Eval α) (store : Store) : Store :=
  match EStateM.run x store with
  | .ok _ after => after
  | .error _ after => after

theorem final_bind (x : Eval α) (f : α → Eval β) (store : Store) :
    (x >>= f).final store =
      match EStateM.run x store with
      | .ok a after => (f a).final after
      | .error _ after => after := by
  unfold final
  rw [EStateM.run_bind]
  cases EStateM.run x store <;> rfl

theorem run_catchReturn (body : Eval Value) (store : Store) :
    EStateM.run (catchReturn body) store =
      match EStateM.run body store with
      | .error (.returned value) after => .ok value after
      | result => result := rfl

/-- However the run ends, the stores before and behind it are related. -/
def Keeps (R : Store → Store → Prop) (x : Eval α) : Prop := ∀ store, R store (x.final store)

theorem Keeps.mono {R' : Store → Store → Prop} {x : Eval α} (h : Keeps R x)
    (hr : ∀ before after, R before after → R' before after) : Keeps R' x :=
  fun store => hr _ _ (h store)

theorem final_of_ok {x : Eval α} {store after : Store} {a : α}
    (h : EStateM.run x store = .ok a after) : x.final store = after := by
  unfold final
  rw [h]

theorem final_of_error {x : Eval α} {store after : Store} {exit : Exit}
    (h : EStateM.run x store = .error exit after) : x.final store = after := by
  unfold final
  rw [h]

theorem Keeps.bind {x : Eval α} {f : α → Eval β} (trans : ∀ {a b c}, R a b → R b c → R a c)
    (hx : Keeps R x) (hf : ∀ a, Keeps R (f a)) : Keeps R (x >>= f) := by
  intro store
  have h := hx store
  rw [final_bind]
  cases hr : EStateM.run x store with
  | ok a after =>
    rw [final_of_ok hr] at h
    exact trans h (hf a after)
  | error e after => rwa [final_of_error hr] at h

/-- What evaluation in a scope may do to the store in a single step. -/
structure Discipline (R : Store → Store → Prop) (call : Call) (scope : ScopeId) : Prop where
  refl : ∀ store, R store store
  trans : ∀ {a b c}, R a b → R b c → R a c
  count : ∀ store : Store, R store { store with created := store.created + 1 }
  declare : ∀ store name value, R store (store.declare scope name value)
  call : ∀ closure arguments, Keeps R (call closure arguments)

namespace Discipline

variable {call : Call} {scope : ScopeId}

section

variable (d : Discipline R call scope)
include d

theorem bind {x : Eval α} {f : α → Eval β} (hx : Keeps R x) (hf : ∀ a, Keeps R (f a)) :
    Keeps R (x >>= f) := hx.bind d.trans hf

theorem fail (error : RuntimeError) : Keeps R (fail error : Eval α) := d.refl

theorem newArray (items : List Value) : Keeps R (newArray items) := d.count

theorem newFunction (closure : Closure) : Keeps R (newFunction closure) := d.count

theorem resolve (name : String) : Keeps R (resolve scope name) := by
  unfold Eval.resolve
  refine d.bind d.refl fun store => ?_
  split
  · exact d.refl
  · split
    · exact d.refl
    · exact d.fail _

theorem ofExcept (result : Except RuntimeError α) : Keeps R (ofExcept result) := by
  cases result with
  | ok a => exact d.refl
  | error error => exact d.fail _

theorem callBuiltin (builtin : Builtin) (arguments : List Value) :
    Keeps R (callBuiltin builtin arguments) := by
  cases builtin with
  | push => exact d.bind (d.ofExcept _) d.newArray
  | _ => exact d.ofExcept _

theorem apply (callee : Value) (arguments : List Value) :
    Keeps R (apply call callee arguments) := by
  unfold Eval.apply
  split
  · exact d.call _ _
  · exact d.callBuiltin _ _
  · exact d.fail _

end

mutual

theorem evaluate (d : Discipline R call scope) : ∀ e : Expr, Keeps R (evaluate call scope e)
  | .name x => d.resolve x.name
  | .integer _ _ => d.refl
  | .boolean _ _ => d.refl
  | .string _ _ => d.refl
  | .array _ items => by
    rw [Eval.evaluate]
    exact d.bind (d.evaluateAll items) d.newArray
  | .unary _ op right => by
    rw [Eval.evaluate]
    exact d.bind (d.evaluate right) fun value => d.ofExcept _
  | .binary _ left op right => by
    rw [Eval.evaluate]
    refine d.bind (d.evaluate left) fun a => ?_
    exact d.bind (d.evaluate right) fun b => d.ofExcept _
  | .conditional _ condition consequence none => by
    rw [Eval.evaluate]
    refine d.bind (d.evaluate condition) fun value => ?_
    split
    · exact d.runBlock consequence
    · exact d.refl
  | .conditional _ condition consequence (some alternative) => by
    rw [Eval.evaluate]
    refine d.bind (d.evaluate condition) fun value => ?_
    split
    · exact d.runBlock consequence
    · exact d.runBlock alternative
  | .function _ parameters body => by
    rw [Eval.evaluate]
    exact d.newFunction _
  | .call _ callee arguments => by
    rw [Eval.evaluate]
    refine d.bind (d.evaluate callee) fun f => ?_
    exact d.bind (d.evaluateAll arguments) fun values => d.apply f values
  | .index _ left position => by
    rw [Eval.evaluate]
    refine d.bind (d.evaluate left) fun a => ?_
    exact d.bind (d.evaluate position) fun i => d.ofExcept _

theorem evaluateAll (d : Discipline R call scope) :
    ∀ es : List Expr, Keeps R (evaluateAll call scope es)
  | [] => d.refl
  | e :: es => by
    rw [Eval.evaluateAll]
    refine d.bind (d.evaluate e) fun value => ?_
    exact d.bind (d.evaluateAll es) fun values => d.refl

theorem run (d : Discipline R call scope) : ∀ s : Stmt, Keeps R (run call scope s)
  | .letName _ name value => by
    rw [Eval.run]
    refine d.bind (d.evaluate value) fun v => ?_
    exact d.bind (fun store => d.declare store name.name v) fun _ => d.refl
  | .returnValue _ value => by
    rw [Eval.run]
    exact d.bind (d.evaluate value) fun v => d.refl
  | .expression _ value => by
    rw [Eval.run]
    exact d.evaluate value
  | .block body => by
    rw [Eval.run]
    exact d.runBlock body

theorem runAll (d : Discipline R call scope) : ∀ ss : List Stmt, Keeps R (runAll call scope ss)
  | [] => d.refl
  | [s] => by
    rw [Eval.runAll]
    exact d.run s
  | s :: next :: rest => by
    rw [Eval.runAll]
    exact d.bind (d.run s) fun _ => d.runAll (next :: rest)

theorem runBlock (d : Discipline R call scope) : ∀ b : Block, Keeps R (runBlock call scope b)
  | .mk _ statements => by
    rw [Eval.runBlock]
    exact d.runAll statements

end

theorem runProgram (d : Discipline R call scope) :
    ∀ program : Program, Keeps R (runProgram call scope program)
  | [] => d.refl
  | [s] => by
    rw [Eval.runProgram]
    exact d.bind (d.run s) fun _ => d.refl
  | s :: next :: rest => by
    rw [Eval.runProgram]
    exact d.bind (d.run s) fun _ => d.runProgram (next :: rest)

end Discipline

end MonkeyLang.Eval
