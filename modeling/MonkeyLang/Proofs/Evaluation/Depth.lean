import MonkeyLang.Proofs.Evaluation.Carriers

namespace MonkeyLang

open Eval

namespace Eval

variable {α β : Type}

/-- The second run goes on as the first does, unless calls are nested too deeply for the first. -/
def Extends (x y : Eval α) : Prop :=
  ∀ store, (∀ after, EStateM.run x store ≠ .error .tooDeep after) →
    EStateM.run y store = EStateM.run x store

theorem Extends.refl (x : Eval α) : Extends x x := fun _ _ => rfl

theorem Extends.bind {x y : Eval α} {f g : α → Eval β} (hx : Extends x y)
    (hf : ∀ a, Extends (f a) (g a)) : Extends (x >>= f) (y >>= g) := by
  intro store hne
  rw [EStateM.run_bind] at hne
  rw [EStateM.run_bind, EStateM.run_bind]
  have hrun : EStateM.run y store = EStateM.run x store := by
    refine hx store fun after hdeep => ?_
    rw [hdeep] at hne
    exact hne after rfl
  rw [hrun]
  cases hr : EStateM.run x store with
  | ok a middle =>
    rw [hr] at hne
    exact hf a middle hne
  | error exit after => rfl

theorem Extends.catchReturn {x y : Eval Value} (h : Extends x y) :
    Extends (catchReturn x) (catchReturn y) := by
  intro store hne
  rw [run_catchReturn] at hne
  rw [run_catchReturn, run_catchReturn]
  have hrun : EStateM.run y store = EStateM.run x store := by
    refine h store fun after hdeep => ?_
    rw [hdeep] at hne
    exact hne after rfl
  rw [hrun]

/-- The second way to call functions goes on as the first does. -/
def CallExtends (call deeper : Call) : Prop :=
  ∀ closure arguments, Extends (call closure arguments) (deeper closure arguments)

variable {call deeper : Call}

theorem extends_apply (hcall : CallExtends call deeper) (callee : Value) (arguments : List Value) :
    Extends (apply call callee arguments) (apply deeper callee arguments) := by
  cases callee with
  | function identity closure => exact hcall closure arguments
  | _ => exact .refl _

mutual

theorem extends_evaluate (hcall : CallExtends call deeper) (scope : ScopeId) :
    ∀ e : Expr, Extends (evaluate call scope e) (evaluate deeper scope e)
  | .name _ | .integer .. | .boolean .. | .string .. | .function .. => by
    rw [evaluate, evaluate]
    exact .refl _
  | .array _ items => by
    rw [evaluate, evaluate]
    exact (extends_evaluateAll hcall scope items).bind fun _ => .refl _
  | .unary _ _ right => by
    rw [evaluate, evaluate]
    exact (extends_evaluate hcall scope right).bind fun _ => .refl _
  | .binary _ left _ right => by
    rw [evaluate, evaluate]
    refine (extends_evaluate hcall scope left).bind fun _ => ?_
    exact (extends_evaluate hcall scope right).bind fun _ => .refl _
  | .conditional _ condition consequence none => by
    rw [evaluate, evaluate]
    refine (extends_evaluate hcall scope condition).bind fun _ => ?_
    split
    · exact extends_runBlock hcall scope consequence
    · exact .refl _
  | .conditional _ condition consequence (some alternative) => by
    rw [evaluate, evaluate]
    refine (extends_evaluate hcall scope condition).bind fun _ => ?_
    split
    · exact extends_runBlock hcall scope consequence
    · exact extends_runBlock hcall scope alternative
  | .call _ callee arguments => by
    rw [evaluate, evaluate]
    refine (extends_evaluate hcall scope callee).bind fun value => ?_
    exact (extends_evaluateAll hcall scope arguments).bind fun values =>
      extends_apply hcall value values
  | .index _ left position => by
    rw [evaluate, evaluate]
    refine (extends_evaluate hcall scope left).bind fun _ => ?_
    exact (extends_evaluate hcall scope position).bind fun _ => .refl _

theorem extends_evaluateAll (hcall : CallExtends call deeper) (scope : ScopeId) :
    ∀ es : List Expr, Extends (evaluateAll call scope es) (evaluateAll deeper scope es)
  | [] => by
    rw [evaluateAll, evaluateAll]
    exact .refl _
  | e :: es => by
    rw [evaluateAll, evaluateAll]
    refine (extends_evaluate hcall scope e).bind fun _ => ?_
    exact (extends_evaluateAll hcall scope es).bind fun _ => .refl _

theorem extends_run (hcall : CallExtends call deeper) (scope : ScopeId) :
    ∀ s : Stmt, Extends (run call scope s) (run deeper scope s)
  | .letName _ _ value => by
    rw [run, run]
    exact (extends_evaluate hcall scope value).bind fun _ => .refl _
  | .returnValue _ value => by
    rw [run, run]
    exact (extends_evaluate hcall scope value).bind fun _ => .refl _
  | .expression _ value => by
    rw [run, run]
    exact extends_evaluate hcall scope value
  | .block body => by
    rw [run, run]
    exact extends_runBlock hcall scope body

theorem extends_runAll (hcall : CallExtends call deeper) (scope : ScopeId) :
    ∀ ss : List Stmt, Extends (runAll call scope ss) (runAll deeper scope ss)
  | [] => by
    rw [runAll, runAll]
    exact .refl _
  | [s] => by
    rw [runAll, runAll]
    exact extends_run hcall scope s
  | s :: next :: rest => by
    rw [runAll, runAll]
    exact (extends_run hcall scope s).bind fun _ => extends_runAll hcall scope (next :: rest)

theorem extends_runBlock (hcall : CallExtends call deeper) (scope : ScopeId) :
    ∀ b : Block, Extends (runBlock call scope b) (runBlock deeper scope b)
  | .mk _ statements => by
    rw [runBlock, runBlock]
    exact extends_runAll hcall scope statements

end

theorem extends_runProgram (hcall : CallExtends call deeper) (scope : ScopeId) :
    ∀ program : Program, Extends (runProgram call scope program) (runProgram deeper scope program)
  | [] => by
    rw [runProgram, runProgram]
    exact .refl _
  | [s] => by
    rw [runProgram, runProgram]
    exact (extends_run hcall scope s).bind fun _ => .refl _
  | s :: next :: rest => by
    rw [runProgram, runProgram]
    exact (extends_run hcall scope s).bind fun _ =>
      extends_runProgram hcall scope (next :: rest)

/-- One call more inside one another changes no call that was not given up. -/
theorem invoke_extends_succ (n : Nat) : CallExtends (invoke n) (invoke (n + 1)) := by
  induction n with
  | zero => exact fun _ _ store hne => absurd rfl (hne store)
  | succ n ih =>
    intro closure arguments
    rw [invoke, invoke]
    split
    · refine (Extends.refl _).bind fun scope => (Extends.refl _).bind fun _ => ?_
      exact (extends_runBlock ih scope closure.body).catchReturn
    · exact .refl _

theorem Extends.trans {x y z : Eval α} (hx : Extends x y) (hy : Extends y z) : Extends x z := by
  intro store hne
  have hrun := hx store hne
  rw [hy store (hrun ▸ hne), hrun]

theorem invoke_extends {n m : Nat} (h : n ≤ m) : CallExtends (invoke n) (invoke m) := by
  intro closure arguments
  induction h with
  | refl => exact .refl _
  | step _ ih => exact ih.trans (invoke_extends_succ _ closure arguments)

end Eval

theorem Task.run_extends {n m : Nat} (h : n ≤ m) (scope : ScopeId) (task : Task) :
    Extends (task.run n scope) (task.run m scope) := by
  have hcall := invoke_extends h
  cases task with
  | expression e => exact (extends_evaluate hcall scope e).bind fun _ => .refl _
  | expressions es => exact extends_evaluateAll hcall scope es
  | statement s => exact (extends_run hcall scope s).bind fun _ => .refl _
  | statements ss => exact (extends_runAll hcall scope ss).bind fun _ => .refl _
  | program p => exact (extends_runProgram hcall scope p).bind fun _ => .refl _
  | application callee arguments =>
    exact (extends_apply hcall callee arguments).bind fun _ => .refl _
  | binding parameters arguments => exact .refl _

namespace Session

/-- What is answered without giving up is answered at every higher limit, too, and leaves the same
behind. -/
theorem perform_of_le {n m : Nat} (h : n ≤ m) {session later : Session} {request : Request}
    {answer : Answer} (hne : answer ≠ .tooDeep)
    (hr : session.perform n request = (.answer answer, later)) :
    session.perform m request = (.answer answer, later) := by
  cases ht : request.task? with
  | none =>
    obtain ⟨errors, he⟩ := perform_none session n ht
    rw [he] at hr
    cases hr
  | some task =>
    rw [perform_some ht] at hr
    obtain ⟨hanswer, hlater⟩ := Prod.mk.inj hr
    have hrun : Moment.outcome ⟨m, session.scope, session.store, task⟩ =
        Moment.outcome ⟨n, session.scope, session.store, task⟩ := by
      refine task.run_extends h session.scope session.store fun last hdeep => hne ?_
      have houtcome : Moment.outcome ⟨n, session.scope, session.store, task⟩ =
        .error .tooDeep last := hdeep
      rw [houtcome] at hanswer
      exact (Response.answer.inj hanswer).symm
    have hafter : Moment.after ⟨m, session.scope, session.store, task⟩ =
        Moment.after ⟨n, session.scope, session.store, task⟩ := by
      simp only [Moment.outcome] at hrun
      simp only [Moment.after, final, hrun]
    rw [perform_some ht, hrun, hafter, hanswer, hlater]

end Session

end MonkeyLang
