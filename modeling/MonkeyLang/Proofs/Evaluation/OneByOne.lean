import MonkeyLang.Proofs.Evaluation.Depth
import MonkeyLang.Proofs.Evaluation.EarlyExit

namespace MonkeyLang

open Eval

/-- What a statement that answers this stops its program with: the value that it returned, or its
runtime error. -/
def Value.stopping? : Value → Option Value
  | .returned value => some value
  | .error reason => some (.error reason)
  | _ => none

theorem Value.Plain.stopping? {value : Value} (h : value.Plain) : value.stopping? = none := by
  cases value with
  | returned inner => exact absurd (.returned inner) h
  | error reason => exact absurd (.error reason) h
  | _ => rfl

/-- What a program answers whose statements have answered this one by one. -/
def Program.answerOf (program : Program) (values : List Value) : Answer :=
  match values.getLast? with
  | none => .none
  | some last =>
    match last.stopping? with
    | some value => .value value
    | none => if program.getLast?.any Stmt.isLet then .none else .value last

theorem Program.answerOf_ne_tooDeep (program : Program) (values : List Value) :
    program.answerOf values ≠ .tooDeep := by
  unfold answerOf
  split
  · nofun
  · split
    · nofun
    · split <;> nofun

theorem Program.answerOf_stops (s : Stmt) (rest : Program) {value stopping : Value}
    (hv : value.stopping? = some stopping) : answerOf (s :: rest) [value] = .value stopping := by
  simp [answerOf, hv]

theorem Program.answerOf_single (s : Stmt) {value : Value} (hv : value.stopping? = none) :
    answerOf [s] [value] = if s.isLet then .none else .value value := by
  cases hlet : s.isLet <;> simp [answerOf, hv, hlet]

/-- The last answer decides. -/
theorem Program.answerOf_cons (s : Stmt) {rest : Program} (value : Value) {values : List Value}
    (hrest : rest ≠ []) (hvalues : values ≠ []) :
    answerOf (s :: rest) (value :: values) = answerOf rest values := by
  obtain ⟨next, behind, rfl⟩ := List.exists_cons_of_ne_nil hrest
  obtain ⟨other, others, rfl⟩ := List.exists_cons_of_ne_nil hvalues
  simp only [answerOf, List.getLast?_cons_cons]

namespace Eval

variable {call : Call} {scope : ScopeId} {store after : Store} {s : Stmt} {value : Value}

theorem runProgram_single (h : EStateM.run (run call scope s) store = .ok value after) :
    runProgram call scope [s] store = .ok (if s.isLet then none else some value) after := by
  have hrun := run_bind_of_ok (f := fun v => return if s.isLet then none else some v) h
  rw [← runProgram] at hrun
  exact hrun

theorem runProgram_next (h : EStateM.run (run call scope s) store = .ok value after) (next : Stmt)
    (rest : List Stmt) : runProgram call scope (s :: next :: rest) store =
      runProgram call scope (next :: rest) after := by
  have hrun := run_bind_of_ok (f := fun _ => runProgram call scope (next :: rest)) h
  rw [← runProgram] at hrun
  exact hrun

end Eval

namespace Session

/-- What is asked for is answered so, whatever the limit on nested calls if it is high enough. -/
def Yields (session : Session) (request : Request) (answer : Answer) (later : Session) : Prop :=
  answer ≠ .tooDeep ∧
    ∃ limit, ∀ n, limit ≤ n → session.perform n request = (.answer answer, later)

/-- The statements of a program, each evaluated on its own in the environment that the one before
has left behind, with their answers up to the first that stops a program. -/
inductive OneByOne : Session → Program → List Value → Session → Prop where
  | done {session : Session} : OneByOne session [] [] session
  | stops {session last : Session} {s : Stmt} {rest : Program} {value stopping : Value}
    (hs : session.Yields (.statement s) (.value value) last)
    (hv : value.stopping? = some stopping) : OneByOne session (s :: rest) [value] last
  | goesOn {session later last : Session} {s : Stmt} {rest : Program} {value : Value}
    {values : List Value} (hs : session.Yields (.statement s) (.value value) later)
    (hv : value.stopping? = none) (hrest : OneByOne later rest values last) :
    OneByOne session (s :: rest) (value :: values) last

variable {session later last : Session} {request : Request} {answer : Answer} {n : Nat}

/-- One limit is enough to tell. -/
theorem yields_of_perform (hne : answer ≠ .tooDeep)
    (h : session.perform n request = (.answer answer, later)) :
    session.Yields request answer later :=
  ⟨hne, n, fun _ hle => perform_of_le hle hne h⟩

theorem OneByOne.ne_nil {program : Program} {values : List Value}
    (h : session.OneByOne program values last) (hne : program ≠ []) : values ≠ [] := by
  cases h with
  | done => exact absurd rfl hne
  | stops => exact List.cons_ne_nil _ _
  | goesOn => exact List.cons_ne_nil _ _

/-- A statement on its own always has a value. -/
theorem perform_statement_ne_none (session : Session) (n : Nat) (s : Stmt) (later : Session) :
    session.perform n (.statement s) ≠ (.answer .none, later) := by
  intro h
  simp only [perform, Stmt.run, Eval.answer] at h
  rcases hr : Eval.run (invoke n) session.scope s session.store with
    ⟨value, after⟩ | ⟨_ | _ | _, after⟩ <;> simp [hr] at h

section
variable {inside : ScopeId → Prop}

/-- A program is its first statement and, unless that one stops it, the others. -/
theorem perform_program_cons (hs : inside session.scope) (hstore : session.store.Holds inside)
    (n : Nat) (s : Stmt) (rest : Program) :
    session.perform n (.program (s :: rest)) =
      match session.perform n (.statement s) with
      | (.answer (.value value), later) =>
        match value.stopping? with
        | some stopping => (.answer (.value stopping), later)
        | none =>
          if rest.isEmpty then (.answer (if s.isLet then .none else .value value), later)
          else later.perform n (.program rest)
      | other => other := by
  have hvalues : ∀ value ∈ (Task.statement s).values, value.Within inside := nofun
  have hleaves := leaves_task n hs hvalues hstore
  simp only [Task.run, EStateM.run_bind] at hleaves
  simp only [perform, Stmt.run, Eval.answer, Program.run]
  cases hr : EStateM.run (Eval.run (invoke n) session.scope s) session.store with
  | error exit after =>
    have hrun : Eval.run (invoke n) session.scope s session.store = .error exit after := hr
    have hnone : EStateM.run (runAll (invoke n) session.scope []) session.store =
        .ok .null session.store := rfl
    have hprogram : runProgram (invoke n) session.scope (s :: rest) session.store =
        .error exit after := runProgram_exit rest hnone hr
    rw [hrun, hprogram]
    cases exit <;> rfl
  | ok value after =>
    have hrun : Eval.run (invoke n) session.scope s session.store = .ok value after := hr
    rw [hr] at hleaves
    have hplain : value.stopping? = none := (hleaves.2 value (by simp)).plain.stopping?
    rw [hrun]
    dsimp only
    rw [hplain]
    cases rest with
    | nil =>
      rw [runProgram_single hr]
      cases s.isLet <;> rfl
    | cons next behind =>
      rw [runProgram_next hr]
      rfl

/-- Where the statements are answered one by one, so is the program. -/
theorem OneByOne.answers {program : Program} {values : List Value}
    (h : session.OneByOne program values last) (hs : inside session.scope)
    (hstore : session.store.Holds inside) :
    session.Yields (.program program) (program.answerOf values) last := by
  refine ⟨program.answerOf_ne_tooDeep values, ?_⟩
  induction h with
  | done => exact ⟨0, fun _ _ => rfl⟩
  | @stops session last s rest value stopping hyields hv =>
    obtain ⟨limit, hlimit⟩ := hyields.2
    refine ⟨limit, fun n hle => ?_⟩
    rw [perform_program_cons hs hstore, hlimit n hle, Program.answerOf_stops s rest hv]
    dsimp only
    rw [hv]
  | @goesOn session later last s rest value values hyields hv hrest ih =>
    obtain ⟨limit, hlimit⟩ := hyields.2
    have hlater : inside later.scope ∧ later.store.Holds inside := by
      have h := perform_holds hs hstore limit (.statement s)
      rw [hlimit limit (Nat.le_refl _)] at h
      exact ⟨h.1 ▸ hs, h.2⟩
    obtain ⟨others, hothers⟩ := ih hlater.1 hlater.2
    refine ⟨max limit others, fun n hle => ?_⟩
    rw [perform_program_cons hs hstore, hlimit n (by omega)]
    dsimp only
    rw [hv]
    cases rest with
    | nil =>
      cases hrest
      rw [Program.answerOf_single s hv]
      rfl
    | cons next behind =>
      have hne := List.cons_ne_nil next behind
      rw [Program.answerOf_cons s value hne (hrest.ne_nil hne)]
      exact hothers n (by omega)

/-- Where the program is answered, so are the statements one by one. -/
theorem oneByOne_of_perform {program : Program} (hne : answer ≠ .tooDeep)
    (h : session.perform n (.program program) = (.answer answer, last)) (hs : inside session.scope)
    (hstore : session.store.Holds inside) :
    ∃ values, session.OneByOne program values last ∧ answer = program.answerOf values := by
  induction program generalizing session with
  | nil =>
    cases h
    exact ⟨[], .done, rfl⟩
  | cons s rest ih =>
    have hholds := perform_holds hs hstore n (.statement s)
    rw [perform_program_cons hs hstore] at h
    rcases hr : session.perform n (.statement s) with ⟨response, later⟩
    rw [hr] at h hholds
    obtain ⟨hscope, hlater⟩ : later.scope = session.scope ∧ later.store.Holds inside := hholds
    cases response with
    | syntaxErrors errors => cases h
    | answer given =>
      cases given with
      | none => exact absurd hr (perform_statement_ne_none session n s later)
      | tooDeep =>
        cases h
        exact absurd rfl hne
      | value value =>
        have halone := yields_of_perform (fun hdeep => by cases hdeep) hr
        dsimp only at h
        cases hv : value.stopping? with
        | some stopping =>
          rw [hv] at h
          cases h
          exact ⟨[value], .stops halone hv, (Program.answerOf_stops s rest hv).symm⟩
        | none =>
          rw [hv] at h
          cases rest with
          | nil =>
            cases h
            exact ⟨[value], .goesOn halone hv .done, (Program.answerOf_single s hv).symm⟩
          | cons next behind =>
            obtain ⟨values, hvalues, rfl⟩ := ih h (hscope ▸ hs) hlater
            have hcons := List.cons_ne_nil next behind
            exact ⟨value :: values, .goesOn halone hv hvalues,
              (Program.answerOf_cons s value hcons (hvalues.ne_nil hcons)).symm⟩

end

theorem Yields.orNull {program : Program} (h : session.Yields (.program program) answer later) :
    session.Yields (.programOrNull program) answer.orNull later := by
  obtain ⟨hne, limit, hlimit⟩ := h
  refine ⟨?_, limit, fun n hle => ?_⟩
  · cases answer with
    | tooDeep => exact absurd rfl hne
    | _ => nofun
  · have hrun := hlimit n hle
    simp only [perform, Prod.mk.injEq, Response.answer.injEq] at hrun ⊢
    exact ⟨congrArg Answer.orNull hrun.1, hrun.2⟩

end Session

/-- A program comes to what its statements come to one by one. From an environment of plain values
on it ends exactly where its statements, each evaluated on its own up to the first that answers a
`return` or a runtime error, have ends; it leaves the same environment behind, and answers what was
returned, or the runtime error, or else the last answer, unless the last statement is a `let`. -/
theorem program_one_by_one (session : Session) (h : session.Plain) (program : Program) :
    (∀ values last, session.OneByOne program values last →
      session.Yields (.program program) (program.answerOf values) last ∧
        session.Yields (.programOrNull program) (program.answerOf values).orNull last) ∧
      ∀ answer last, session.Yields (.program program) answer last →
        ∃ values, session.OneByOne program values last ∧ answer = program.answerOf values := by
  have hs : session.Sees session.scope := .inl .root
  refine ⟨fun values last hvalues => ?_, fun answer last hyields => ?_⟩
  · have hyields := hvalues.answers hs h.holds
    exact ⟨hyields, hyields.orNull⟩
  · obtain ⟨hne, limit, hlimit⟩ := hyields
    exact Session.oneByOne_of_perform hne (hlimit limit (Nat.le_refl _)) hs h.holds

/-- A function that returns from within a block, called by a statement that is passed and by a
`return` that stops the program before a division by zero. -/
def stoppedProgram : Program :=
  (Reading.ofSource
    "let f = fn(x) { if (x) { return [x, f]; } 7 }; f(true); return f(!5); 1 / 0").program

theorem program_one_by_one_stopped : Session.start.Plain ∧
    ∃ values last, Session.start.OneByOne stoppedProgram values last ∧
      stoppedProgram.answerOf values = .value (.integer 7) := by
  have hyields : Session.start.Yields (.program stoppedProgram) (.value (.integer 7))
      (Session.start.perform 1 (.program stoppedProgram)).2 := by
    refine Session.yields_of_perform (n := 1) (fun hdeep => by cases hdeep) ?_
    rfl
  obtain ⟨values, hvalues, hanswer⟩ :=
    (program_one_by_one Session.start Session.start_plain stoppedProgram).2 _ _ hyields
  exact ⟨Session.start_plain, values, _, hvalues, hanswer.symm⟩

end MonkeyLang
