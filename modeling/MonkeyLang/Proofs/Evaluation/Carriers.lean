import MonkeyLang.Proofs.Evaluation.Moments
import MonkeyLang.Proofs.Evaluation.Plain
import MonkeyLang.Session

namespace MonkeyLang

open Eval

/-- Whatever the task, plain values stay plain. -/
theorem leaves_task {inside : ScopeId → Prop} {scope : ScopeId} {store : Store} {task : Task}
    (limit : Nat) (hs : inside scope) (ht : ∀ value ∈ task.values, value.Within inside) :
    Leaves inside (task.run limit scope) (∀ value ∈ ·, value.Within inside) store :=
  leaves_of_plain (Invariant.leaves_task limit hs ht)

/-- The store that the task of the moment leaves behind. -/
def Moment.after (moment : Moment) : Store :=
  (moment.task.run moment.limit moment.scope).final moment.store

/-- A moment with plain values everywhere. -/
structure Moment.Sound (inside : ScopeId → Prop) (moment : Moment) : Prop where
  store : moment.store.Holds inside
  scope : inside moment.scope
  values : ∀ value ∈ moment.task.values, value.Within inside

namespace Moment

variable {inside : ScopeId → Prop} {moment later : Moment}

theorem Leads.sound (h : moment.Leads later) (hm : moment.Sound inside) : later.Sound inside := by
  have hplain : (Invariant.plain inside).Sound () moment := ⟨hm.store, hm.scope, hm.values⟩
  obtain ⟨_, -, hlater⟩ := hplain.leads h
  exact ⟨hlater.store, hlater.scope, hlater.values⟩

theorem Sound.after (hm : moment.Sound inside) : moment.after.Holds inside := by
  have h : (Invariant.plain inside).Leaves () _ (Invariant.plain inside).values moment.store :=
    Invariant.leaves_task moment.limit hm.scope hm.values
  obtain ⟨_, -, hafter⟩ := h.final hm.store
  exact hafter

/-- Nothing that can be seen at the moment, or of how its task ends, carries anything. -/
structure Plain (inside : ScopeId → Prop) (moment : Moment) : Prop where
  store : moment.store.PlainIn inside
  values : ∀ value ∈ moment.task.values, value.Plain
  comes : ∀ values after, moment.outcome = .ok values after →
    after.PlainIn inside ∧ ∀ value ∈ values, value.Plain
  stops : ∀ exit after, moment.outcome = .error exit after →
    after.PlainIn inside ∧ ∀ value, exit = .returned value → value.Plain

theorem Sound.plain (hm : moment.Sound inside) : moment.Plain inside where
  store := hm.store.plainIn
  values := fun value hv => (hm.values value hv).plain
  comes := fun values after ho => by
    have h := leaves_task moment.limit hm.scope hm.values hm.store
    rw [← outcome, ho] at h
    exact ⟨h.1.plainIn, fun value hv => (h.2 value hv).plain⟩
  stops := fun exit after ho => by
    have h := leaves_task moment.limit hm.scope hm.values hm.store
    rw [← outcome, ho] at h
    refine ⟨h.1.plainIn, ?_⟩
    rintro value rfl
    exact h.2.plain

end Moment

/-- What can be asked for in an environment: to run a program, for its value or for one with `null`
where there is none, a statement or an expression alone, or a line of a session. -/
inductive Request where
  | program (program : Program)
  | programOrNull (program : Program)
  | statement (s : Stmt)
  | expression (e : Expr)
  | line (text : String)

/-- What a request has evaluated: nothing, if a line has syntax errors. -/
def Request.task? : Request → Option Task
  | program p => some (.program p)
  | programOrNull p => some (.program p)
  | statement s => some (.statement s)
  | expression e => some (.expression e)
  | line text =>
    if (Reading.ofSource text).errors.isEmpty then some (.program (Reading.ofSource text).program)
    else none

namespace Request

/-- Whether a `return` that leaves the tree is handed back as such. -/
def isAlone : Request → Bool
  | statement _ | expression _ => true
  | program _ | programOrNull _ | line _ => false

/-- The answer where there is no value. -/
def absent : Request → Answer
  | programOrNull _ => .value .null
  | _ => .none

/-- The answer to the request when its task ends in this way. -/
def answer (request : Request) : EStateM.Result Exit Store (List Value) → Answer
  | .ok [] _ => request.absent
  | .ok (value :: _) _ => .value value
  | .error (.returned value) _ => .value (if request.isAlone then .returned value else value)
  | .error (.failed error) _ => .value (.error error)
  | .error .tooDeep _ => .tooDeep

theorem answer_orNull (p : Program) (outcome : EStateM.Result Exit Store (List Value)) :
    (programOrNull p).answer outcome = ((program p).answer outcome).orNull := by
  rcases outcome with ⟨_ | ⟨value, values⟩, after⟩ | ⟨_ | _ | _, after⟩ <;> rfl

theorem task?_values {request : Request} {task : Task} (h : request.task? = some task) :
    task.values = [] := by
  cases request with
  | line text =>
    rw [task?] at h
    split at h
    · cases h
      rfl
    · cases h
  | _ =>
    cases h
    rfl

end Request

namespace Session

/-- Does what is asked for in the environment of the session. -/
def perform (limit : Nat) (session : Session) : Request → Response × Session
  | .program p =>
    let (answer, store) := p.run limit session.scope session.store
    (.answer answer, { session with store })
  | .programOrNull p =>
    let (answer, store) := p.run limit session.scope session.store
    (.answer answer.orNull, { session with store })
  | .statement s =>
    let (answer, store) := s.run limit session.scope session.store
    (.answer answer, { session with store })
  | .expression e =>
    let (answer, store) := e.run limit session.scope session.store
    (.answer answer, { session with store })
  | .line text => session.evalLine limit text

def performAll (limit : Nat) (session : Session) (requests : List Request) : Session :=
  requests.foldl (fun session request => (session.perform limit request).2) session

/-- The moment at which a request begins. -/
def Begins (limit : Nat) (session : Session) (request : Request) (moment : Moment) : Prop :=
  ∃ task, request.task? = some task ∧ moment = ⟨limit, session.scope, session.store, task⟩

/-- What is asked for is stopped in this way. -/
def Stops (limit : Nat) (session : Session) (request : Request) (exit : Exit) : Prop :=
  ∃ moment after, session.Begins limit request moment ∧ moment.outcome = .error exit after

/-- The scopes of the environment that a session is in, and all those to come. -/
def Sees (session : Session) (id : ScopeId) : Prop :=
  session.store.Reaches session.scope id ∨ session.store.scopes.size ≤ id

/-- Nothing in the environment of the session carries a `return` or a runtime error. -/
def Plain (session : Session) : Prop :=
  session.store.PlainIn (session.store.Reaches session.scope)

theorem Plain.holds {session : Session} (h : session.Plain) :
    session.store.Holds session.Sees := by
  have hreach : ∀ {id : ScopeId} {found : Scope}, session.Sees id →
      session.store.scopes[id]? = some found → session.store.Reaches session.scope id := by
    intro id found hs hf
    rcases hs with hs | hs
    · exact hs
    · simp [Array.getElem?_eq_none hs] at hf
  constructor
  · exact fun id hid => .inr hid
  · intro id parent found hs hf hp
    exact .inl ((hreach hs hf).parent hf hp)
  · intro id found hs hf binding hb
    refine ⟨h id found (hreach hs hf) hf binding hb, fun scope hc => ?_⟩
    exact .inl ((hreach hs hf).captured hf hb hc)

variable {session : Session} {limit : Nat} {request : Request}

/-- A line with syntax errors changes nothing. -/
theorem perform_none (session : Session) (limit : Nat) (h : request.task? = none) :
    ∃ errors, session.perform limit request = (.syntaxErrors errors, session) := by
  cases request with
  | line text =>
    have he : (Reading.ofSource text).errors.isEmpty = false := by
      simpa [Request.task?] using h
    refine ⟨(Reading.ofSource text).errors, ?_⟩
    simp [perform, evalLine, he]
  | _ => cases h

theorem run_program (p : Program) (scope : ScopeId) (store : Store) :
    p.run limit scope store =
      ((Request.program p).answer (Moment.outcome ⟨limit, scope, store, .program p⟩),
        Moment.after ⟨limit, scope, store, .program p⟩) := by
  simp only [Program.run, Moment.after, Moment.outcome, Task.run, final_bind, EStateM.run_bind]
  have hrun : runProgram (invoke limit) scope p store =
    EStateM.run (runProgram (invoke limit) scope p) store := rfl
  rw [hrun]
  rcases EStateM.run (runProgram (invoke limit) scope p) store with
    ⟨_ | value, after⟩ | ⟨_ | _ | _, after⟩ <;> rfl

/-- A tree evaluated on its own hands back a `return` as such. -/
theorem answer_alone (request : Request) (x : Eval Value) (store : Store)
    (ha : request.isAlone = true) :
    Eval.answer x store =
      (request.answer (EStateM.run (do return [← x]) store), final (do return [← x]) store) := by
  simp only [Eval.answer, final_bind, EStateM.run_bind]
  have hrun : x store = EStateM.run x store := rfl
  rw [hrun]
  rcases EStateM.run x store with ⟨value, after⟩ | ⟨_ | _ | _, after⟩ <;>
    simp [Request.answer, ha, final]

/-- What is answered, and the store left behind, are those that the task ends with. -/
theorem perform_some {task : Task} (h : request.task? = some task) :
    session.perform limit request =
      (.answer (request.answer (Moment.outcome ⟨limit, session.scope, session.store, task⟩)),
        { session with store := Moment.after ⟨limit, session.scope, session.store, task⟩ }) := by
  cases request with
  | program p =>
    cases h
    rw [perform, run_program]
  | programOrNull p =>
    cases h
    rw [perform, run_program, Request.answer_orNull]
  | statement s =>
    cases h
    rw [perform, Stmt.run, answer_alone (.statement s) _ _ rfl]
    rfl
  | expression e =>
    cases h
    rw [perform, Expr.run, answer_alone (.expression e) _ _ rfl]
    rfl
  | line text =>
    rw [Request.task?] at h
    split at h
    · next he =>
      cases h
      simp only [perform, evalLine, he, if_true, run_program]
      rfl
    · cases h

/-- Every request leaves plain values behind. -/
theorem perform_holds {inside : ScopeId → Prop} {session : Session} (hs : inside session.scope)
    (hstore : session.store.Holds inside) (limit : Nat) (request : Request) :
    (session.perform limit request).2.scope = session.scope ∧
      (session.perform limit request).2.store.Holds inside := by
  cases ht : request.task? with
  | none =>
    obtain ⟨errors, he⟩ := perform_none session limit ht
    rw [he]
    exact ⟨rfl, hstore⟩
  | some task =>
    have hm : Moment.Sound inside ⟨limit, session.scope, session.store, task⟩ :=
      ⟨hstore, hs, by simp [request.task?_values ht]⟩
    rw [perform_some ht]
    exact ⟨rfl, hm.after⟩

theorem performAll_holds {inside : ScopeId → Prop} (limit : Nat) (requests : List Request) :
    ∀ session : Session, inside session.scope → session.store.Holds inside →
      (session.performAll limit requests).scope = session.scope ∧
        (session.performAll limit requests).store.Holds inside := by
  induction requests with
  | nil => exact fun session hs hstore => ⟨rfl, hstore⟩
  | cons request requests ih =>
    intro session hs hstore
    obtain ⟨hscope, hafter⟩ := perform_holds hs hstore limit request
    have hall := ih (session.perform limit request).2 (hscope ▸ hs) hafter
    exact ⟨hall.1.trans hscope, hall.2⟩

/-- In the course of the request nothing in these scopes carries a `return` or a runtime error, and
none gets out but as the answer. -/
structure Conceals (inside : ScopeId → Prop) (limit : Nat) (session : Session)
    (request : Request) : Prop where
  moments : ∀ start moment, session.Begins limit request start → start.Leads moment →
    moment.Plain inside
  environment : (session.perform limit request).2.store.PlainIn inside
  answer : ∀ value, (session.perform limit request).1 = .answer (.value value) → value.Tainted →
    (∃ error, value = .error error) ∨
      request.isAlone = true ∧ ∃ plain : Value, plain.Plain ∧ value = .returned plain
  error : ∀ error, (session.perform limit request).1 = .answer (.value (.error error)) ↔
    session.Stops limit request (.failed error)

/-- An answer is plain, or a plain value that a tree evaluated on its own returned, or the runtime
error that has stopped the task. -/
theorem answer_cases {inside : ScopeId → Prop} {moment : Moment} (hm : moment.Plain inside)
    {value : Value} (ha : request.answer moment.outcome = .value value) :
    value.Plain ∨
      (request.isAlone = true ∧ ∃ plain : Value, plain.Plain ∧ value = .returned plain) ∨
      ∃ error after, moment.outcome = .error (.failed error) after ∧ value = .error error := by
  cases ho : moment.outcome with
  | ok values after =>
    left
    have hvalues := (hm.comes values after ho).2
    rw [ho] at ha
    cases values with
    | nil =>
      cases request with
      | programOrNull p =>
        cases ha
        exact Value.Simple.plain trivial
      | _ => cases ha
    | cons head rest =>
      cases ha
      exact hvalues value (by simp)
  | error exit after =>
    have hexit := (hm.stops exit after ho).2
    rw [ho] at ha
    cases exit with
    | returned inner =>
      have hinner := hexit inner rfl
      by_cases hr : request.isAlone = true
      · simp only [Request.answer, hr, if_true, Answer.value.injEq] at ha
        exact .inr (.inl ⟨hr, inner, hinner, ha.symm⟩)
      · have hvalue : inner = value := by simpa [Request.answer, hr] using ha
        exact .inl (hvalue ▸ hinner)
    | failed error =>
      cases ha
      exact .inr (.inr ⟨error, after, rfl, rfl⟩)
    | tooDeep => cases ha

/-- A runtime error is answered where one has stopped the task, and only there. -/
theorem answer_error_iff {inside : ScopeId → Prop} {moment : Moment} (hm : moment.Plain inside)
    (error : RuntimeError) : request.answer moment.outcome = .value (.error error) ↔
      ∃ after, moment.outcome = .error (.failed error) after := by
  constructor
  · intro ha
    rcases answer_cases hm ha with hp | ⟨-, plain, -, he⟩ | ⟨stopping, after, ho, he⟩
    · exact absurd (.error error) hp
    · cases he
    · cases he
      exact ⟨after, ho⟩
  · rintro ⟨after, ho⟩
    rw [ho]
    rfl

theorem Begins.sound {inside : ScopeId → Prop} {start : Moment} (hs : inside session.scope)
    (hstore : session.store.Holds inside) (h : session.Begins limit request start) :
    start.Sound inside := by
  obtain ⟨task, ht, rfl⟩ := h
  exact ⟨hstore, hs, by simp [Request.task?_values ht]⟩

theorem conceals {inside : ScopeId → Prop} (hs : inside session.scope)
    (hstore : session.store.Holds inside) (limit : Nat) (request : Request) :
    session.Conceals inside limit request where
  moments := fun start moment hb hl => (hl.sound (hb.sound hs hstore)).plain
  environment := (perform_holds hs hstore limit request).2.plainIn
  answer := fun value ha ht => by
    cases hr : request.task? with
    | none =>
      obtain ⟨errors, he⟩ := perform_none session limit hr
      rw [he] at ha
      cases ha
    | some task =>
      have hb : session.Begins limit request _ := ⟨task, hr, rfl⟩
      rw [perform_some hr, Response.answer.injEq] at ha
      rcases answer_cases (hb.sound hs hstore).plain ha with hp | halone | ⟨error, -, -, he⟩
      · exact absurd ht hp
      · exact .inr halone
      · exact .inl ⟨error, he⟩
  error := fun error => by
    cases hr : request.task? with
    | none =>
      obtain ⟨errors, he⟩ := perform_none session limit hr
      rw [he]
      constructor
      · nofun
      · rintro ⟨moment, after, ⟨task, ht, -⟩, -⟩
        cases hr.symm.trans ht
    | some task =>
      have hb : session.Begins limit request _ := ⟨task, hr, rfl⟩
      rw [perform_some hr, Response.answer.injEq, answer_error_iff (hb.sound hs hstore).plain]
      constructor
      · rintro ⟨after, ho⟩
        exact ⟨_, after, hb, ho⟩
      · rintro ⟨moment, after, ⟨other, ht, rfl⟩, ho⟩
        cases hr.symm.trans ht
        exact ⟨after, ho⟩

/-- Nothing is bound in a fresh environment, and there is nothing around it. -/
theorem start_found {id : ScopeId} {found : Scope} (h : start.store.scopes[id]? = some found) :
    found = ⟨[], none⟩ := by
  have hm : found ∈ (#[⟨[], none⟩] : Array Scope) := Array.mem_of_getElem? h
  simpa using hm

theorem start_plain : start.Plain := by
  intro id found _ hf binding hb
  simp [start_found hf] at hb

end Session

/-- What carries a `return` or a runtime error outward is never observed. From an environment of
plain values on, whatever has been asked for before, a request finds and leaves plain values at
every moment; a `return` is answered only where a statement or an expression is evaluated on its
own, and a runtime error exactly where one has stopped the evaluation. -/
theorem carriers_unobservable (limit : Nat) (session : Session) (h : session.Plain)
    (done : List Request) (request : Request) :
    (session.performAll limit done).Conceals session.Sees limit request := by
  have hall := Session.performAll_holds limit done session (.inl .root) h.holds
  exact Session.conceals (hall.1 ▸ .inl .root) hall.2 limit request

/-- In a fresh environment, with a function that returns out of its body and keeps what it is given
in an array, called in a later line. -/
theorem carriers_unobservable_fresh :
    Session.start.Plain ∧
      (Session.start.performAll callLimit
        [.line "let keep = fn(x) { if (x) { return push([x], keep); } else { 1 / 0 } };"]).Conceals
        Session.start.Sees callLimit (.line "let a = keep(keep)[1]; return a(false);") :=
  ⟨Session.start_plain, carriers_unobservable callLimit Session.start Session.start_plain _ _⟩

end MonkeyLang
