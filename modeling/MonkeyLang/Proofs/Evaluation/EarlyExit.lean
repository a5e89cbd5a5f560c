import MonkeyLang.Proofs.Evaluation.Keeps

namespace MonkeyLang

open Eval

/-- A statement around a hole. -/
inductive Place where
  | letName (token : Token) (name : Identifier)
  | returnValue (token : Token)
  | expression (token : Token)

def Place.fill : Place → Expr → Stmt
  | .letName token name, hole => .letName token name hole
  | .returnValue token, hole => .returnValue token hole
  | .expression token, hole => .expression token hole

/-- A statement around a hole, between others. -/
structure Sequence where
  before : List Stmt
  place : Place
  behind : List Stmt

def Sequence.fill (sequence : Sequence) (hole : Expr) : List Stmt :=
  sequence.before ++ sequence.place.fill hole :: sequence.behind

/-- One node around a hole. -/
inductive Layer where
  | operand (token : Token) (op : PrefixOp)
  | leftOperand (token : Token) (op : InfixOp) (right : Expr)
  | rightOperand (token : Token) (left : Expr) (op : InfixOp)
  | called (token : Token) (arguments : List Expr)
  | argument (token : Token) (callee : Expr) (before behind : List Expr)
  | item (token : Token) (before behind : List Expr)
  | indexed (token : Token) (position : Expr)
  | positionOf (token : Token) (left : Expr)
  | tested (token : Token) (consequence : Block) (alternative : Option Block)
  | inConsequence (token : Token) (condition : Expr) (brace : Token) (body : Sequence)
      (alternative : Option Block)
  | inAlternative (token : Token) (condition : Expr) (consequence : Block) (brace : Token)
      (body : Sequence)

def Layer.fill : Layer → Expr → Expr
  | .operand token op, hole => .unary token op hole
  | .leftOperand token op right, hole => .binary token hole op right
  | .rightOperand token left op, hole => .binary token left op hole
  | .called token arguments, hole => .call token hole arguments
  | .argument token callee before behind, hole => .call token callee (before ++ hole :: behind)
  | .item token before behind, hole => .array token (before ++ hole :: behind)
  | .indexed token position, hole => .index token hole position
  | .positionOf token left, hole => .index token left hole
  | .tested token consequence alternative, hole =>
    .conditional token hole consequence alternative
  | .inConsequence token condition brace body alternative, hole =>
    .conditional token condition (.mk brace (body.fill hole)) alternative
  | .inAlternative token condition consequence brace body, hole =>
    .conditional token condition consequence (some (.mk brace (body.fill hole)))

/-- What is around a hole, from the outermost node on. -/
abbrev Context := List Layer

def Context.fill : Context → Expr → Expr
  | [], hole => hole
  | layer :: layers, hole => layer.fill (Context.fill layers hole)

section
variable (call : Call) (scope : ScopeId)

/-- The statements before the hole have values, and lead from one store to the other. -/
def Sequence.Reaches (sequence : Sequence) (store after : Store) : Prop :=
  ∃ value, EStateM.run (runAll call scope sequence.before) store = .ok value after

/-- What is evaluated before the hole has values, and leads from one store to the other. -/
def Layer.Reaches : Layer → Store → Store → Prop
  | .operand .., store, after => after = store
  | .leftOperand .., store, after => after = store
  | .rightOperand _ left _, store, after =>
    ∃ value, EStateM.run (evaluate call scope left) store = .ok value after
  | .called .., store, after => after = store
  | .argument _ callee before _, store, after => ∃ value middle values,
    EStateM.run (evaluate call scope callee) store = .ok value middle ∧
      EStateM.run (evaluateAll call scope before) middle = .ok values after
  | .item _ before _, store, after =>
    ∃ values, EStateM.run (evaluateAll call scope before) store = .ok values after
  | .indexed .., store, after => after = store
  | .positionOf _ left, store, after =>
    ∃ value, EStateM.run (evaluate call scope left) store = .ok value after
  | .tested .., store, after => after = store
  | .inConsequence _ condition _ body _, store, after => ∃ value middle,
    EStateM.run (evaluate call scope condition) store = .ok value middle ∧
      value.isTruthy = true ∧ body.Reaches call scope middle after
  | .inAlternative _ condition _ _ body, store, after => ∃ value middle,
    EStateM.run (evaluate call scope condition) store = .ok value middle ∧
      value.isTruthy = false ∧ body.Reaches call scope middle after

def Context.Reaches : Context → Store → Store → Prop
  | [], store, after => after = store
  | layer :: layers, store, after =>
    ∃ middle, layer.Reaches call scope store middle ∧ Context.Reaches layers middle after

end

namespace Eval

variable {α β : Type} {call : Call} {scope : ScopeId} {store middle after : Store} {exit : Exit}

theorem run_bind_of_ok {x : Eval α} {f : α → Eval β} {a : α}
    (h : EStateM.run x store = .ok a middle) :
    EStateM.run (x >>= f) store = EStateM.run (f a) middle := by
  rw [EStateM.run_bind, h]

theorem run_bind_of_exit {x : Eval α} {f : α → Eval β}
    (h : EStateM.run x store = .error exit after) :
    EStateM.run (x >>= f) store = .error exit after := by
  rw [EStateM.run_bind, h]

theorem run_bind_eq_ok {x : Eval α} {f : α → Eval β} {b : β}
    (h : EStateM.run (x >>= f) store = .ok b after) :
    ∃ a middle, EStateM.run x store = .ok a middle ∧ EStateM.run (f a) middle = .ok b after := by
  cases hr : EStateM.run x store with
  | ok a middle => exact ⟨a, middle, rfl, by rwa [run_bind_of_ok hr] at h⟩
  | error exit after' =>
    rw [run_bind_of_exit hr] at h
    simp at h

theorem evaluateAll_exit {before : List Expr} (behind : List Expr) {hole : Expr}
    {values : List Value}
    (hb : EStateM.run (evaluateAll call scope before) store = .ok values middle)
    (he : EStateM.run (evaluate call scope hole) middle = .error exit after) :
    EStateM.run (evaluateAll call scope (before ++ hole :: behind)) store = .error exit after := by
  induction before generalizing store values with
  | nil =>
    obtain ⟨-, rfl⟩ : [] = values ∧ store = middle := by simpa [evaluateAll] using hb
    rw [List.nil_append, evaluateAll]
    exact run_bind_of_exit he
  | cons e es ih =>
    rw [evaluateAll] at hb
    obtain ⟨value, between, hvalue, hrest⟩ := run_bind_eq_ok hb
    obtain ⟨rest, last, hes, hlast⟩ := run_bind_eq_ok hrest
    obtain ⟨-, rfl⟩ : value :: rest = values ∧ last = middle := by simpa using hlast
    rw [List.cons_append, evaluateAll, run_bind_of_ok hvalue]
    exact run_bind_of_exit (ih hes)

/-- The first of several statements, and then the others. -/
theorem runAll_cons_eq_ok {s : Stmt} {ss : List Stmt} {value : Value}
    (h : EStateM.run (runAll call scope (s :: ss)) store = .ok value after) :
    ∃ first middle rest, EStateM.run (run call scope s) store = .ok first middle ∧
      EStateM.run (runAll call scope ss) middle = .ok rest after := by
  cases ss with
  | nil =>
    rw [runAll] at h
    exact ⟨value, after, .null, h, by simp [runAll]⟩
  | cons next rest =>
    rw [runAll] at h
    obtain ⟨first, middle, hfirst, hrest⟩ := run_bind_eq_ok h
    exact ⟨first, middle, value, hfirst, hrest⟩

theorem runAll_exit {before : List Stmt} (behind : List Stmt) {s : Stmt} {value : Value}
    (hb : EStateM.run (runAll call scope before) store = .ok value middle)
    (hs : EStateM.run (run call scope s) middle = .error exit after) :
    EStateM.run (runAll call scope (before ++ s :: behind)) store = .error exit after := by
  induction before generalizing store value with
  | nil =>
    obtain ⟨-, rfl⟩ : Value.null = value ∧ store = middle := by simpa [runAll] using hb
    cases behind with
    | nil => simpa [runAll] using hs
    | cons next rest =>
      rw [List.nil_append, runAll]
      exact run_bind_of_exit hs
  | cons b bs ih =>
    obtain ⟨first, between, rest, hfirst, hrest⟩ := runAll_cons_eq_ok hb
    obtain ⟨next, others, hne⟩ := List.exists_cons_of_ne_nil
      (List.append_ne_nil_of_right_ne_nil bs (List.cons_ne_nil s behind))
    have h := ih hrest
    rw [hne] at h
    rw [List.cons_append, hne, runAll, run_bind_of_ok hfirst]
    exact h

/-- A program runs its statements as a block does, and only its value is another. -/
theorem runProgram_eq (call : Call) (scope : ScopeId) : ∀ program : Program,
    ∃ result : Value → Option Value,
    runProgram call scope program = runAll call scope program >>= fun value => pure (result value)
  | [] => ⟨fun _ => none, by simp [runProgram, runAll]⟩
  | [s] => ⟨fun value => if s.isLet then none else some value, by rw [runProgram, runAll]⟩
  | s :: next :: rest => by
    obtain ⟨result, h⟩ := runProgram_eq call scope (next :: rest)
    exact ⟨result, by rw [runProgram, runAll, h, bind_assoc]⟩

theorem runProgram_exit {before : List Stmt} (behind : List Stmt) {s : Stmt} {value : Value}
    (hb : EStateM.run (runAll call scope before) store = .ok value middle)
    (hs : EStateM.run (run call scope s) middle = .error exit after) :
    EStateM.run (runProgram call scope (before ++ s :: behind)) store = .error exit after := by
  obtain ⟨result, h⟩ := runProgram_eq call scope (before ++ s :: behind)
  rw [h]
  exact run_bind_of_exit (runAll_exit behind hb hs)

theorem place_exit (place : Place) {hole : Expr}
    (he : EStateM.run (evaluate call scope hole) store = .error exit after) :
    EStateM.run (run call scope (place.fill hole)) store = .error exit after := by
  cases place with
  | letName token name =>
    rw [Place.fill, run]
    exact run_bind_of_exit he
  | returnValue token =>
    rw [Place.fill, run]
    exact run_bind_of_exit he
  | expression token =>
    rw [Place.fill, run]
    exact he

theorem sequence_exit {sequence : Sequence} {hole : Expr}
    (hr : sequence.Reaches call scope store middle)
    (he : EStateM.run (evaluate call scope hole) middle = .error exit after) :
    EStateM.run (runAll call scope (sequence.fill hole)) store = .error exit after := by
  obtain ⟨value, hb⟩ := hr
  exact runAll_exit sequence.behind hb (place_exit sequence.place he)

theorem block_exit {body : Sequence} {hole : Expr} (brace : Token)
    (hr : body.Reaches call scope store middle)
    (he : EStateM.run (evaluate call scope hole) middle = .error exit after) :
    EStateM.run (runBlock call scope (.mk brace (body.fill hole))) store = .error exit after := by
  rw [runBlock]
  exact sequence_exit hr he

/-- What ends the evaluation of the hole ends that of the node around it. -/
theorem layer_exit {layer : Layer} {hole : Expr} (hr : layer.Reaches call scope store middle)
    (he : EStateM.run (evaluate call scope hole) middle = .error exit after) :
    EStateM.run (evaluate call scope (layer.fill hole)) store = .error exit after := by
  cases layer with
  | operand token op =>
    obtain rfl : middle = store := hr
    rw [Layer.fill, evaluate]
    exact run_bind_of_exit he
  | leftOperand token op right =>
    obtain rfl : middle = store := hr
    rw [Layer.fill, evaluate]
    exact run_bind_of_exit he
  | rightOperand token left op =>
    obtain ⟨value, hleft⟩ := hr
    rw [Layer.fill, evaluate, run_bind_of_ok hleft]
    exact run_bind_of_exit he
  | called token arguments =>
    obtain rfl : middle = store := hr
    rw [Layer.fill, evaluate]
    exact run_bind_of_exit he
  | argument token callee before behind =>
    obtain ⟨value, between, values, hcallee, hbefore⟩ := hr
    rw [Layer.fill, evaluate, run_bind_of_ok hcallee]
    exact run_bind_of_exit (evaluateAll_exit behind hbefore he)
  | item token before behind =>
    obtain ⟨values, hbefore⟩ := hr
    rw [Layer.fill, evaluate]
    exact run_bind_of_exit (evaluateAll_exit behind hbefore he)
  | indexed token position =>
    obtain rfl : middle = store := hr
    rw [Layer.fill, evaluate]
    exact run_bind_of_exit he
  | positionOf token left =>
    obtain ⟨value, hleft⟩ := hr
    rw [Layer.fill, evaluate, run_bind_of_ok hleft]
    exact run_bind_of_exit he
  | tested token consequence alternative =>
    obtain rfl : middle = store := hr
    cases alternative with
    | none =>
      rw [Layer.fill, evaluate]
      exact run_bind_of_exit he
    | some alternative =>
      rw [Layer.fill, evaluate]
      exact run_bind_of_exit he
  | inConsequence token condition brace body alternative =>
    obtain ⟨value, between, hcondition, htrue, hbody⟩ := hr
    have h := block_exit brace hbody he
    cases alternative with
    | none =>
      rw [Layer.fill, evaluate, run_bind_of_ok hcondition, if_pos htrue]
      exact h
    | some alternative =>
      rw [Layer.fill, evaluate, run_bind_of_ok hcondition, if_pos htrue]
      exact h
  | inAlternative token condition consequence brace body =>
    obtain ⟨value, between, hcondition, hfalse, hbody⟩ := hr
    have h := block_exit brace hbody he
    rw [Layer.fill, evaluate, run_bind_of_ok hcondition, if_neg (by simp [hfalse])]
    exact h

/-- What ends the evaluation of the hole ends that of everything around it. -/
theorem context_exit (context : Context) {hole : Expr}
    (hr : context.Reaches call scope store middle)
    (he : EStateM.run (evaluate call scope hole) middle = .error exit after) :
    EStateM.run (evaluate call scope (context.fill hole)) store = .error exit after := by
  induction context generalizing store with
  | nil =>
    obtain rfl : middle = store := hr
    exact he
  | cons layer layers ih =>
    obtain ⟨between, hlayer, hlayers⟩ := hr
    exact layer_exit hlayer (ih hlayers)

/-- A call has got to the body of its function: callee and arguments have values, and the parameters
are bound in the new scope `inner`. -/
def Enters (n : Nat) (scope : ScopeId) (callee : Expr) (arguments : List Expr) (store : Store)
    (closure : Closure) (inner : ScopeId) (after : Store) : Prop :=
  ∃ identity values between last,
    EStateM.run (evaluate (invoke (n + 1)) scope callee) store =
      .ok (.function identity closure) between ∧
    EStateM.run (evaluateAll (invoke (n + 1)) scope arguments) between = .ok values last ∧
    values.length = closure.parameters.length ∧ inner = (last.newScope closure.scope).1 ∧
    EStateM.run (declareAll inner closure.parameters values) (last.newScope closure.scope).2 =
      .ok () after

variable {n : Nat} {callee : Expr} {arguments : List Expr} {closure : Closure} {inner : ScopeId}

/-- Then the call ends as its body does, but for a `return`. -/
theorem Enters.run (h : Enters n scope callee arguments store closure inner after)
    (token : Token) :
    EStateM.run (evaluate (invoke (n + 1)) scope (.call token callee arguments)) store =
      EStateM.run (catchReturn (runBlock (invoke n) inner closure.body)) after := by
  obtain ⟨identity, values, between, last, hcallee, hvalues, hlength, rfl, hdeclare⟩ := h
  have hnew : EStateM.run (newScope closure.scope) last =
      .ok (last.newScope closure.scope).1 (last.newScope closure.scope).2 := rfl
  rw [evaluate, run_bind_of_ok hcallee, run_bind_of_ok hvalues, apply, invoke, if_pos hlength,
    run_bind_of_ok hnew, run_bind_of_ok hdeclare]

theorem Enters.of_returned (h : Enters n scope callee arguments store closure inner middle)
    (token : Token) {value : Value}
    (hb : EStateM.run (runBlock (invoke n) inner closure.body) middle =
      .error (.returned value) after) :
    EStateM.run (evaluate (invoke (n + 1)) scope (.call token callee arguments)) store =
      .ok value after := by
  rw [h.run, run_catchReturn, hb]

theorem Enters.of_failed (h : Enters n scope callee arguments store closure inner middle)
    (token : Token) {error : RuntimeError}
    (hb : EStateM.run (runBlock (invoke n) inner closure.body) middle =
      .error (.failed error) after) :
    EStateM.run (evaluate (invoke (n + 1)) scope (.call token callee arguments)) store =
      .error (.failed error) after := by
  rw [h.run, run_catchReturn, hb]

end Eval

/-- An expression about to be evaluated, with at most so many calls inside one another. -/
structure Site where
  limit : Nat
  scope : ScopeId
  store : Store
  expr : Expr

def Site.outcome (site : Site) : EStateM.Result Exit Store Value :=
  EStateM.run (evaluate (invoke site.limit) site.scope site.expr) site.store

/-- The evaluation at the first site gets to the second, into contexts and into the bodies of the
functions that are called. -/
inductive Site.Leads : Site → Site → Prop where
  | here (site : Site) : Leads site site
  | inside {limit : Nat} {scope : ScopeId} {store middle : Store} {hole : Expr} {site : Site}
    (context : Context) (hr : context.Reaches (invoke limit) scope store middle)
    (h : Leads ⟨limit, scope, middle, hole⟩ site) :
    Leads ⟨limit, scope, store, context.fill hole⟩ site
  | call {n : Nat} {scope inner : ScopeId} {store entered middle : Store} {brace : Token}
    {callee hole : Expr} {arguments : List Expr} {closure : Closure} {site : Site} (token : Token)
    (body : Sequence) (he : Enters n scope callee arguments store closure inner entered)
    (hbody : closure.body = .mk brace (body.fill hole))
    (hr : body.Reaches (invoke n) inner entered middle)
    (h : Leads ⟨n, inner, middle, hole⟩ site) :
    Leads ⟨n + 1, scope, store, .call token callee arguments⟩ site

/-- A runtime error passes through all the calls on the way. -/
theorem Site.Leads.failed {site inner : Site} (h : site.Leads inner) {error : RuntimeError}
    {after : Store} (hf : inner.outcome = .error (.failed error) after) :
    site.outcome = .error (.failed error) after := by
  induction h with
  | here => exact hf
  | inside context hr _ ih => exact context_exit context hr (ih hf)
  | call token body he hbody hr _ ih =>
    refine he.of_failed token ?_
    rw [hbody]
    exact block_exit _ hr (ih hf)

namespace Eval

variable {call : Call} {scope : ScopeId} {store middle after : Store} {exit : Exit}

theorem program_exit {program : Sequence} {hole : Expr}
    (hr : program.Reaches call scope store middle)
    (he : EStateM.run (evaluate call scope hole) middle = .error exit after) :
    EStateM.run (runProgram call scope (program.fill hole)) store = .error exit after := by
  obtain ⟨value, hb⟩ := hr
  exact runProgram_exit program.behind hb (place_exit program.place he)

theorem answer_of_failed {x : Eval Value} {error : RuntimeError}
    (h : EStateM.run x store = .error (.failed error) after) :
    answer x store = (.value (.error error), after) := by
  unfold EStateM.run at h
  rw [answer, h]

theorem answer_of_returned {x : Eval Value} {value : Value}
    (h : EStateM.run x store = .error (.returned value) after) :
    answer x store = (.value (.returned value), after) := by
  unfold EStateM.run at h
  rw [answer, h]

end Eval

/-- Early exits reach the right place through any context: what ends the evaluation of the hole ends
that of all that is around it; at a call a `return` becomes its value, while a runtime error passes
through; and what arrives at the top is answered. -/
theorem early_exits :
    (∀ (limit : Nat) (scope : ScopeId) (store between middle after : Store) (exit : Exit)
      (program : Sequence) (brace : Token) (context : Context) (hole : Expr),
      program.Reaches (invoke limit) scope store between →
      context.Reaches (invoke limit) scope between middle →
      EStateM.run (evaluate (invoke limit) scope hole) middle = .error exit after →
      EStateM.run (evaluate (invoke limit) scope (context.fill hole)) between =
        .error exit after ∧
      EStateM.run (run (invoke limit) scope (program.place.fill (context.fill hole))) between =
        .error exit after ∧
      EStateM.run (runBlock (invoke limit) scope (.mk brace (program.fill (context.fill hole))))
        store = .error exit after ∧
      EStateM.run (runProgram (invoke limit) scope (program.fill (context.fill hole))) store =
        .error exit after) ∧
    (∀ (n : Nat) (scope : ScopeId) (token : Token) (callee : Expr) (arguments : List Expr)
      (store : Store) (closure : Closure) (inner : ScopeId) (middle after : Store),
      Enters n scope callee arguments store closure inner middle →
      (∀ value, EStateM.run (runBlock (invoke n) inner closure.body) middle =
          .error (.returned value) after →
        EStateM.run (evaluate (invoke (n + 1)) scope (.call token callee arguments)) store =
          .ok value after) ∧
      ∀ error, EStateM.run (runBlock (invoke n) inner closure.body) middle =
          .error (.failed error) after →
        EStateM.run (evaluate (invoke (n + 1)) scope (.call token callee arguments)) store =
          .error (.failed error) after) ∧
    (∀ (limit : Nat) (scope : ScopeId) (store between after : Store) (error : RuntimeError)
      (program : Sequence) (e : Expr) (site : Site),
      program.Reaches (invoke limit) scope store between →
      Site.Leads ⟨limit, scope, between, e⟩ site →
      site.outcome = .error (.failed error) after →
      e.run limit scope between = (.value (.error error), after) ∧
      (program.place.fill e).run limit scope between = (.value (.error error), after) ∧
      Program.run limit (program.fill e) scope store = (.value (.error error), after)) ∧
    ∀ (limit : Nat) (scope : ScopeId) (store between after : Store) (value : Value)
      (program : Sequence) (e : Expr),
      program.Reaches (invoke limit) scope store between →
      EStateM.run (evaluate (invoke limit) scope e) between = .error (.returned value) after →
      e.run limit scope between = (.value (.returned value), after) ∧
      (program.place.fill e).run limit scope between = (.value (.returned value), after) ∧
      Program.run limit (program.fill e) scope store = (.value value, after) := by
  refine ⟨?_, ?_, ?_, ?_⟩
  · intro limit scope store between middle after exit program brace context hole hp hc he
    have h := context_exit context hc he
    exact ⟨h, place_exit program.place h, block_exit brace hp h, program_exit hp h⟩
  · intro n scope token callee arguments store closure inner middle after he
    exact ⟨fun _ hb => he.of_returned token hb, fun _ hb => he.of_failed token hb⟩
  · intro limit scope store between after error program e site hp hl hf
    have h := hl.failed hf
    refine ⟨answer_of_failed h, answer_of_failed (place_exit program.place h), ?_⟩
    have hprogram := program_exit hp h
    unfold EStateM.run at hprogram
    rw [Program.run, hprogram]
  · intro limit scope store between after value program e hp he
    refine ⟨answer_of_returned he, answer_of_returned (place_exit program.place he), ?_⟩
    have hprogram := program_exit hp he
    unfold EStateM.run at hprogram
    rw [Program.run, hprogram]

/-- A conditional that leaves the function around it. -/
def returningFive : Expr :=
  .conditional (Token.endAt 0) (.boolean (Token.endAt 0) true)
    (.mk (Token.endAt 0) [.returnValue (Token.endAt 0) (.integer (Token.endAt 0) 5)]) none

/-- The negation of a truth value, which is an error. -/
def negatedTruth : Expr := .unary (Token.endAt 0) .negate (.boolean (Token.endAt 0) true)

/-- A function without parameters that is called where it stands. -/
def calledAtOnce (hole : Expr) : Expr :=
  .call (Token.endAt 0) (.function (Token.endAt 0) []
    (.mk (Token.endAt 0) [.expression (Token.endAt 0) hole])) []

theorem early_exits_reached :
    (∃ after, Program.run 0 [.letName (Token.endAt 0) ⟨Token.endAt 0, "x"⟩
      (.unary (Token.endAt 0) .not returningFive)] Store.fresh.1 Store.fresh.2 =
      (.value (.integer 5), after)) ∧
    (∃ after, EStateM.run (evaluate (invoke 1) Store.fresh.1 (calledAtOnce returningFive))
      Store.fresh.2 = .ok (.integer 5) after) ∧
    ∃ after, Program.run 1 [.letName (Token.endAt 0) ⟨Token.endAt 0, "x"⟩
      (calledAtOnce negatedTruth)] Store.fresh.1 Store.fresh.2 =
      (.value (.error (.unknownPrefix .negate .boolean)), after) := by
  have henters : ∀ hole : Expr, Enters 0 Store.fresh.1 (.function (Token.endAt 0) []
      (.mk (Token.endAt 0) [.expression (Token.endAt 0) hole])) [] Store.fresh.2 _ _ _ :=
    fun hole => ⟨0, [], _, _, rfl, rfl, rfl, rfl, rfl⟩
  refine ⟨?_, ?_, ?_⟩
  · have h := early_exits.1 0 Store.fresh.1 Store.fresh.2 Store.fresh.2 Store.fresh.2 _ _
      ⟨[], .letName (Token.endAt 0) ⟨Token.endAt 0, "x"⟩, []⟩ (Token.endAt 0)
      [.operand (Token.endAt 0) .not] returningFive ⟨.null, rfl⟩ ⟨_, rfl, rfl⟩ rfl
    have hrun := early_exits.2.2.2 0 Store.fresh.1 Store.fresh.2 Store.fresh.2 _ _
      ⟨[], .letName (Token.endAt 0) ⟨Token.endAt 0, "x"⟩, []⟩ _ ⟨.null, rfl⟩ h.1
    exact ⟨_, hrun.2.2⟩
  · exact ⟨_, (early_exits.2.1 0 Store.fresh.1 (Token.endAt 0) _ [] Store.fresh.2 _ _ _ _
      (henters returningFive)).1 _ rfl⟩
  · have hleads := Site.Leads.call (Token.endAt 0) ⟨[], .expression (Token.endAt 0), []⟩
      (henters negatedTruth) rfl ⟨.null, rfl⟩ (.here _)
    have h := early_exits.2.2.1 1 Store.fresh.1 Store.fresh.2 Store.fresh.2 _ _
      ⟨[], .letName (Token.endAt 0) ⟨Token.endAt 0, "x"⟩, []⟩ _ _ ⟨.null, rfl⟩ hleads rfl
    exact ⟨_, h.2.2⟩

end MonkeyLang
