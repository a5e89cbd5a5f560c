import MonkeyLang.Proofs.Evaluation.Snapshots
import MonkeyLang.Proofs.Rendering.Tree

namespace MonkeyLang

open Eval

structure Closure.WellFormed (closure : Closure) : Prop where
  parameters : ∀ x ∈ closure.parameters, IsName x.name
  body : closure.body.WellFormed

/-- All functions in the value are well formed. -/
def Value.WellFormed (value : Value) : Prop :=
  ∀ identity closure, (function identity closure).Inside value → closure.WellFormed

namespace Value

theorem wellFormed_function {identity : Nat} {closure : Closure} :
    (function identity closure).WellFormed ↔ closure.WellFormed := by
  constructor
  · exact fun h => h identity closure (.self _)
  · intro h j other hi
    cases hi with
    | self => exact h

theorem wellFormed_array {identity : Nat} {items : List Value} :
    (array identity items).WellFormed ↔ ∀ value ∈ items, value.WellFormed := by
  constructor
  · exact fun h value hm j closure hi => h j closure (.item hm hi)
  · intro h j closure hi
    cases hi with
    | item hm hv => exact h _ hm j closure hv

theorem Simple.wellFormed {value : Value} (h : value.Simple) : value.WellFormed := by
  intro j closure hi
  cases hi with
  | self | item | returned => exact h.elim

theorem wellFormed_inherited : Inherited Value.WellFormed :=
  ⟨Simple.wellFormed, fun h => wellFormed_array.mp h⟩

end Value

/-- Everything bound in the store is well formed. -/
def Store.WellFormed (store : Store) : Prop := ∀ value, store.Binds value → value.WellFormed

namespace Store.WellFormed

variable {store : Store}

theorem access (h : store.WellFormed) {scope : ScopeId} {name : String} {value : Value}
    (ha : store.access scope name = some value) : value.WellFormed := by
  obtain ⟨id, -, found, hf, hb⟩ := Store.bound_of_access ha
  exact h value ⟨id, found, hf, (name, value), hb, rfl⟩

theorem newScope (h : store.WellFormed) (parent : ScopeId) :
    (store.newScope parent).2.WellFormed := by
  rintro value ⟨id, found, hf, binding, hb, rfl⟩
  rcases Store.of_newScope hf with hf | rfl
  · exact h _ ⟨id, found, hf, binding, hb, rfl⟩
  · simp at hb

theorem declare (h : store.WellFormed) (scope : ScopeId) (name : String) {value : Value}
    (hv : value.WellFormed) : (store.declare scope name value).WellFormed := by
  rintro other ⟨id, found, hf, binding, hb, rfl⟩
  obtain ⟨before, hbefore, rfl | rfl⟩ := Store.of_declare hf
  · exact h _ ⟨id, _, hbefore, binding, hb, rfl⟩
  · rcases Scope.mem_bind hb with rfl | hb
    · exact hv
    · exact h _ ⟨id, before, hbefore, binding, hb, rfl⟩

end Store.WellFormed

/-- The trees and the values of the task are well formed. -/
def Task.WellFormed : Task → Prop
  | expression e => e.WellFormed
  | expressions es => Expr.AllWellFormed es
  | statement s => s.WellFormed
  | statements ss => Stmt.AllWellFormed ss
  | program p => p.WellFormed
  | application callee arguments => callee.WellFormed ∧ ∀ value ∈ arguments, value.WellFormed
  | binding _ arguments => ∀ value ∈ arguments, value.WellFormed

namespace Eval

variable {α β : Type} {x : Eval α} {ok : α → Prop}

/-- From a well-formed store the run comes to one, with a value that is `ok`, or with a `return` of
a well-formed value. -/
def Forms (x : Eval α) (ok : α → Prop) : Prop :=
  ∀ store : Store, store.WellFormed →
    match EStateM.run x store with
    | .ok a after => after.WellFormed ∧ ok a
    | .error exit after => after.WellFormed ∧ ∀ value ∈ exit.values, value.WellFormed

theorem forms_pure {a : α} (ha : ok a) : Forms (pure a) ok := fun _ hs => ⟨hs, ha⟩

theorem forms_fail (error : RuntimeError) : Forms (fail error : Eval α) ok :=
  fun _ hs => ⟨hs, List.forall_mem_nil _⟩

theorem Forms.bind {f : α → Eval β} {ok' : β → Prop} (hx : Forms x ok)
    (hf : ∀ a, ok a → Forms (f a) ok') : Forms (x >>= f) ok' := by
  intro store hs
  have h := hx store hs
  rw [EStateM.run_bind]
  cases hr : EStateM.run x store with
  | ok a middle =>
    rw [hr] at h
    exact hf a h.2 middle h.1
  | error exit after =>
    rw [hr] at h
    exact h

theorem Forms.final (h : Forms x ok) {store : Store} (hs : store.WellFormed) :
    (x.final store).WellFormed := by
  have hx := h store hs
  cases hr : EStateM.run x store with
  | ok a after =>
    rw [hr] at hx
    exact final_of_ok hr ▸ hx.1
  | error exit after =>
    rw [hr] at hx
    exact final_of_error hr ▸ hx.1

theorem forms_ofExcept {result : Except RuntimeError α} (h : ∀ a, result = .ok a → ok a) :
    Forms (ofExcept result) ok := by
  cases result with
  | ok a => exact forms_pure (h a rfl)
  | error error => exact forms_fail error

theorem forms_resolve (scope : ScopeId) (name : String) :
    Forms (resolve scope name) Value.WellFormed := by
  intro store hs
  cases ha : store.access scope name with
  | some v => simpa [resolve, ha] using forms_pure (hs.access ha) store hs
  | none =>
    cases hb : Builtin.ofName? name with
    | some builtin =>
      have hsimple : (Value.builtin builtin).WellFormed := Value.Simple.wellFormed trivial
      simpa [resolve, ha, hb] using forms_pure hsimple store hs
    | none =>
      simpa [resolve, ha, hb] using
        (forms_fail (.unknownName name) : Forms (fail _ : Eval Value) _) store hs

theorem forms_declare (scope : ScopeId) (name : String) {value : Value}
    (hv : value.WellFormed) : Forms (declare scope name value) fun _ => True :=
  fun _ hs => ⟨hs.declare scope name hv, trivial⟩

theorem forms_newArray {items : List Value} (h : ∀ value ∈ items, value.WellFormed) :
    Forms (newArray items) Value.WellFormed :=
  fun _ hs => ⟨hs, Value.wellFormed_array.mpr h⟩

theorem forms_newFunction {closure : Closure} (h : closure.WellFormed) :
    Forms (newFunction closure) Value.WellFormed :=
  fun _ hs => ⟨hs, Value.wellFormed_function.mpr h⟩

theorem forms_declareAll (scope : ScopeId) : ∀ (parameters : List Identifier)
    (arguments : List Value), (∀ value ∈ arguments, value.WellFormed) →
    Forms (declareAll scope parameters arguments) fun _ => True
  | [], _, _ => forms_pure trivial
  | _ :: _, [], _ => forms_pure trivial
  | parameter :: parameters, argument :: arguments, h => by
    obtain ⟨hfirst, hrest⟩ := List.forall_mem_cons.mp h
    rw [declareAll]
    exact (forms_declare scope parameter.name hfirst).bind fun _ _ =>
      forms_declareAll scope parameters arguments hrest

theorem forms_callBuiltin (builtin : Builtin) {arguments : List Value}
    (ha : ∀ value ∈ arguments, value.WellFormed) :
    Forms (callBuiltin builtin arguments) Value.WellFormed := by
  have p := Value.wellFormed_inherited
  cases builtin with
  | len =>
    apply forms_ofExcept
    intro v h
    obtain ⟨argument, -, h⟩ := Builtin.oneArgument_eq_ok h
    exact p.of_length h
  | first =>
    apply forms_ofExcept
    intro v h
    obtain ⟨argument, hm, h⟩ := Builtin.oneArgument_eq_ok h
    exact p.of_firstOf (ha argument hm) h
  | last =>
    apply forms_ofExcept
    intro v h
    obtain ⟨argument, hm, h⟩ := Builtin.oneArgument_eq_ok h
    exact p.of_lastOf (ha argument hm) h
  | push =>
    have hpushed : Forms (ofExcept (Builtin.pushed arguments)) (∀ value ∈ ·, value.WellFormed) :=
      forms_ofExcept fun items h => p.of_pushed ha h
    exact hpushed.bind fun items h => forms_newArray h

/-- Calls of well-formed functions with well-formed arguments. -/
def CallForms (call : Call) : Prop :=
  ∀ closure arguments, closure.WellFormed → (∀ value ∈ arguments, value.WellFormed) →
    Forms (call closure arguments) Value.WellFormed

theorem forms_apply {call : Call} (hcall : CallForms call) {callee : Value}
    {arguments : List Value} (hc : callee.WellFormed)
    (ha : ∀ value ∈ arguments, value.WellFormed) :
    Forms (apply call callee arguments) Value.WellFormed := by
  unfold Eval.apply
  split
  · exact hcall _ _ (Value.wellFormed_function.mp hc) ha
  · exact forms_callBuiltin _ ha
  · exact forms_fail _

section
variable {call : Call}

mutual

theorem forms_evaluate (hcall : CallForms call) (scope : ScopeId) : ∀ e : Expr, e.WellFormed →
    Forms (evaluate call scope e) Value.WellFormed
  | .name x, _ => by
    rw [evaluate]
    exact forms_resolve scope x.name
  | .integer _ _, _ | .boolean _ _, _ | .string _ _, _ => by
    rw [evaluate]
    exact forms_pure (Value.Simple.wellFormed trivial)
  | .array _ items, h => by
    rw [evaluate]
    exact (forms_evaluateAll hcall scope items h).bind fun values hv => forms_newArray hv
  | .unary _ op right, h => by
    rw [evaluate]
    exact (forms_evaluate hcall scope right h).bind fun value _ =>
      forms_ofExcept fun result hr => Value.wellFormed_inherited.of_prefixOp hr
  | .binary _ left op right, h => by
    rw [evaluate]
    refine (forms_evaluate hcall scope left h.1).bind fun a _ => ?_
    refine (forms_evaluate hcall scope right h.2).bind fun b _ => ?_
    exact forms_ofExcept fun result hr => Value.wellFormed_inherited.of_infixOp hr
  | .conditional _ condition consequence none, h => by
    rw [evaluate]
    refine (forms_evaluate hcall scope condition h.1).bind fun value _ => ?_
    split
    · exact forms_runBlock hcall scope consequence h.2
    · exact forms_pure (Value.Simple.wellFormed trivial)
  | .conditional _ condition consequence (some alternative), h => by
    rw [evaluate]
    refine (forms_evaluate hcall scope condition h.1).bind fun value _ => ?_
    split
    · exact forms_runBlock hcall scope consequence h.2.1
    · exact forms_runBlock hcall scope alternative h.2.2
  | .function _ parameters body, h => by
    rw [evaluate]
    exact forms_newFunction ⟨h.1, h.2⟩
  | .call _ callee arguments, h => by
    rw [evaluate]
    refine (forms_evaluate hcall scope callee h.1).bind fun f hf => ?_
    exact (forms_evaluateAll hcall scope arguments h.2).bind fun values hv =>
      forms_apply hcall hf hv
  | .index _ left position, h => by
    rw [evaluate]
    refine (forms_evaluate hcall scope left h.1).bind fun a ha => ?_
    refine (forms_evaluate hcall scope position h.2).bind fun i _ => ?_
    exact forms_ofExcept fun result hr => Value.wellFormed_inherited.of_index ha hr

theorem forms_evaluateAll (hcall : CallForms call) (scope : ScopeId) : ∀ es : List Expr,
    Expr.AllWellFormed es → Forms (evaluateAll call scope es) (∀ value ∈ ·, value.WellFormed)
  | [], _ => by
    rw [evaluateAll]
    exact forms_pure (List.forall_mem_nil _)
  | e :: es, h => by
    rw [evaluateAll]
    refine (forms_evaluate hcall scope e h.1).bind fun value hv => ?_
    exact (forms_evaluateAll hcall scope es h.2).bind fun values hvs =>
      forms_pure (List.forall_mem_cons.mpr ⟨hv, hvs⟩)

theorem forms_run (hcall : CallForms call) (scope : ScopeId) : ∀ s : Stmt, s.WellFormed →
    Forms (run call scope s) Value.WellFormed
  | .letName _ name value, h => by
    rw [run]
    refine (forms_evaluate hcall scope value h.2).bind fun v hv => ?_
    exact (forms_declare scope name.name hv).bind fun _ _ =>
      forms_pure (Value.Simple.wellFormed trivial)
  | .returnValue _ value, h => by
    rw [run]
    refine (forms_evaluate hcall scope value h).bind fun v hv store hs => ?_
    exact ⟨hs, List.forall_mem_singleton.mpr hv⟩
  | .expression _ value, h => by
    rw [run]
    exact forms_evaluate hcall scope value h
  | .block _, h => h.elim

theorem forms_runAll (hcall : CallForms call) (scope : ScopeId) : ∀ ss : List Stmt,
    Stmt.AllWellFormed ss → Forms (runAll call scope ss) Value.WellFormed
  | [], _ => by
    rw [runAll]
    exact forms_pure (Value.Simple.wellFormed trivial)
  | [s], h => by
    rw [runAll]
    exact forms_run hcall scope s h.1
  | s :: next :: rest, h => by
    rw [runAll]
    exact (forms_run hcall scope s h.1).bind fun _ _ => forms_runAll hcall scope (next :: rest) h.2

theorem forms_runBlock (hcall : CallForms call) (scope : ScopeId) : ∀ b : Block, b.WellFormed →
    Forms (runBlock call scope b) Value.WellFormed
  | .mk _ statements, h => by
    rw [runBlock]
    exact forms_runAll hcall scope statements h

end

theorem forms_runProgram (hcall : CallForms call) (scope : ScopeId) : ∀ p : Program, p.WellFormed →
    Forms (runProgram call scope p) (∀ value ∈ ·.toList, value.WellFormed)
  | [], _ => by
    rw [runProgram]
    exact forms_pure (List.forall_mem_nil _)
  | [s], h => by
    rw [runProgram]
    refine (forms_run hcall scope s h.1).bind fun value hv => forms_pure ?_
    split
    · exact List.forall_mem_nil _
    · exact List.forall_mem_singleton.mpr hv
  | s :: next :: rest, h => by
    rw [runProgram]
    exact (forms_run hcall scope s h.1).bind fun _ _ =>
      forms_runProgram hcall scope (next :: rest) h.2

end

theorem Forms.catchReturn {body : Eval Value} (h : Forms body Value.WellFormed) :
    Forms (catchReturn body) Value.WellFormed := by
  intro store hs
  have hb := h store hs
  rw [run_catchReturn]
  cases hr : EStateM.run body store with
  | ok value after => simpa [hr] using hb
  | error exit after =>
    rw [hr] at hb
    cases exit with
    | returned value => exact ⟨hb.1, hb.2 value (List.mem_singleton_self _)⟩
    | failed error => exact hb
    | tooDeep => exact hb

theorem invoke_forms (n : Nat) : CallForms (invoke n) := by
  induction n with
  | zero => exact fun _ _ _ _ _ hs => ⟨hs, List.forall_mem_nil _⟩
  | succ n ih =>
    intro closure arguments hc ha
    rw [invoke]
    split
    · have hnew : Forms (Eval.newScope closure.scope) fun _ => True :=
        fun _ hs => ⟨hs.newScope closure.scope, trivial⟩
      refine hnew.bind fun scope _ => ?_
      refine (forms_declareAll scope closure.parameters arguments ha).bind fun _ _ => ?_
      exact (forms_runBlock ih scope closure.body hc.body).catchReturn
    · exact forms_fail _

end Eval

theorem Task.forms (limit : Nat) (scope : ScopeId) (task : Task) (h : task.WellFormed) :
    Forms (task.run limit scope) (∀ value ∈ ·, value.WellFormed) := by
  have hcall := invoke_forms limit
  have hone : ∀ {x : Eval Value}, Forms x Value.WellFormed →
      Forms (do return [← x]) (∀ value ∈ ·, value.WellFormed) :=
    fun hx => hx.bind fun _ hv => forms_pure (List.forall_mem_singleton.mpr hv)
  cases task with
  | expression e => exact hone (forms_evaluate hcall scope e h)
  | expressions es => exact forms_evaluateAll hcall scope es h
  | statement s => exact hone (forms_run hcall scope s h)
  | statements ss => exact hone (forms_runAll hcall scope ss h)
  | program p => exact (forms_runProgram hcall scope p h).bind fun _ hv => forms_pure hv
  | application callee arguments => exact hone (forms_apply hcall h.1 h.2)
  | binding parameters arguments =>
    exact (forms_declareAll scope parameters arguments h).bind fun _ _ =>
      forms_pure (List.forall_mem_nil _)

theorem Block.WellFormed.statements {b : Block} (h : b.WellFormed) :
    Stmt.AllWellFormed b.statements := by
  cases b
  exact h

theorem Expr.WellFormed.conditional {t : Token} {e : Expr} {b : Block} {alternative : Option Block}
    (h : (Expr.conditional t e b alternative).WellFormed) :
    e.WellFormed ∧ b.WellFormed ∧ ∀ a ∈ alternative, a.WellFormed := by
  cases alternative with
  | none => exact ⟨h.1, h.2, by simp⟩
  | some a => exact ⟨h.1, h.2.1, by simpa using h.2.2⟩

section
variable {limit : Nat} {scope : ScopeId} {store middle after : Store} {task part : Task}
  {values : List Value}

theorem Task.Ends.wellFormed (he : task.Ends limit scope store values after)
    (hs : store.WellFormed) (h : task.WellFormed) :
    after.WellFormed ∧ ∀ value ∈ values, value.WellFormed := by
  have hforms := task.forms limit scope h store hs
  rwa [he] at hforms

/-- The parts of a task are parts of its trees, and find what the earlier parts leave. -/
theorem Task.Part.wellFormed (h : task.Part limit scope store part middle)
    (hs : store.WellFormed) (ht : task.WellFormed) : middle.WellFormed ∧ part.WellFormed := by
  cases h with
  | items | operand | returnValue | alone => exact ⟨hs, ht⟩
  | letName => exact ⟨hs, ht.2⟩
  | left | callee | indexed | firstItem | firstStatement | firstOfProgram => exact ⟨hs, ht.1⟩
  | right h | arguments h | position h | otherItems h | otherStatements h | othersOfProgram h =>
    exact ⟨(h.wellFormed hs ht.1).1, ht.2⟩
  | condition => exact ⟨hs, ht.conditional.1⟩
  | consequence he =>
    exact ⟨(he.wellFormed hs ht.conditional.1).1, ht.conditional.2.1.statements⟩
  | alternative he =>
    exact ⟨(he.wellFormed hs ht.conditional.1).1, (ht.conditional.2.2 _ rfl).statements⟩
  | application he hes =>
    obtain ⟨hmiddle, hcallee⟩ := he.wellFormed hs ht.1
    obtain ⟨hafter, harguments⟩ := hes.wellFormed hmiddle ht.2
    exact ⟨hafter, hcallee _ (List.mem_singleton_self _), harguments⟩
  | block => exact ht.elim
  | otherParameters =>
    obtain ⟨hv, hvs⟩ := List.forall_mem_cons.mp ht
    exact ⟨hs.declare _ _ hv, hvs⟩

end

/-- The store and the task of the moment are well formed. -/
structure Moment.WellFormed (moment : Moment) : Prop where
  store : moment.store.WellFormed
  task : moment.task.WellFormed

namespace Moment

variable {moment later : Moment}

/-- The task of the moment comes to the value, or ends in a `return` of it. -/
inductive Yields (moment : Moment) (value : Value) : Prop where
  | comes {values : List Value} {after : Store} (h : moment.outcome = .ok values after)
    (hv : value ∈ values)
  | stops {after : Store} (h : moment.outcome = .error (.returned value) after)

theorem WellFormed.does (hm : moment.WellFormed) (h : moment.Does later) : later.WellFormed := by
  obtain ⟨hstore, htask⟩ := hm
  cases h with
  | part h =>
    obtain ⟨hmiddle, hpart⟩ := h.wellFormed hstore htask
    exact ⟨hmiddle, hpart⟩
  | parameters hl => exact ⟨hstore.newScope _, htask.2⟩
  | body hl hb =>
    have hclosure := Value.wellFormed_function.mp htask.1
    exact ⟨(hb.wellFormed (hstore.newScope _) htask.2).1, hclosure.body.statements⟩

theorem WellFormed.leads (hm : moment.WellFormed) (h : moment.Leads later) :
    later.WellFormed := by
  induction h with
  | refl => exact hm
  | tail _ hd ih => exact ih.does hd

theorem WellFormed.after (hm : moment.WellFormed) : moment.after.WellFormed :=
  (moment.task.forms moment.limit moment.scope hm.task).final hm.store

theorem WellFormed.yields (hm : moment.WellFormed) {value : Value} (h : moment.Yields value) :
    value.WellFormed := by
  have hforms := moment.task.forms moment.limit moment.scope hm.task moment.store hm.store
  cases h with
  | comes h hv =>
    rw [← outcome, h] at hforms
    exact hforms.2 value hv
  | stops h =>
    rw [← outcome, h] at hforms
    exact hforms.2 value (List.mem_singleton_self _)

end Moment

/-- What is asked for is of a program that was read from a source: to run it, or a statement or the
expression of a statement of it. -/
def Request.Parsed : Request → Prop
  | program p | programOrNull p => ∃ source, p = (Reading.ofSource source).program
  | statement s => ∃ source, s ∈ (Reading.ofSource source).program
  | expression e => ∃ source, ∃ s ∈ (Reading.ofSource source).program, s.value? = some e
  | line _ => True

theorem Stmt.allWellFormed_iff {ss : List Stmt} :
    Stmt.AllWellFormed ss ↔ ∀ s ∈ ss, s.WellFormed := by
  induction ss with
  | nil => simp [Stmt.AllWellFormed]
  | cons s ss ih => simp [Stmt.AllWellFormed, ih]

theorem Stmt.WellFormed.value {s : Stmt} (h : s.WellFormed) {e : Expr} (he : s.value? = some e) :
    e.WellFormed := by
  cases s with
  | letName token name value =>
    cases he
    exact h.2
  | returnValue token value =>
    cases he
    exact h
  | expression token value =>
    cases he
    exact h
  | block body => cases he

theorem Request.Parsed.wellFormed {request : Request} (h : request.Parsed) {task : Task}
    (ht : request.task? = some task) : task.WellFormed := by
  have hread : ∀ source, ∀ s ∈ (Reading.ofSource source).program, s.WellFormed :=
    fun source => Stmt.allWellFormed_iff.mp (reading_wellFormed source)
  cases request with
  | program p | programOrNull p =>
    cases ht
    obtain ⟨source, rfl⟩ := h
    exact reading_wellFormed source
  | statement s =>
    cases ht
    obtain ⟨source, hs⟩ := h
    exact hread source s hs
  | expression e =>
    cases ht
    obtain ⟨source, s, hs, he⟩ := h
    exact (hread source s hs).value he
  | line text =>
    obtain ⟨-, ht⟩ := Option.ite_none_right_eq_some.mp ht
    cases ht
    exact reading_wellFormed text

theorem Session.perform_wellFormed (limit : Nat) {request : Request} (h : request.Parsed)
    {session : Session} (hs : session.store.WellFormed) :
    (session.perform limit request).2.store.WellFormed := by
  cases ht : request.task? with
  | none =>
    obtain ⟨errors, he⟩ := session.perform_none limit ht
    rwa [he]
  | some task =>
    rw [Session.perform_some ht]
    exact Moment.WellFormed.after ⟨hs, h.wellFormed ht⟩

theorem Session.performAll_wellFormed (limit : Nat) {requests : List Request}
    (h : ∀ request ∈ requests, request.Parsed) : ∀ {session : Session}, session.store.WellFormed →
    (session.performAll limit requests).store.WellFormed := by
  induction requests with
  | nil => exact fun hs => hs
  | cons request requests ih =>
    obtain ⟨hfirst, hrest⟩ := List.forall_mem_cons.mp h
    exact fun hs => ih hrest (Session.perform_wellFormed limit hfirst hs)

/-- The value comes up in a run of a parsed program, in an environment where others may have been
run before: the run, or the evaluation of some part of the program or of a function, comes to it. -/
inductive Value.Produced (value : Value) : Prop where
  | intro {limit : Nat} {done : List Request} {request : Request} {start moment : Moment}
    (hdone : ∀ earlier ∈ done, earlier.Parsed) (hrequest : request.Parsed)
    (hb : (Session.start.performAll limit done).Begins limit request start)
    (hl : start.Leads moment) (hv : moment.Yields value)

theorem Value.Produced.wellFormed {value : Value} (h : value.Produced) : value.WellFormed := by
  cases h with
  | @intro limit done request start moment hdone hrequest hb hl hv =>
    obtain ⟨task, ht, rfl⟩ := hb
    have hfresh : Session.start.store.WellFormed := by
      rintro other ⟨id, found, hf, binding, hb, rfl⟩
      simp [Session.start_found hf] at hb
    have hstore := Session.performAll_wellFormed limit hdone hfresh
    exact (Moment.WellFormed.leads ⟨hstore, hrequest.wellFormed ht⟩ hl).yields hv

/-- What a parsed program answers is such a value, unless an error has stopped it. -/
theorem Value.produced_of_run {source : String} {limit : Nat} {value : Value}
    (h : ((Reading.ofSource source).program.run limit Store.fresh.1 Store.fresh.2).1 = .value value)
    (hne : value.isError = false) : value.Produced := by
  obtain ⟨p, hp⟩ : ∃ p, p = (Reading.ofSource source).program := ⟨_, rfl⟩
  have hbegins : (Session.start.performAll limit []).Begins limit (.program p)
      ⟨limit, Store.fresh.1, Store.fresh.2, .program p⟩ := ⟨_, rfl, rfl⟩
  have hparsed : (Request.program p).Parsed := ⟨source, hp⟩
  refine .intro (List.forall_mem_nil _) hparsed hbegins .refl ?_
  rw [← hp, Session.run_program] at h
  cases ho : Moment.outcome ⟨limit, Store.fresh.1, Store.fresh.2, .program p⟩ with
  | ok values after =>
    rw [ho] at h
    cases values with
    | nil => cases h
    | cons first rest =>
      cases h
      exact .comes ho (List.mem_cons_self)
  | error exit after =>
    rw [ho] at h
    cases exit with
    | returned other =>
      cases h
      exact .stops ho
    | failed error =>
      cases h
      cases hne
    | tooDeep => cases h

end MonkeyLang
