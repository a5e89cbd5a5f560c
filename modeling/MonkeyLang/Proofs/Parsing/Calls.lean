import MonkeyLang.Proofs.Parsing.Run

namespace MonkeyLang

namespace Parse

/-- A call for one statement: what it returned, which is nothing after a syntax error, the errors
that were recorded during it, and the calls for the statements of its own blocks. -/
inductive Call where
  | mk (result : Option Stmt) (recorded : List SyntaxError) (nested : List Call)

namespace Call

def result : Call → Option Stmt
  | mk result _ _ => result

def recorded : Call → List SyntaxError
  | mk _ recorded _ => recorded

def nested : Call → List Call
  | mk _ _ nested => nested

mutual

/-- The call and those within it, each before those within it. -/
def all : Call → List Call
  | mk result recorded nested => mk result recorded nested :: allOf nested

def allOf : List Call → List Call
  | [] => []
  | call :: calls => all call ++ allOf calls

end

mutual

/-- The statements that were returned and not dropped with a statement around them. -/
def kept : Call → List Stmt
  | mk (some statement) _ nested => statement :: keptOf nested
  | mk none _ _ => []

def keptOf : List Call → List Stmt
  | [] => []
  | call :: calls => kept call ++ keptOf calls

end

theorem allOf_eq (calls : List Call) : allOf calls = calls.flatMap all := by
  induction calls with
  | nil => rw [allOf, List.flatMap_nil]
  | cons call calls ih => rw [allOf, ih, List.flatMap_cons]

/-- Among the calls within a call are those that it makes itself and those within these. -/
theorem eq_or_nested {call c : Call} (h : c ∈ call.all) :
    c = call ∨ ∃ c' ∈ call.nested, c ∈ c'.all := by
  obtain ⟨result, recorded, nested⟩ := call
  rw [all, allOf_eq] at h
  exact (List.mem_cons.mp h).imp_right List.mem_flatMap.mp

theorem keptOf_eq (calls : List Call) : keptOf calls = calls.flatMap kept := by
  induction calls with
  | nil => rw [keptOf, List.flatMap_nil]
  | cons call calls ih => rw [keptOf, ih, List.flatMap_cons]

theorem keptOf_append (calls calls' : List Call) :
    keptOf (calls ++ calls') = keptOf calls ++ keptOf calls' := by
  simp only [keptOf_eq, List.flatMap_append]

mutual

/-- Where no call drops its statement, each has kept it. -/
theorem map_result_all : ∀ call : Call, (∀ c ∈ call.all, c.result ≠ none) →
    call.all.map result = call.kept.map some
  | mk none _ _, h => absurd rfl (h _ (by rw [all]; exact List.mem_cons_self))
  | mk (some s) _ nested, h => by
    have hnested : ∀ c ∈ allOf nested, c.result ≠ none := fun c hc =>
      h c (by rw [all]; exact List.mem_cons_of_mem _ hc)
    rw [all, kept, List.map_cons, List.map_cons, map_result_allOf nested hnested]
    rfl

theorem map_result_allOf : ∀ calls : List Call, (∀ c ∈ allOf calls, c.result ≠ none) →
    (allOf calls).map result = (keptOf calls).map some
  | [], _ => by rw [allOf, keptOf, List.map_nil, List.map_nil]
  | call :: calls, h => by
    rw [allOf] at h ⊢
    have hcall := map_result_all call fun c hc => h c (List.mem_append_left _ hc)
    have hcalls := map_result_allOf calls fun c hc => h c (List.mem_append_right _ hc)
    rw [keptOf, List.map_append, List.map_append, hcall, hcalls]

end

end Call

/-- The parser and the calls for a statement that have returned to where it is. -/
structure Watched where
  parser : Parser
  calls : List Call

/-- A call for a statement that was made at `before` has returned at `after`. -/
def Watched.note (before : Watched) (result : Option Stmt) (after : Watched) : Watched :=
  let recorded := after.parser.errors.drop before.parser.errors.length
  ⟨after.parser, before.calls ++ [⟨result, recorded, after.calls⟩]⟩

abbrev Watch := EStateM Parser.Stop Watched

namespace Watch

/-- A step without a call for a statement. -/
def lift {α : Type} (x : Parse α) : Watch α := fun watched =>
  match x watched.parser with
  | .ok a after => .ok a { watched with parser := after }
  | .error stop after => .error stop { watched with parser := after }

instance : MonadStateOf Parser Watch where
  get := lift get
  set parser := lift (set parser)
  modifyGet f := lift (modifyGet f)

/-- A call for a statement, with nothing if there was a syntax error. -/
def attempt (parse : Watch Stmt) : Watch (Option Stmt) := fun before =>
  match parse ⟨before.parser, []⟩ with
  | .ok statement after => .ok (some statement) (before.note (some statement) after)
  | .error .syntaxError after => .ok none (before.note none after)
  | .error .depth after => .error .depth { before with parser := after.parser }

instance : Attempts Watch := ⟨attempt⟩

section
variable {α β : Type} {x : Parse α} {w : Watched} {q : Parser}

theorem lift_of_ok {a : α} (h : x.run w.parser = .ok a q) :
    (lift x).run w = .ok a { w with parser := q } := by
  rw [EStateM.run] at h
  rw [EStateM.run, lift, h]

theorem lift_of_error {stop : Parser.Stop} (h : x.run w.parser = .error stop q) :
    (lift x).run w = .error stop { w with parser := q } := by
  rw [EStateM.run] at h
  rw [EStateM.run, lift, h]

theorem lift_bind {f : α → Parse β} : lift (x >>= f) = lift x >>= fun a => lift (f a) := by
  funext w
  change (lift (x >>= f)).run w = (lift x >>= fun a => lift (f a)).run w
  rw [EStateM.run_bind]
  cases hr : x.run w.parser with
  | ok a q =>
    have hbind : (x >>= f).run w.parser = (f a).run q := by rw [EStateM.run_bind, hr]
    rw [lift_of_ok hr]
    cases hf : (f a).run q with
    | ok b r =>
      rw [lift_of_ok (hbind.trans hf)]
      exact (lift_of_ok (w := ⟨q, w.calls⟩) hf).symm
    | error s r =>
      rw [lift_of_error (hbind.trans hf)]
      exact (lift_of_error (w := ⟨q, w.calls⟩) hf).symm
  | error s q => rw [lift_of_error hr, lift_of_error (by rw [EStateM.run_bind, hr])]

end

section
variable {x : Watch Stmt} {w after : Watched}

theorem attempt_of_ok {s : Stmt} (h : x.run ⟨w.parser, []⟩ = .ok s after) :
    (attempt x).run w = .ok (some s) (w.note (some s) after) := by
  rw [EStateM.run] at h
  rw [EStateM.run, attempt, h]

theorem attempt_of_syntaxError (h : x.run ⟨w.parser, []⟩ = .error .syntaxError after) :
    (attempt x).run w = .ok none (w.note none after) := by
  rw [EStateM.run] at h
  rw [EStateM.run, attempt, h]

theorem attempt_of_depth (h : x.run ⟨w.parser, []⟩ = .error .depth after) :
    (attempt x).run w = .error .depth { w with parser := after.parser } := by
  rw [EStateM.run] at h
  rw [EStateM.run, attempt, h]

end

end Watch

end Parse

end MonkeyLang
