import MonkeyLang.Proofs.Evaluation.Frame
import MonkeyLang.Proofs.Evaluation.Renaming

namespace MonkeyLang

open Eval

/-- Identities and scopes are only ever added. -/
structure Store.Grows (before after : Store) : Prop where
  created : before.created ≤ after.created
  scopes : before.scopes.size ≤ after.scopes.size

theorem Store.Grows.trans {a b c : Store} (h : a.Grows b) (k : b.Grows c) : a.Grows c :=
  ⟨Nat.le_trans h.created k.created, Nat.le_trans h.scopes k.scopes⟩

/-- The renaming is still of use. -/
structure Store.Fits (r : Renaming) (store : Store) : Prop where
  identities : store.created ≤ r.identities
  scopes : store.scopes.size ≤ r.scopes

theorem Store.Grows.fits {r : Renaming} {before after : Store} (h : before.Grows after)
    (hf : after.Fits r) : before.Fits r :=
  ⟨Nat.le_trans h.created hf.identities, Nat.le_trans h.scopes hf.scopes⟩

namespace Eval

variable {α β : Type} {r : Renaming}

/-- The same ending, with its value renamed, in another store. -/
def resultIn (r : Renaming) (v : α → α) (after : Store) :
    EStateM.Result Exit Store α → EStateM.Result Exit Store α
  | .ok a _ => .ok (v a) after
  | .error exit _ => .error (exit.renamed r) after

/-- The second run does to the image of a store what the first does to the store. -/
structure Mirrors (r : Renaming) (v : α → α) (x y : Eval α) : Prop where
  grows : Keeps Store.Grows x
  runs : ∀ store image, store.Mirrored r image → (x.final store).Fits r →
    ∃ after, (x.final store).Mirrored r after ∧
      EStateM.run y image = resultIn r v after (EStateM.run x store)

theorem keeps_grows {x : Eval α} (h : ∀ store, x.final store = store) : Keeps Store.Grows x := by
  intro store
  rw [h store]
  exact ⟨Nat.le_refl _, Nat.le_refl _⟩

variable {v : α → α} {w : β → β}

theorem mirrors_pure {a b : α} (h : b = v a) : Mirrors r v (pure a) (pure b) where
  grows := keeps_grows fun _ => rfl
  runs := fun _ image hm _ => ⟨image, hm, by rw [h]; rfl⟩

theorem mirrors_fail (error : RuntimeError) : Mirrors r v (fail error) (fail error) where
  grows := keeps_grows fun _ => rfl
  runs := fun _ image hm _ => ⟨image, hm, rfl⟩

theorem mirrors_throw {a b : Exit} (h : b = a.renamed r) :
    Mirrors r v (throw a : Eval α) (throw b) where
  grows := keeps_grows fun _ => rfl
  runs := fun _ image hm _ => ⟨image, hm, by rw [h]; rfl⟩

theorem Mirrors.bind {x y : Eval α} {f g : α → Eval β} (hx : Mirrors r v x y)
    (hf : ∀ a, Mirrors r w (f a) (g (v a))) : Mirrors r w (x >>= f) (y >>= g) where
  grows := hx.grows.bind Store.Grows.trans fun a => (hf a).grows
  runs := by
    intro store image hm hfits
    rw [final_bind] at hfits ⊢
    rw [EStateM.run_bind, EStateM.run_bind]
    cases hr : EStateM.run x store with
    | ok a middle =>
      simp only [hr] at hfits ⊢
      have hfinal := final_of_ok hr
      have hmiddle := ((hf a).grows middle).fits hfits
      obtain ⟨after, hafter, hy⟩ := hx.runs store image hm (hfinal ▸ hmiddle)
      rw [hfinal] at hafter
      obtain ⟨last, hlast, hrest⟩ := (hf a).runs middle after hafter hfits
      rw [hr] at hy
      rw [hy]
      exact ⟨last, hlast, hrest⟩
    | error exit middle =>
      simp only [hr] at hfits ⊢
      have hfinal := final_of_error hr
      obtain ⟨after, hafter, hy⟩ := hx.runs store image hm (hfinal ▸ hfits)
      rw [hfinal] at hafter
      rw [hr] at hy
      rw [hy]
      exact ⟨after, hafter, rfl⟩

theorem mirrors_ofExcept {x y : Except RuntimeError α} (h : y = x.map v) :
    Mirrors r v (ofExcept x) (ofExcept y) := by
  cases x with
  | ok a =>
    rw [h]
    exact mirrors_pure rfl
  | error reason =>
    rw [h]
    exact mirrors_fail reason

theorem mirrors_newScope (parent : ScopeId) :
    Mirrors r r.scope (newScope parent) (newScope (r.scope parent)) where
  grows := by
    intro store
    have hfinal : (newScope parent).final store = (store.newScope parent).2 := rfl
    rw [hfinal]
    exact ⟨Nat.le_refl _, by simp [Store.newScope]⟩
  runs := by
    intro store image hm hfits
    have hsize : store.scopes.size + 1 ≤ r.scopes := by
      have h := hfits.scopes
      have hfinal : (newScope parent).final store = (store.newScope parent).2 := rfl
      rw [hfinal] at h
      simpa [Store.newScope] using h
    obtain ⟨hscope, hafter⟩ := hm.newScope parent hsize
    exact ⟨_, hafter, congrArg (EStateM.Result.ok · _) hscope.symm⟩

theorem mirrors_declare (scope : ScopeId) (name : String) (value : Value) :
    Mirrors r id (declare scope name value)
      (declare (r.scope scope) name (value.renamed r)) where
  grows := by
    intro store
    have hfinal : (declare scope name value).final store = store.declare scope name value := rfl
    rw [hfinal]
    exact ⟨Nat.le_refl _, by simp [Store.declare]⟩
  runs := fun store image hm _ => ⟨_, hm.declare scope name value, rfl⟩

/-- What takes the next identity is mirrored by what takes the next identity. -/
theorem mirrors_create {x y : Eval Value} (make make' : Nat → Value)
    (hx : ∀ store, EStateM.run x store =
      .ok (make store.created) { store with created := store.created + 1 })
    (hy : ∀ store, EStateM.run y store =
      .ok (make' store.created) { store with created := store.created + 1 })
    (hmake : ∀ n, (make n).renamed r = make' (r.identity n)) :
    Mirrors r (Value.renamed r) x y where
  grows := by
    intro store
    rw [final_of_ok (hx store)]
    exact ⟨Nat.le_succ _, Nat.le_refl _⟩
  runs := by
    intro store image hm hfits
    rw [final_of_ok (hx store)] at hfits ⊢
    obtain ⟨hidentity, hafter⟩ := hm.create hfits.identities
    rw [hx, hy, ← hidentity, ← hmake]
    rw [← hidentity] at hafter
    exact ⟨_, hafter, rfl⟩

theorem mirrors_newArray (items : List Value) : Mirrors r (Value.renamed r) (newArray items)
    (newArray (items.map (Value.renamed r))) :=
  mirrors_create (.array · items) (.array · (items.map (Value.renamed r))) (fun _ => rfl)
    (fun _ => rfl) fun n => by rw [Value.renamed, Value.allRenamed_eq_map]

theorem mirrors_newFunction (closure : Closure) :
    Mirrors r (Value.renamed r) (newFunction closure) (newFunction (closure.renamed r)) :=
  mirrors_create (.function · closure) (.function · (closure.renamed r)) (fun _ => rfl)
    (fun _ => rfl) fun n => by rw [Value.renamed]

theorem run_resolve (scope : ScopeId) (name : String) (store : Store) :
    EStateM.run (resolve scope name) store =
      match store.access scope name, Builtin.ofName? name with
      | some value, _ => .ok value store
      | none, some builtin => .ok (.builtin builtin) store
      | none, none => .error (.failed (.unknownName name)) store := by
  unfold resolve
  cases ha : store.access scope name with
  | some value => simp [ha]
  | none =>
    cases hb : Builtin.ofName? name with
    | some builtin => simp [ha]
    | none =>
      simp only [EStateM.run_bind, EStateM.run_get, ha]
      rfl

theorem mirrors_resolve (scope : ScopeId) (name : String) :
    Mirrors r (Value.renamed r) (resolve scope name) (resolve (r.scope scope) name) := by
  have hfinal : ∀ store, (resolve scope name).final store = store := by
    intro store
    unfold final
    rw [run_resolve]
    cases store.access scope name <;> cases Builtin.ofName? name <;> rfl
  refine ⟨keeps_grows hfinal, fun store image hm _ => ⟨image, ?_, ?_⟩⟩
  · rwa [hfinal]
  · rw [run_resolve, run_resolve, hm.access]
    cases store.access scope name with
    | some value => rfl
    | none => cases Builtin.ofName? name <;> simp [resultIn, Value.renamed, Exit.renamed]

theorem mirrors_callBuiltin (builtin : Builtin) (arguments : List Value) :
    Mirrors r (Value.renamed r) (callBuiltin builtin arguments)
      (callBuiltin builtin (arguments.map (Value.renamed r))) := by
  cases builtin with
  | len =>
    exact mirrors_ofExcept (Builtin.oneArgument_renamed r (Builtin.length_renamed r) arguments)
  | first =>
    exact mirrors_ofExcept (Builtin.oneArgument_renamed r (Builtin.firstOf_renamed r) arguments)
  | last =>
    exact mirrors_ofExcept (Builtin.oneArgument_renamed r (Builtin.lastOf_renamed r) arguments)
  | push =>
    have hpushed : Mirrors r (List.map (Value.renamed r)) (ofExcept (Builtin.pushed arguments))
        (ofExcept (Builtin.pushed (arguments.map (Value.renamed r)))) :=
      mirrors_ofExcept (Builtin.pushed_renamed r arguments)
    exact hpushed.bind mirrors_newArray

/-- A way to call functions that does not depend on the renaming. -/
def CallMirrors (r : Renaming) (call : Call) : Prop :=
  ∀ closure arguments, Mirrors r (Value.renamed r) (call closure arguments)
    (call (closure.renamed r) (arguments.map (Value.renamed r)))

theorem mirrors_apply {call : Call} (hcall : CallMirrors r call) (callee : Value)
    (arguments : List Value) : Mirrors r (Value.renamed r) (apply call callee arguments)
      (apply call (callee.renamed r) (arguments.map (Value.renamed r))) := by
  cases callee with
  | function identity closure =>
    rw [Value.renamed]
    exact hcall closure arguments
  | builtin named =>
    rw [Value.renamed]
    exact mirrors_callBuiltin named arguments
  | _ =>
    simp only [Value.renamed, apply, Value.tag]
    exact mirrors_fail _

theorem mirrors_declareAll (scope : ScopeId) : ∀ (parameters : List Identifier)
    (arguments : List Value), Mirrors r id (declareAll scope parameters arguments)
      (declareAll (r.scope scope) (parameters.map (Identifier.mapToken r.token))
        (arguments.map (Value.renamed r)))
  | [], [] => mirrors_pure rfl
  | [], _ :: _ => mirrors_pure rfl
  | _ :: _, [] => mirrors_pure rfl
  | parameter :: parameters, argument :: arguments =>
    (mirrors_declare scope parameter.name argument).bind fun _ =>
      mirrors_declareAll scope parameters arguments

theorem mirrors_catchReturn {x y : Eval Value} (h : Mirrors r (Value.renamed r) x y) :
    Mirrors r (Value.renamed r) (catchReturn x) (catchReturn y) := by
  have hfinal : ∀ store, (catchReturn x).final store = x.final store := by
    intro store
    unfold final
    rw [run_catchReturn]
    rcases EStateM.run x store with ⟨value, after⟩ | ⟨_ | _ | _, after⟩ <;> rfl
  refine ⟨fun store => by rw [hfinal]; exact h.grows store, fun store image hm hfits => ?_⟩
  rw [hfinal] at hfits ⊢
  obtain ⟨after, hafter, hy⟩ := h.runs store image hm hfits
  refine ⟨after, hafter, ?_⟩
  rw [run_catchReturn, run_catchReturn, hy]
  rcases EStateM.run x store with ⟨value, after⟩ | ⟨_ | _ | _, after⟩ <;> rfl

mutual

/-- A tree with other tokens is evaluated alike. -/
theorem mirrors_evaluate {call : Call} (hcall : CallMirrors r call) (scope : ScopeId) :
    ∀ e : Expr, Mirrors r (Value.renamed r) (evaluate call scope e)
      (evaluate call (r.scope scope) (e.mapTokens r.token))
  | .name x => by
    rw [Expr.mapTokens, evaluate, evaluate]
    exact mirrors_resolve scope x.name
  | .integer _ value => by
    rw [Expr.mapTokens, evaluate, evaluate]
    exact mirrors_pure (by rw [Value.renamed])
  | .boolean _ value => by
    rw [Expr.mapTokens, evaluate, evaluate]
    exact mirrors_pure (by rw [Value.renamed])
  | .string _ value => by
    rw [Expr.mapTokens, evaluate, evaluate]
    exact mirrors_pure (by rw [Value.renamed])
  | .array _ items => by
    rw [Expr.mapTokens, evaluate, evaluate]
    exact (mirrors_evaluateAll hcall scope items).bind mirrors_newArray
  | .unary _ op right => by
    rw [Expr.mapTokens, evaluate, evaluate]
    exact (mirrors_evaluate hcall scope right).bind fun value =>
      mirrors_ofExcept (op.apply_renamed r value)
  | .binary _ left op right => by
    rw [Expr.mapTokens, evaluate, evaluate]
    refine (mirrors_evaluate hcall scope left).bind fun a => ?_
    exact (mirrors_evaluate hcall scope right).bind fun b =>
      mirrors_ofExcept (op.apply_renamed r a b)
  | .conditional _ condition consequence none => by
    rw [Expr.mapTokens, evaluate, evaluate]
    refine (mirrors_evaluate hcall scope condition).bind fun value => ?_
    rw [Value.isTruthy_renamed]
    split
    · exact mirrors_runBlock hcall scope consequence
    · exact mirrors_pure (by rw [Value.renamed])
  | .conditional _ condition consequence (some alternative) => by
    rw [Expr.mapTokens, evaluate, evaluate]
    refine (mirrors_evaluate hcall scope condition).bind fun value => ?_
    rw [Value.isTruthy_renamed]
    split
    · exact mirrors_runBlock hcall scope consequence
    · exact mirrors_runBlock hcall scope alternative
  | .function _ parameters body => by
    rw [Expr.mapTokens, evaluate, evaluate]
    exact mirrors_newFunction ⟨parameters, body, scope⟩
  | .call _ callee arguments => by
    rw [Expr.mapTokens, evaluate, evaluate]
    refine (mirrors_evaluate hcall scope callee).bind fun value => ?_
    exact (mirrors_evaluateAll hcall scope arguments).bind fun values =>
      mirrors_apply hcall value values
  | .index _ left position => by
    rw [Expr.mapTokens, evaluate, evaluate]
    refine (mirrors_evaluate hcall scope left).bind fun a => ?_
    exact (mirrors_evaluate hcall scope position).bind fun i =>
      mirrors_ofExcept (a.atIndex_renamed r i)

theorem mirrors_evaluateAll {call : Call} (hcall : CallMirrors r call) (scope : ScopeId) :
    ∀ es : List Expr, Mirrors r (List.map (Value.renamed r)) (evaluateAll call scope es)
      (evaluateAll call (r.scope scope) (Expr.mapAllTokens r.token es))
  | [] => by
    rw [Expr.mapAllTokens, evaluateAll, evaluateAll]
    exact mirrors_pure rfl
  | e :: es => by
    rw [Expr.mapAllTokens, evaluateAll, evaluateAll]
    refine (mirrors_evaluate hcall scope e).bind fun value => ?_
    exact (mirrors_evaluateAll hcall scope es).bind fun values => mirrors_pure rfl

theorem mirrors_run {call : Call} (hcall : CallMirrors r call) (scope : ScopeId) :
    ∀ s : Stmt, Mirrors r (Value.renamed r) (Eval.run call scope s)
      (Eval.run call (r.scope scope) (s.mapTokens r.token))
  | .letName _ name value => by
    rw [Stmt.mapTokens, Eval.run, Eval.run]
    refine (mirrors_evaluate hcall scope value).bind fun bound => ?_
    exact (mirrors_declare scope name.name bound).bind fun _ =>
      mirrors_pure (by rw [Value.renamed])
  | .returnValue _ value => by
    rw [Stmt.mapTokens, Eval.run, Eval.run]
    exact (mirrors_evaluate hcall scope value).bind fun returned => mirrors_throw rfl
  | .expression _ value => by
    rw [Stmt.mapTokens, Eval.run, Eval.run]
    exact mirrors_evaluate hcall scope value
  | .block body => by
    rw [Stmt.mapTokens, Eval.run, Eval.run]
    exact mirrors_runBlock hcall scope body

theorem mirrors_runAll {call : Call} (hcall : CallMirrors r call) (scope : ScopeId) :
    ∀ ss : List Stmt, Mirrors r (Value.renamed r) (runAll call scope ss)
      (runAll call (r.scope scope) (Stmt.mapAllTokens r.token ss))
  | [] => by
    rw [Stmt.mapAllTokens, runAll, runAll]
    exact mirrors_pure (by rw [Value.renamed])
  | [s] => by
    rw [Stmt.mapAllTokens, Stmt.mapAllTokens, runAll, runAll]
    exact mirrors_run hcall scope s
  | s :: next :: rest => by
    have hrest := mirrors_runAll hcall scope (next :: rest)
    rw [Stmt.mapAllTokens] at hrest
    rw [Stmt.mapAllTokens, Stmt.mapAllTokens, runAll, runAll]
    exact (mirrors_run hcall scope s).bind fun _ => hrest

theorem mirrors_runBlock {call : Call} (hcall : CallMirrors r call) (scope : ScopeId) :
    ∀ b : Block, Mirrors r (Value.renamed r) (runBlock call scope b)
      (runBlock call (r.scope scope) (b.mapTokens r.token))
  | .mk _ statements => by
    rw [Block.mapTokens, runBlock, runBlock]
    exact mirrors_runAll hcall scope statements

end

theorem isLet_mapTokens (f : Token → Token) (s : Stmt) : (s.mapTokens f).isLet = s.isLet := by
  cases s <;> simp [Stmt.mapTokens, Stmt.isLet]

theorem mirrors_runProgram {call : Call} (hcall : CallMirrors r call) (scope : ScopeId) :
    ∀ program : Program, Mirrors r (Option.map (Value.renamed r))
      (runProgram call scope program)
      (runProgram call (r.scope scope) (program.mapTokens r.token))
  | [] => by
    rw [Program.mapTokens, Stmt.mapAllTokens, runProgram, runProgram]
    exact mirrors_pure rfl
  | [s] => by
    rw [Program.mapTokens, Stmt.mapAllTokens, Stmt.mapAllTokens, runProgram, runProgram,
      isLet_mapTokens]
    refine (mirrors_run hcall scope s).bind fun value => mirrors_pure ?_
    split <;> rfl
  | s :: next :: rest => by
    have hrest := mirrors_runProgram hcall scope (next :: rest)
    rw [Program.mapTokens, Stmt.mapAllTokens] at hrest
    rw [Program.mapTokens, Stmt.mapAllTokens, Stmt.mapAllTokens, runProgram, runProgram]
    exact (mirrors_run hcall scope s).bind fun _ => hrest

/-- Calls mirror each other, however deep they go. -/
theorem invoke_mirrors (r : Renaming) (n : Nat) : CallMirrors r (invoke n) := by
  induction n with
  | zero => exact fun _ _ => mirrors_throw rfl
  | succ n ih =>
    intro closure arguments
    rw [invoke, invoke]
    simp only [Closure.renamed, List.length_map]
    split
    · refine (mirrors_newScope closure.scope).bind fun scope => ?_
      refine (mirrors_declareAll scope closure.parameters arguments).bind fun _ => ?_
      exact mirrors_catchReturn (mirrors_runBlock ih scope closure.body)
    · exact mirrors_fail _

end Eval

/-- On the image of a store a program with other tokens answers the same, renamed. -/
theorem Program.run_mirrored {r : Renaming} {store image : Store} (limit : Nat)
    (program : Program) (scope : ScopeId) (hm : store.Mirrored r image)
    (hfits : (program.run limit scope store).2.Fits r) :
    ∃ after, (program.run limit scope store).2.Mirrored r after ∧
      (program.mapTokens r.token).run limit (r.scope scope) image =
        ((program.run limit scope store).1.renamed r, after) := by
  have hmirrors := mirrors_runProgram (invoke_mirrors r limit) scope program
  rw [run_store] at hfits ⊢
  obtain ⟨after, hafter, hrun⟩ := hmirrors.runs store image hm hfits
  refine ⟨after, hafter, ?_⟩
  unfold Program.run
  have hstart : ∀ (p : Program) (id : ScopeId) (before : Store),
    runProgram (invoke limit) id p before =
      EStateM.run (runProgram (invoke limit) id p) before := fun _ _ _ => rfl
  rw [hstart, hstart, hrun]
  rcases EStateM.run (runProgram (invoke limit) scope program) store with
    ⟨_ | value, last⟩ | ⟨_ | _ | _, last⟩ <;>
      simp [resultIn, Exit.renamed, Answer.renamed, Value.renamed]

/-- Other tokens alone; of use for runs that end in the store. -/
def Renaming.ofTokens (token : Token → Token) (last : Store) : Renaming where
  token := token
  identity := id
  scope := id
  identities := last.created + 1
  scopes := last.scopes.size + 1
  identity_injective := Function.injective_id
  scope_strictMono := strictMono_id

theorem Renaming.ofTokens_fits (token : Token → Token) (last : Store) :
    last.Fits (.ofTokens token last) := ⟨Nat.le_succ _, Nat.le_succ _⟩

end MonkeyLang
