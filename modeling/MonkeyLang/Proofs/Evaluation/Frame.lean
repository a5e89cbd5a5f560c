import MonkeyLang.Proofs.Evaluation.Keeps

namespace MonkeyLang

/-- Every scope that was there before is as it was. -/
def Store.Unchanged (before after : Store) : Prop :=
  ∀ id < before.scopes.size, after.scopes[id]? = before.scopes[id]?

/-- Names that are bound before are bound afterwards, and the scope around is the same. -/
structure Scope.Grows (before after : Scope) : Prop where
  parent : after.parent = before.parent
  bound : ∀ name, (before.find? name).isSome → (after.find? name).isSome

/-- Every scope that was there before is as it was, apart from one, which may have grown. -/
structure Store.WritesOnly (scope : ScopeId) (before after : Store) : Prop where
  size : before.scopes.size ≤ after.scopes.size
  others : ∀ id < before.scopes.size, id ≠ scope → after.scopes[id]? = before.scopes[id]?
  own : ∀ found, before.scopes[scope]? = some found →
    ∃ grown, after.scopes[scope]? = some grown ∧ found.Grows grown

namespace Scope.Grows

theorem refl (found : Scope) : found.Grows found := ⟨rfl, fun _ h => h⟩

theorem trans {a b c : Scope} (h : a.Grows b) (k : b.Grows c) : a.Grows c :=
  ⟨k.parent.trans h.parent, fun name hn => k.bound name (h.bound name hn)⟩

theorem bind (found : Scope) (name : String) (value : Value) :
    found.Grows (found.bind name value) := by
  refine ⟨rfl, fun other h => ?_⟩
  by_cases hn : other = name
  · rw [hn, Scope.find?_bind_self]
    rfl
  · rwa [Scope.find?_bind_of_ne found value hn]

end Scope.Grows

namespace Store

theorem Unchanged.refl (store : Store) : store.Unchanged store := fun _ _ => rfl

/-- Nothing of what was there has gone. -/
theorem Unchanged.size {before after : Store} (h : before.Unchanged after) :
    before.scopes.size ≤ after.scopes.size := by
  by_cases hs : after.scopes.size < before.scopes.size
  · have hlast := h after.scopes.size hs
    simp [hs] at hlast
  · omega

theorem Unchanged.writesOnly {before after : Store} (h : before.Unchanged after)
    (scope : ScopeId) : before.WritesOnly scope after := by
  refine ⟨h.size, fun id hid _ => h id hid, fun found hf => ?_⟩
  have hid : scope < before.scopes.size := (Array.getElem?_eq_some_iff.mp hf).1
  exact ⟨found, by rw [h scope hid, hf], .refl found⟩

theorem WritesOnly.trans {scope : ScopeId} {a b c : Store} (h : a.WritesOnly scope b)
    (k : b.WritesOnly scope c) : a.WritesOnly scope c := by
  refine ⟨Nat.le_trans h.size k.size, fun id hid hne => ?_, fun found hf => ?_⟩
  · rw [k.others id (Nat.lt_of_lt_of_le hid h.size) hne, h.others id hid hne]
  · obtain ⟨middle, hm, hgrows⟩ := h.own found hf
    obtain ⟨grown, hg, hgrows'⟩ := k.own middle hm
    exact ⟨grown, hg, hgrows.trans hgrows'⟩

theorem writesOnly_declare (store : Store) (scope : ScopeId) (name : String) (value : Value) :
    store.WritesOnly scope (store.declare scope name value) := by
  refine ⟨by simp [declare], fun id hid hne => ?_, fun found hf => ?_⟩
  · simp [declare, Array.getElem?_modify, hne.symm]
  · exact ⟨found.bind name value, by simp [declare, Array.getElem?_modify, hf], .bind found _ _⟩

/-- A new scope stands behind those that were there. -/
theorem unchanged_newScope (store : Store) (parent : ScopeId) :
    store.Unchanged (store.newScope parent).2 := by
  intro id hid
  simp [newScope, Array.getElem?_push, Nat.ne_of_lt hid]

/-- What is written to a scope that was not there changes none that was. -/
theorem Unchanged.of_new {before middle after : Store} {scope : ScopeId}
    (h : before.Unchanged middle) (k : middle.WritesOnly scope after)
    (hs : before.scopes.size ≤ scope) : before.Unchanged after := by
  intro id hid
  have hne : id ≠ scope := by omega
  rw [k.others id (Nat.lt_of_lt_of_le hid h.size) hne, h id hid]

end Store

namespace Eval

open Store

theorem writesOnly_discipline {call : Call}
    (hcall : ∀ closure arguments, Keeps Unchanged (call closure arguments)) (scope : ScopeId) :
    Discipline (WritesOnly scope) call scope where
  refl store := (Unchanged.refl store).writesOnly scope
  trans := WritesOnly.trans
  count store := by
    have h : store.Unchanged { store with created := store.created + 1 } := fun _ _ => rfl
    exact h.writesOnly scope
  declare store := writesOnly_declare store scope
  call closure arguments := (hcall closure arguments).mono fun _ _ h => h.writesOnly scope

theorem final_catchReturn (body : Eval Value) (store : Store) :
    (catchReturn body).final store = body.final store := by
  unfold final
  rw [run_catchReturn]
  cases EStateM.run body store with
  | ok value after => rfl
  | error e after => cases e <;> rfl

theorem declareAll_keeps {call : Call} {scope : ScopeId}
    (d : Discipline (WritesOnly scope) call scope) :
    ∀ names values, Keeps (WritesOnly scope) (declareAll scope names values)
  | [], _ => d.refl
  | _ :: _, [] => d.refl
  | name :: names, value :: values => by
    rw [declareAll]
    exact d.bind (fun store => d.declare store name.name value) fun _ =>
      declareAll_keeps d names values

/-- A call changes no scope that was there, however deep it goes. -/
theorem invoke_unchanged (n : Nat) : ∀ closure arguments,
    Keeps Unchanged (invoke n closure arguments) := by
  induction n with
  | zero => exact fun _ _ => Unchanged.refl
  | succ n ih =>
    intro closure arguments
    rw [invoke]
    split
    · intro store
      rw [final_bind]
      have hnew := unchanged_newScope store closure.scope
      have d := writesOnly_discipline ih store.scopes.size
      have hbody : Keeps (WritesOnly store.scopes.size) (do
          declareAll store.scopes.size closure.parameters arguments
          catchReturn (runBlock (invoke n) store.scopes.size closure.body)) := by
        refine d.bind (declareAll_keeps d _ _) fun _ after => ?_
        rw [final_catchReturn]
        exact d.runBlock closure.body after
      exact hnew.of_new (hbody _) (Nat.le_refl _)
    · exact Unchanged.refl

theorem apply_unchanged (n : Nat) (callee : Value) (arguments : List Value) :
    Keeps Unchanged (apply (invoke n) callee arguments) := by
  intro store
  have d := writesOnly_discipline (invoke_unchanged n) store.scopes.size
  exact (Unchanged.refl store).of_new (d.apply callee arguments store) (Nat.le_refl _)

end Eval

open Eval Store

theorem Eval.answer_store (x : Eval Value) (store : Store) :
    (answer x store).2 = x.final store := by
  unfold answer final EStateM.run
  cases x store with
  | ok value after => rfl
  | error e after => cases e <;> rfl

theorem Program.run_store (limit : Nat) (program : Program) (scope : ScopeId) (store : Store) :
    (program.run limit scope store).2 =
      (runProgram (invoke limit) scope program).final store := by
  unfold Program.run final EStateM.run
  cases runProgram (invoke limit) scope program store with
  | ok value after => cases value <;> rfl
  | error e after => cases e <;> rfl

/-- Evaluation writes only to the scope that it runs in, and calls write nowhere. -/
theorem evaluation_writesOnly (limit : Nat) (scope : ScopeId) (store : Store) :
    (∀ e : Expr, store.WritesOnly scope (e.run limit scope store).2) ∧
    (∀ s : Stmt, store.WritesOnly scope (s.run limit scope store).2) ∧
    (∀ b : Block, store.WritesOnly scope ((runBlock (invoke limit) scope b).final store)) ∧
    (∀ p : Program, store.WritesOnly scope (p.run limit scope store).2) ∧
    ∀ callee arguments, store.Unchanged ((apply (invoke limit) callee arguments).final store) := by
  have d := writesOnly_discipline (invoke_unchanged limit) scope
  refine ⟨?_, ?_, fun b => d.runBlock b store, ?_, ?_⟩
  · intro e
    rw [Expr.run, answer_store]
    exact d.evaluate e store
  · intro s
    rw [Stmt.run, answer_store]
    exact d.run s store
  · intro p
    rw [Program.run_store]
    exact d.runProgram p store
  · intro callee arguments
    exact apply_unchanged limit callee arguments store

end MonkeyLang
