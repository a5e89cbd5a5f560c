import MonkeyLang.Proofs.Evaluation.Invariant

namespace MonkeyLang

open Eval

/-- The value is a `return` on its way out or a runtime error, or holds one at any depth. -/
inductive Value.Tainted : Value → Prop where
  | returned (value : Value) : Tainted (.returned value)
  | error (error : RuntimeError) : Tainted (.error error)
  | item {identity : Nat} {items : List Value} {value : Value} (hm : value ∈ items)
    (hv : Tainted value) : Tainted (.array identity items)

def Value.Plain (value : Value) : Prop := ¬value.Tainted

theorem Value.Simple.plain {value : Value} (h : value.Simple) : value.Plain := by
  rintro (_ | _ | _)
  all_goals exact h

/-- A function in the value was made in the scope. -/
inductive Value.Captures : Value → ScopeId → Prop where
  | function {identity : Nat} {closure : Closure} :
    Captures (.function identity closure) closure.scope
  | item {identity : Nat} {items : List Value} {value : Value} {scope : ScopeId}
    (hm : value ∈ items) (hv : Captures value scope) : Captures (.array identity items) scope
  | returned {value : Value} {scope : ScopeId} (hv : Captures value scope) :
    Captures (.returned value) scope

/-- The scopes of an environment: its own, those around them, and those of functions bound in
them. -/
inductive Store.Reaches (store : Store) (root : ScopeId) : ScopeId → Prop where
  | root : Reaches store root root
  | parent {id parent : ScopeId} {found : Scope} (hr : Reaches store root id)
    (hf : store.scopes[id]? = some found) (hp : found.parent = some parent) :
    Reaches store root parent
  | captured {id scope : ScopeId} {found : Scope} {binding : String × Value}
    (hr : Reaches store root id) (hf : store.scopes[id]? = some found)
    (hb : binding ∈ found.bindings) (hc : binding.2.Captures scope) : Reaches store root scope

/-- All that is bound in these scopes is plain. -/
def Store.PlainIn (store : Store) (inside : ScopeId → Prop) : Prop :=
  ∀ id found, inside id → store.scopes[id]? = some found →
    ∀ binding ∈ found.bindings, binding.2.Plain

section
variable {inside : ScopeId → Prop}

/-- The value is plain, and its functions were made in these scopes. -/
structure Value.Within (inside : ScopeId → Prop) (value : Value) : Prop where
  plain : value.Plain
  captures : ∀ scope, value.Captures scope → inside scope

namespace Value

theorem within_function {identity : Nat} {closure : Closure} :
    (function identity closure).Within inside ↔ inside closure.scope := by
  constructor
  · exact fun h => h.captures _ .function
  · intro h
    refine ⟨nofun, fun scope hc => ?_⟩
    cases hc
    exact h

theorem within_array {identity : Nat} {items : List Value} :
    (array identity items).Within inside ↔ ∀ value ∈ items, value.Within inside := by
  constructor
  · intro h value hm
    exact ⟨fun ht => h.plain (.item hm ht), fun scope hc => h.captures scope (.item hm hc)⟩
  · intro h
    constructor
    · rintro (_ | _ | ⟨hm, ht⟩)
      exact (h _ hm).plain ht
    · rintro scope (_ | ⟨hm, hc⟩)
      exact (h _ hm).captures scope hc

end Value

/-- Scopes that are closed under what an evaluation can get to, and all that is bound in them. New
scopes are counted in beforehand. -/
structure Store.Holds (inside : ScopeId → Prop) (store : Store) : Prop where
  new : ∀ id, store.scopes.size ≤ id → inside id
  parent : ∀ {id parent found}, inside id → store.scopes[id]? = some found →
    found.parent = some parent → inside parent
  bound : ∀ id found, inside id → store.scopes[id]? = some found →
    ∀ binding ∈ found.bindings, binding.2.Within inside

/-- A `return` on its way out has a plain value. -/
def Exit.Within (inside : ScopeId → Prop) : Exit → Prop
  | .returned value => value.Within inside
  | .failed _ => True
  | .tooDeep => True

namespace Store.Holds

variable {store : Store}

theorem plainIn (h : store.Holds inside) : store.PlainIn inside :=
  fun id found hid hf binding hb => (h.bound id found hid hf binding hb).plain

theorem chain (h : store.Holds inside) {scope id : ScopeId} (hs : inside scope)
    (hid : id ∈ store.chain scope) : inside id :=
  Store.forall_mem_chain hs h.parent id hid

theorem access (h : store.Holds inside) {scope : ScopeId} (hs : inside scope) {name : String}
    {value : Value} (ha : store.access scope name = some value) : value.Within inside := by
  obtain ⟨id, hid, found, hf, hb⟩ := Store.bound_of_access ha
  exact h.bound id found (h.chain hs hid) hf (name, value) hb

theorem newScope (h : store.Holds inside) {parent : ScopeId} (hp : inside parent) :
    (store.newScope parent).2.Holds inside := by
  constructor
  · intro id hid
    have hsize : store.scopes.size + 1 ≤ id := by simpa [Store.newScope] using hid
    exact h.new id (Nat.le_of_succ_le hsize)
  · intro id around found hid hf ha
    rcases Store.of_newScope hf with hf | rfl
    · exact h.parent hid hf ha
    · cases ha
      exact hp
  · intro id found hid hf binding hb
    rcases Store.of_newScope hf with hf | rfl
    · exact h.bound id found hid hf binding hb
    · simp at hb

theorem declare (h : store.Holds inside) (scope : ScopeId) (name : String) {value : Value}
    (hv : value.Within inside) : (store.declare scope name value).Holds inside := by
  constructor
  · intro id hid
    exact h.new id (by simpa [Store.declare] using hid)
  · intro id around found hid hf ha
    obtain ⟨before, hb, rfl | rfl⟩ := Store.of_declare hf
    · exact h.parent hid hb ha
    · exact h.parent hid hb ha
  · intro id found hid hf binding hm
    obtain ⟨before, hb, rfl | rfl⟩ := Store.of_declare hf
    · exact h.bound id _ hid hb binding hm
    · rcases Scope.mem_bind hm with rfl | hm
      · exact hv
      · exact h.bound id before hid hb binding hm

end Store.Holds

namespace Eval

variable {α β : Type}

/-- From a store that holds plain values the run comes to one that does, too, with a value that is
`ok` or with an exit that is plain. -/
def Leaves (inside : ScopeId → Prop) (x : Eval α) (ok : α → Prop) (store : Store) : Prop :=
  store.Holds inside →
    match EStateM.run x store with
    | .ok a after => after.Holds inside ∧ ok a
    | .error exit after => after.Holds inside ∧ exit.Within inside

end Eval

/-- That values are plain, and their functions from these scopes, as an invariant of evaluation. -/
def Invariant.plain (inside : ScopeId → Prop) : Invariant Unit where
  le _ _ := True
  store _ store := store.Holds inside
  scope _ := inside
  value _ value := value.Within inside
  refl _ := trivial
  trans _ _ := trivial
  scope_mono _ h := h
  value_mono _ h := h
  simple h := by
    refine ⟨h.plain, fun scope hc => ?_⟩
    cases hc with
    | function | item | returned => exact h.elim
  item := Value.within_array.mp
  captured := Value.within_function.mp
  access h hs ha := h.access hs ha
  declare {_ _ scope _} name h _ hv := h.declare scope name hv
  newScope h hp := ⟨(), trivial, h.newScope hp, h.new _ (Nat.le_refl _)⟩
  newArray h hv := ⟨(), trivial, ⟨h.new, h.parent, h.bound⟩, Value.within_array.mpr hv⟩
  newFunction h hs := ⟨(), trivial, ⟨h.new, h.parent, h.bound⟩, Value.within_function.mpr hs⟩

theorem Eval.leaves_of_plain {α : Type} {x : Eval α} {ok : α → Prop} {store : Store}
    (h : (Invariant.plain inside).Leaves () x (fun _ => ok) store) : Leaves inside x ok store := by
  intro hs
  have hx := h hs
  cases hr : EStateM.run x store with
  | ok a after =>
    rw [hr] at hx
    obtain ⟨_, _, hafter, ha⟩ := hx
    exact ⟨hafter, ha⟩
  | error exit after =>
    rw [hr] at hx
    obtain ⟨_, _, hafter, hexit⟩ := hx
    exact ⟨hafter, by cases exit <;> exact hexit⟩

end

end MonkeyLang
