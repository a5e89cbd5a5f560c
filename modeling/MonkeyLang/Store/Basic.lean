import MonkeyLang.Value.Basic

namespace MonkeyLang

/-- The bindings of a scope, one for each name, and the scope around it. -/
structure Scope where
  bindings : List (String × Value)
  parent : Option ScopeId

namespace Scope

def find? (scope : Scope) (name : String) : Option Value := scope.bindings.lookup name

def bind (scope : Scope) (name : String) (value : Value) : Scope :=
  { scope with bindings := (name, value) :: scope.bindings.filter fun binding => binding.1 != name }

def names (scope : Scope) : List String := scope.bindings.map Prod.fst

theorem find?_bind_self (scope : Scope) (name : String) (value : Value) :
    (scope.bind name value).find? name = some value := by
  simp [find?, bind]

theorem find?_bind_of_ne (scope : Scope) {name other : String} (value : Value)
    (h : other ≠ name) : (scope.bind name value).find? other = scope.find? other := by
  have hf (bindings : List (String × Value)) :
      (bindings.filter fun binding => binding.1 != name).lookup other = bindings.lookup other := by
    induction bindings with
    | nil => rfl
    | cons binding rest ih =>
      obtain ⟨key, v⟩ := binding
      by_cases hk : key = name
      · simp [hk, List.lookup_cons, ih, beq_false_of_ne h]
      · simp [hk, List.lookup_cons, ih]
  simp [find?, bind, List.lookup_cons, beq_false_of_ne h, hf]

end Scope

/-- All scopes ever made, and how many arrays and functions were. -/
structure Store where
  scopes : Array Scope
  created : Nat

namespace Store

def empty : Store := ⟨#[], 0⟩

/-- A scope with none around it. -/
def newRoot (store : Store) : ScopeId × Store :=
  (store.scopes.size, { store with scopes := store.scopes.push ⟨[], none⟩ })

/-- A scope inside another. -/
def newScope (store : Store) (parent : ScopeId) : ScopeId × Store :=
  (store.scopes.size, { store with scopes := store.scopes.push ⟨[], some parent⟩ })

/-- The scopes in which a name is looked up: this one, then those around it. Scopes are numbered as
they are made, so each has a smaller number than those inside it. -/
@[semireducible] def chain (store : Store) (scope : ScopeId) : List ScopeId :=
  match store.scopes[scope]? with
  | none => []
  | some found =>
    match found.parent with
    | none => [scope]
    | some parent => if parent < scope then scope :: store.chain parent else [scope]
termination_by scope

section
variable {store : Store} {scope : ScopeId} {found : Scope}

theorem chain_eq (hf : store.scopes[scope]? = some found) :
    store.chain scope = scope ::
      (found.parent.elim [] fun parent => if parent < scope then store.chain parent else []) := by
  rw [chain]
  simp only [hf]
  cases found.parent with
  | none => rfl
  | some parent => exact (apply_ite (scope :: ·) _ _ _).symm

/-- What is passed on from each scope to the one around it holds of all scopes on the way. -/
theorem forall_mem_chain {P : ScopeId → Prop} (hs : P scope)
    (hp : ∀ {id parent : ScopeId} {found : Scope}, P id → store.scopes[id]? = some found →
      found.parent = some parent → P parent) : ∀ id ∈ store.chain scope, P id := by
  fun_induction store.chain scope with
  | case1 => simp
  | case2 => simpa using hs
  | case3 scope found hf parent hparent _ ih => simpa using ⟨hs, ih (hp hs hf hparent)⟩
  | case4 => simpa using hs

/-- The way depends on which scopes stand inside which alone. -/
theorem chain_congr {other : Store}
    (h : ∀ id : ScopeId, other.scopes[id]?.map Scope.parent = store.scopes[id]?.map Scope.parent) :
    other.chain scope = store.chain scope := by
  induction scope using Nat.strongRecOn with
  | ind scope ih =>
    have hscope := h scope
    cases hf : store.scopes[scope]? with
    | none =>
      have hnone : other.scopes[scope]? = none := by simpa [hf] using hscope
      rw [chain, chain, hf, hnone]
    | some found =>
      obtain ⟨same, hsame, hparent⟩ : ∃ same, other.scopes[scope]? = some same ∧
          same.parent = found.parent := by simpa [hf] using hscope
      rw [chain_eq hf, chain_eq hsame, hparent]
      cases found.parent with
      | none => rfl
      | some parent =>
        dsimp only [Option.elim]
        split
        · next hlt => rw [ih parent hlt]
        · rfl

end

/-- The value of a name in the nearest scope that binds it. -/
def access (store : Store) (scope : ScopeId) (name : String) : Option Value :=
  (store.chain scope).findSome? fun id => store.scopes[id]?.bind fun found => found.find? name

/-- Binds a name in this scope alone. -/
def declare (store : Store) (scope : ScopeId) (name : String) (value : Value) : Store :=
  { store with scopes := store.scopes.modify scope fun found => found.bind name value }

/-- An array that is the same as none made before. -/
def newArray (store : Store) (items : List Value) : Value × Store :=
  (.array store.created items, { store with created := store.created + 1 })

/-- A function that is the same as none made before. -/
def newFunction (store : Store) (closure : Closure) : Value × Store :=
  (.function store.created closure, { store with created := store.created + 1 })

/-- A store with one scope, which is empty, and its handle. -/
def fresh : ScopeId × Store := empty.newRoot

end Store

end MonkeyLang
