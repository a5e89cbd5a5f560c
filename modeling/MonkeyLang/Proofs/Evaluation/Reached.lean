import MonkeyLang.Proofs.Evaluation.Carriers
import MonkeyLang.Proofs.Evaluation.Mirror

namespace MonkeyLang

open Eval

section
variable (store : Store)

mutual

/-- Every identity and every scope in the value has been given away in the store. -/
def Value.MadeIn : Value → Prop
  | .array identity items => identity < store.created ∧ Value.AllMadeIn items
  | .returned value => value.MadeIn
  | .function identity closure => identity < store.created ∧ closure.scope < store.scopes.size
  | .integer _ | .boolean _ | .string _ | .null | .error _ | .builtin _ => True

def Value.AllMadeIn : List Value → Prop
  | [] => True
  | value :: values => value.MadeIn ∧ Value.AllMadeIn values

end

/-- Everything in the scope was made in the store, and the scope around it is there. -/
structure Scope.MadeIn (scope : Scope) : Prop where
  bindings : ∀ binding ∈ scope.bindings, binding.2.MadeIn store
  parent : ∀ id ∈ scope.parent, id < store.scopes.size

/-- Everything in the store was made in it. -/
def Store.Closed : Prop :=
  ∀ (id : ScopeId) (found : Scope), store.scopes[id]? = some found → found.MadeIn store

end

theorem Store.empty_closed : empty.Closed := by
  intro id found hf
  simp [empty] at hf

/-- Numbers below the bound stay, and the others move on. -/
def moved (bound distance n : Nat) : Nat := if n < bound then n else n + distance

section
variable {bound distance n : Nat}

theorem moved_of_lt (h : n < bound) : moved bound distance n = n := if_pos h

theorem moved_of_le (h : bound ≤ n) : moved bound distance n = n + distance :=
  if_neg (Nat.not_lt.mpr h)

theorem moved_strictMono (bound distance : Nat) : StrictMono (moved bound distance) := by
  intro i j h
  unfold moved
  split <;> split <;> omega

end

/-- Moves what has not been given away in the store; of use for runs that end in the last one. -/
def Renaming.beyond (store : Store) (identities scopes : Nat) (last : Store) : Renaming where
  token := id
  identity := moved store.created identities
  scope := moved store.scopes.size scopes
  identities := last.created
  scopes := last.scopes.size
  identity_injective := (moved_strictMono _ _).injective
  scope_strictMono := moved_strictMono _ _

theorem Renaming.beyond_fits (m n : Nat) (store last : Store) :
    last.Fits (beyond store m n last) := ⟨Nat.le_refl _, Nat.le_refl _⟩

section
variable {store last : Store} {m n : Nat}

theorem Closure.renamed_beyond (closure : Closure) : closure.renamed (.beyond store m n last) =
    { closure with scope := moved store.scopes.size n closure.scope } := by
  have hparameters : closure.parameters.map (Identifier.mapToken id) = closure.parameters := by
    rw [funext Identifier.mapToken_id]
    exact List.map_id' _
  have hbody : closure.body.mapTokens id = closure.body := closure.body.mapTokens_id
  unfold Closure.renamed
  simp only [Renaming.beyond, hparameters, hbody]

mutual

/-- What was made in the store stays. -/
theorem Value.renamed_beyond : ∀ value : Value, value.MadeIn store →
    value.renamed (.beyond store m n last) = value
  | .array _ items, h => by
    rw [renamed, Value.allRenamed_beyond items h.2]
    exact congrArg (array · items) (moved_of_lt h.1)
  | .returned value, h => by rw [renamed, Value.renamed_beyond value h]
  | .function _ closure, h => by
    rw [renamed, closure.renamed_beyond, moved_of_lt h.2]
    exact congrArg (function · closure) (moved_of_lt h.1)
  | .integer _, _ | .boolean _, _ | .string _, _ | .null, _ | .error _, _ | .builtin _, _ => by
    rw [renamed]

theorem Value.allRenamed_beyond : ∀ values : List Value, Value.AllMadeIn store values →
    Value.allRenamed (.beyond store m n last) values = values
  | [], _ => by rw [allRenamed]
  | value :: values, h => by
    rw [allRenamed, Value.renamed_beyond value h.1, Value.allRenamed_beyond values h.2]

end

mutual

theorem Value.madeIn_grows (hg : store.Grows last) : ∀ value : Value, value.MadeIn store →
    value.MadeIn last
  | .array _ items, h => ⟨Nat.lt_of_lt_of_le h.1 hg.created, Value.allMadeIn_grows hg items h.2⟩
  | .returned value, h => Value.madeIn_grows hg value h
  | .function _ _, h =>
    ⟨Nat.lt_of_lt_of_le h.1 hg.created, Nat.lt_of_lt_of_le h.2 hg.scopes⟩
  | .integer _, _ | .boolean _, _ | .string _, _ | .null, _ | .error _, _ | .builtin _, _ => trivial

theorem Value.allMadeIn_grows (hg : store.Grows last) : ∀ values : List Value,
    Value.AllMadeIn store values → Value.AllMadeIn last values
  | [], _ => trivial
  | value :: values, h => ⟨Value.madeIn_grows hg value h.1, Value.allMadeIn_grows hg values h.2⟩

end

theorem map_eq_self_iff {α : Type} {f : α → α} {l : List α} :
    l.map f = l ↔ ∀ a ∈ l, f a = a := by
  have h : l.map f = l.map id ↔ ∀ a ∈ l, f a = id a := List.map_inj_left
  rwa [List.map_id] at h

theorem Value.allMadeIn_iff {values : List Value} :
    AllMadeIn store values ↔ ∀ value ∈ values, value.MadeIn store := by
  induction values with
  | nil => simp [AllMadeIn]
  | cons value values ih => simp [AllMadeIn, ih]

theorem Scope.MadeIn.renamed_beyond {scope : Scope} (h : scope.MadeIn store) :
    scope.renamed (.beyond store m n last) = scope := by
  have hparent : scope.parent.map (Renaming.beyond store m n last).scope = scope.parent := by
    cases hp : scope.parent with
    | none => rfl
    | some id => exact congrArg some (moved_of_lt (h.parent id hp))
  unfold Scope.renamed
  rw [hparent, map_eq_self_iff.mpr fun binding hb =>
    congrArg (binding.1, ·) (binding.2.renamed_beyond (h.bindings binding hb))]

theorem Scope.MadeIn.grows {scope : Scope} (h : scope.MadeIn store) (hg : store.Grows last) :
    scope.MadeIn last :=
  ⟨fun binding hb => binding.2.madeIn_grows hg (h.bindings binding hb),
    fun id hid => Nat.lt_of_lt_of_le (h.parent id hid) hg.scopes⟩

end

namespace Store.Closed

variable {store : Store} {scope id parent : ScopeId} {name : String} {value : Value}

theorem access (h : store.Closed) (ha : store.access scope name = some value) :
    value.MadeIn store := by
  obtain ⟨id, -, found, hf, hb⟩ := Store.bound_of_access ha
  exact (h id found hf).bindings (name, value) hb

theorem declare (h : store.Closed) (scope : ScopeId) (name : String) (hv : value.MadeIn store) :
    (store.declare scope name value).Closed := by
  have hg : store.Grows (store.declare scope name value) :=
    ⟨Nat.le_refl _, by simp [Store.declare]⟩
  intro id found hf
  obtain ⟨before, hb, rfl | rfl⟩ := Store.of_declare hf
  · exact (h id _ hb).grows hg
  · refine ⟨fun binding hm => ?_, ((h id before hb).grows hg).parent⟩
    rcases Scope.mem_bind hm with rfl | hm
    · exact value.madeIn_grows hg hv
    · exact ((h id before hb).grows hg).bindings binding hm

theorem newScope (h : store.Closed) (hp : parent < store.scopes.size) :
    (store.newScope parent).2.Closed := by
  have hg : store.Grows (store.newScope parent).2 := ⟨Nat.le_refl _, by simp [Store.newScope]⟩
  intro id found hf
  rcases Store.of_newScope hf with hf | rfl
  · exact (h id found hf).grows hg
  · refine ⟨by simp, fun around ha => ?_⟩
    obtain rfl : parent = around := Option.mem_some.mp ha
    exact Nat.lt_of_lt_of_le hp hg.scopes

theorem newRoot (h : store.Closed) : store.newRoot.2.Closed := by
  have hg : store.Grows store.newRoot.2 := ⟨Nat.le_refl _, by simp [Store.newRoot]⟩
  intro id found hf
  rw [Store.newRoot, Array.getElem?_push] at hf
  split at hf
  · cases hf
    exact ⟨by simp, by simp⟩
  · exact (h id found hf).grows hg

theorem created (h : store.Closed) :
    ({ store with created := store.created + 1 } : Store).Closed :=
  fun id found hf => (h id found hf).grows ⟨Nat.le_succ _, Nat.le_refl _⟩

end Store.Closed

/-- The store has as many identities and scopes as the other. -/
structure Store.SameSize (store other : Store) : Prop where
  created : store.created = other.created
  scopes : store.scopes.size = other.scopes.size

theorem Store.SameSize.grows {store other : Store} (h : store.SameSize other) :
    store.Grows other ∧ other.Grows store :=
  ⟨⟨Nat.le_of_eq h.created, Nat.le_of_eq h.scopes⟩,
    ⟨Nat.le_of_eq h.created.symm, Nat.le_of_eq h.scopes.symm⟩⟩

/-- That everything was made in the store, as an invariant of evaluation. A world is a store of the
same size. -/
def Invariant.made : Invariant Store where
  le := Store.Grows
  store w s := s.Closed ∧ s.SameSize w
  scope w id := id < w.scopes.size
  value w v := v.MadeIn w
  refl _ := ⟨Nat.le_refl _, Nat.le_refl _⟩
  trans := Store.Grows.trans
  scope_mono hg h := Nat.lt_of_lt_of_le h hg.scopes
  value_mono hg h := Value.madeIn_grows hg _ h
  simple {_ v} h := by
    cases v with
    | array | returned | error | function => exact h.elim
    | _ => trivial
  item h := Value.allMadeIn_iff.mp h.2
  captured h := h.2
  access h _ ha := Value.madeIn_grows h.2.grows.1 _ (h.1.access ha)
  declare {_ _ scope _} name h _ hv := by
    refine ⟨h.1.declare scope name (Value.madeIn_grows h.2.grows.2 _ hv), h.2.created, ?_⟩
    simpa [Store.declare] using h.2.scopes
  newScope {_ s parent} h hp := by
    have hg : s.Grows (s.newScope parent).2 := ⟨Nat.le_refl _, by simp [Store.newScope]⟩
    refine ⟨_, h.2.grows.2.trans hg, ⟨h.1.newScope (h.2.scopes ▸ hp), rfl, rfl⟩, ?_⟩
    simp [Store.newScope]
  newArray {_ s items} h hv := by
    have hg : s.Grows (s.newArray items).2 := ⟨Nat.le_succ _, Nat.le_refl _⟩
    refine ⟨_, h.2.grows.2.trans hg, ⟨h.1.created, rfl, rfl⟩, Nat.lt_succ_self _, ?_⟩
    refine Value.allMadeIn_iff.mpr fun v hm => ?_
    exact Value.madeIn_grows (h.2.grows.2.trans hg) v (hv v hm)
  newFunction {_ s closure} h hs := by
    have hg : s.Grows (s.newFunction closure).2 := ⟨Nat.le_succ _, Nat.le_refl _⟩
    refine ⟨_, h.2.grows.2.trans hg, ⟨h.1.created, rfl, rfl⟩, Nat.lt_succ_self _, ?_⟩
    exact Nat.lt_of_lt_of_le hs (h.2.grows.2.trans hg).scopes

/-- Stores that come about as environments are made and tasks are done in them, one after the
other: behind every task and at every moment of it. A task is about values of the store. -/
inductive Store.Reached : Store → Prop where
  | empty : Reached Store.empty
  | newRoot {store : Store} (h : Reached store) : Reached store.newRoot.2
  | during {start moment : Moment} (h : Reached start.store)
    (hs : start.scope < start.store.scopes.size)
    (hv : ∀ value ∈ start.task.values, value.MadeIn start.store) (hl : start.Leads moment) :
    Reached moment.store
  | after {start : Moment} (h : Reached start.store) (hs : start.scope < start.store.scopes.size)
    (hv : ∀ value ∈ start.task.values, value.MadeIn start.store) : Reached start.after

theorem Store.Reached.closed {store : Store} (h : store.Reached) : store.Closed := by
  induction h with
  | empty => exact empty_closed
  | newRoot _ ih => exact ih.newRoot
  | @during start moment _ hs hv hl ih =>
    have hsound : Invariant.made.Sound start.store start := ⟨⟨ih, rfl, rfl⟩, hs, hv⟩
    obtain ⟨_, -, hmoment⟩ := hsound.leads hl
    exact hmoment.store.1
  | @after start _ hs hv ih =>
    have hleaves : Invariant.made.Leaves start.store _ Invariant.made.values start.store :=
      Invariant.leaves_task start.limit hs hv
    obtain ⟨_, -, hafter⟩ := hleaves.final ⟨ih, rfl, rfl⟩
    exact hafter.1

end MonkeyLang
