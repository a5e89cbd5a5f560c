import MonkeyLang.Proofs.Evaluation.Identity

namespace MonkeyLang

open Eval

namespace Store

variable {store : Store} {scope : ScopeId} {name : String} {value : Value}

theorem access_declare_self (hs : scope < store.scopes.size) :
    (store.declare scope name value).access scope name = some value := by
  have hf : store.scopes[scope]? = some store.scopes[scope] := Array.getElem?_eq_getElem hs
  have hbound : (store.declare scope name value).scopes[scope]? =
      some (store.scopes[scope].bind name value) := by
    simp [declare, Array.getElem?_modify, hf]
  simp [access, chain_eq hbound, hbound, Scope.find?_bind_self]

theorem chain_declare {target : ScopeId} :
    (store.declare target name value).chain scope = store.chain scope := by
  refine chain_congr fun id => ?_
  rw [declare, Array.getElem?_modify]
  split
  · cases store.scopes[id]? <;> rfl
  · rfl

theorem findSome_congr {α β : Type} {f g : α → Option β} {l : List α} (h : ∀ a ∈ l, f a = g a) :
    l.findSome? f = l.findSome? g := by
  induction l with
  | nil => rfl
  | cons a l ih =>
    obtain ⟨ha, hl⟩ := List.forall_mem_cons.mp h
    rw [List.findSome?_cons, List.findSome?_cons, ha, ih hl]

/-- A name is found as before if it is bound in none of the scopes where it is looked for. -/
theorem access_declare_elsewhere {target : ScopeId} {other : String}
    (h : ∀ id ∈ store.chain scope, (id, other) ≠ (target, name)) :
    (store.declare target name value).access scope other = store.access scope other := by
  rw [access, access, chain_declare]
  refine findSome_congr fun id hid => ?_
  rw [declare, Array.getElem?_modify]
  split
  · next he =>
    subst he
    have hne : other ≠ name := by
      rintro rfl
      exact h target hid rfl
    cases store.scopes[target]? with
    | none => rfl
    | some found => exact Scope.find?_bind_of_ne found value hne
  · rfl

theorem access_declare_of_ne {other : String} (h : other ≠ name) :
    (store.declare scope name value).access scope other = store.access scope other :=
  access_declare_elsewhere fun _ _ he => h (Prod.mk.inj he).2

/-- The store with the names bound to the values, the first to the first. -/
def declareAll (store : Store) (scope : ScopeId) : List Identifier → List Value → Store
  | x :: xs, v :: vs => (store.declare scope x.name v).declareAll scope xs vs
  | _, _ => store

theorem run_declareAll (scope : ScopeId) : ∀ (xs : List Identifier) (vs : List Value)
    (store : Store), EStateM.run (Eval.declareAll scope xs vs) store =
      .ok () (store.declareAll scope xs vs)
  | [], _, _ => rfl
  | _ :: _, [], _ => rfl
  | x :: xs, v :: vs, store => by
    rw [Eval.declareAll, declareAll, ← run_declareAll scope xs vs]
    rfl

theorem access_declareAll_of_ne : ∀ (xs : List Identifier) (vs : List Value) (store : Store),
    (∀ x ∈ xs, x.name ≠ name) →
    (store.declareAll scope xs vs).access scope name = store.access scope name
  | [], _, _, _ => rfl
  | _ :: _, [], _, _ => rfl
  | x :: xs, v :: vs, store, h => by
    obtain ⟨hx, hxs⟩ := List.forall_mem_cons.mp h
    rw [declareAll, access_declareAll_of_ne xs vs _ hxs, access_declare_of_ne hx.symm]

/-- The last of several parameters with one name counts. -/
theorem access_declareAll : ∀ (xs : List Identifier) (vs : List Value) (store : Store) (k : Nat)
    (x : Identifier) (v : Value), scope < store.scopes.size → xs[k]? = some x →
    vs[k]? = some v → (∀ y ∈ xs.drop (k + 1), y.name ≠ x.name) →
    (store.declareAll scope xs vs).access scope x.name = some v
  | [], _, _, _, _, _, _, hx, _, _ => by simp at hx
  | _ :: _, [], _, _, _, _, _, _, hv, _ => by simp at hv
  | x :: xs, v :: vs, store, 0, _, _, hs, hx, hv, hlast => by
    cases hx
    cases hv
    rw [declareAll, access_declareAll_of_ne xs vs _ hlast, access_declare_self hs]
  | _ :: xs, _ :: vs, store, k + 1, x, v, hs, hx, hv, hlast => by
    rw [declareAll]
    exact access_declareAll xs vs _ k x v (by simpa [declare] using hs) hx hv hlast

end Store

/-- What the task of the moment makes is the same as nothing that exists before. -/
structure Moment.MakesNew (held : List Value) (moment : Moment) : Prop where
  array : ∀ token items values middle, moment.task = .expression (.array token items) →
    Task.Ends moment.limit moment.scope moment.store (.expressions items) values middle →
    ∃ identity after, moment.outcome = .ok [.array identity values] after ∧
      ∀ other, (Snapshot.mk held moment.store).Has other ∨
        (Snapshot.mk (values ++ held) middle).Has other →
          (Value.array identity values).same other = false
  function : ∀ token parameters body,
    moment.task = .expression (.function token parameters body) →
    ∃ identity after, moment.outcome =
        .ok [.function identity ⟨parameters, body, moment.scope⟩] after ∧
      ∀ other, (Snapshot.mk held moment.store).Has other →
        (Value.function identity ⟨parameters, body, moment.scope⟩).same other = false
  push : ∀ arguments values after, moment.task = .application (.builtin .push) arguments →
    moment.outcome = .ok values after →
    ∃ before items item identity, arguments = [.array before items, item] ∧
      values = [.array identity (items ++ [item])] ∧
      ∀ other, (Snapshot.mk (moment.task.values ++ held) moment.store).Has other →
        (Value.array identity (items ++ [item])).same other = false

/-- What the task of the moment passes on is the value itself, with its identity. -/
structure Moment.PassesOn (moment : Moment) : Prop where
  letName : ∀ token name e value middle, moment.task = .statement (.letName token name e) →
    Task.Ends moment.limit moment.scope moment.store (.expression e) [value] middle →
    ∃ after, moment.outcome = .ok [.null] after ∧
      after.access moment.scope name.name = some value
  name : ∀ x value, moment.task = .expression (.name x) →
    moment.store.access moment.scope x.name = some value →
    moment.outcome = .ok [value] moment.store
  parameters : ∀ parameters arguments, moment.task = .binding parameters arguments →
    ∃ after, moment.outcome = .ok [] after ∧ ∀ k x value, parameters[k]? = some x →
      arguments[k]? = some value → (∀ y ∈ parameters.drop (k + 1), y.name ≠ x.name) →
        after.access moment.scope x.name = some value
  index : ∀ token e i identity items n middle after value,
    moment.task = .expression (.index token e i) →
    Task.Ends moment.limit moment.scope moment.store (.expression e) [.array identity items]
      middle →
    Task.Ends moment.limit moment.scope middle (.expression i) [.integer n] after →
    0 ≤ n → items[n.toInt.toNat]? = some value → moment.outcome = .ok [value] after
  first : ∀ identity value items,
    moment.task = .application (.builtin .first) [.array identity (value :: items)] →
    moment.outcome = .ok [value] moment.store
  last : ∀ identity items value,
    moment.task = .application (.builtin .last) [.array identity (items ++ [value])] →
    moment.outcome = .ok [value] moment.store

namespace Task
variable {limit : Nat} {scope : ScopeId} {store middle after : Store}

theorem ends_expression {e : Expr} {value : Value} :
    Ends limit scope store (.expression e) [value] after ↔
      EStateM.run (evaluate (invoke limit) scope e) store = .ok value after := by
  unfold Ends
  rw [run, EStateM.run_bind]
  cases EStateM.run (evaluate (invoke limit) scope e) store <;> simp

theorem Ends.array {token : Token} {items : List Expr} {values : List Value}
    (h : Ends limit scope store (.expressions items) values middle) :
    Ends limit scope store (.expression (.array token items)) [.array middle.created values]
      { middle with created := middle.created + 1 } := by
  rw [ends_expression, evaluate, EStateM.run_bind]
  rw [Ends, run] at h
  rw [h]
  rfl

theorem Ends.letName {token : Token} {name : Identifier} {e : Expr} {value : Value}
    (h : Ends limit scope store (.expression e) [value] middle) :
    Ends limit scope store (.statement (.letName token name e)) [.null]
      (middle.declare scope name.name value) := by
  rw [ends_expression] at h
  rw [Ends, run, Eval.run, EStateM.run_bind, EStateM.run_bind, h]
  rfl

theorem Ends.index {token : Token} {e i : Expr} {left position value : Value}
    (he : Ends limit scope store (.expression e) [left] middle)
    (hi : Ends limit scope middle (.expression i) [position] after)
    (hv : left.atIndex position = .ok value) :
    Ends limit scope store (.expression (.index token e i)) [value] after := by
  rw [ends_expression] at he hi ⊢
  rw [evaluate, EStateM.run_bind, he]
  dsimp only
  rw [EStateM.run_bind, hi]
  dsimp only
  rw [hv]
  rfl

theorem ends_name {x : Identifier} {value : Value} (h : store.access scope x.name = some value) :
    Ends limit scope store (.expression (.name x)) [value] store := by
  rw [ends_expression, evaluate]
  simp [resolve, h]

theorem Ends.push {arguments values : List Value}
    (h : Ends limit scope store (.application (.builtin .push) arguments) values after) :
    ∃ before items item, arguments = [.array before items, item] ∧
      values = [.array store.created (items ++ [item])] := by
  rw [Ends, run, EStateM.run_bind, apply, callBuiltin, EStateM.run_bind] at h
  cases hp : Builtin.pushed arguments with
  | error error =>
    rw [hp] at h
    cases h
  | ok pushed =>
    rw [hp] at h
    unfold Builtin.pushed at hp
    split at hp
    · next before items item =>
      cases hp
      cases h
      exact ⟨before, items, item, rfl, rfl⟩
    · cases hp
    · cases hp

theorem ends_binding (limit : Nat) (scope : ScopeId) (parameters : List Identifier)
    (arguments : List Value) (store : Store) :
    Ends limit scope store (.binding parameters arguments) []
      (store.declareAll scope parameters arguments) := by
  rw [Ends, run, EStateM.run_bind, Store.run_declareAll]
  rfl

theorem ends_builtin {f : Builtin} {read : Value → Except RuntimeError Value}
    {argument value : Value} (hf : callBuiltin f [argument] = ofExcept (read argument))
    (hv : read argument = .ok value) :
    Ends limit scope store (.application (.builtin f) [argument]) [value] store := by
  rw [Ends, run, EStateM.run_bind, apply, hf, hv]
  rfl

end Task
section
variable {moment : Moment} {held ledger : List Value}

theorem Moment.makesNew (hm : Invariant.ledger.Sound ledger moment)
    (hheld : ∀ value ∈ held, value.Agrees ledger) : moment.MakesNew held where
  array token items values middle ht he := by
    obtain ⟨ledger', hl, hmiddle, hvalues⟩ :=
      Invariant.of_ends he hm.store trivial (List.forall_mem_nil _)
    refine ⟨middle.created, { middle with created := middle.created + 1 }, ?_, fun other ho => ?_⟩
    · rw [outcome, ht]
      exact he.array
    · have hagrees : other.Agrees ledger' := by
        rcases ho with ho | ho
        · exact (ho.agrees hm.store hheld).mono hl
        · refine ho.agrees hmiddle (List.forall_mem_append.mpr ⟨hvalues, ?_⟩)
          exact fun value hv => (hheld value hv).mono hl
      exact (hagrees.not_same (Nat.le_of_eq hmiddle.created)).1 values
  function token parameters body ht := by
    refine ⟨moment.store.created, { moment.store with created := moment.store.created + 1 }, ?_,
      fun other ho => ?_⟩
    · rw [outcome, ht]
      rfl
    · exact ((ho.agrees hm.store hheld).not_same (Nat.le_of_eq hm.store.created)).2 _
  push arguments values after ht ho := by
    rw [outcome, ht] at ho
    obtain ⟨before, items, item, harguments, hvalues⟩ := Task.Ends.push ho
    refine ⟨before, items, item, _, harguments, hvalues, fun other ho => ?_⟩
    have hagrees := ho.agrees hm.store (List.forall_mem_append.mpr ⟨hm.values, hheld⟩)
    exact (hagrees.not_same (Nat.le_of_eq hm.store.created)).1 _

theorem Moment.passesOn (hs : moment.scope < moment.store.scopes.size)
    (hgrows : ∀ e value middle, Task.Ends moment.limit moment.scope moment.store (.expression e)
      [value] middle → moment.scope < middle.scopes.size) : moment.PassesOn where
  letName token name e value middle ht he := by
    refine ⟨middle.declare moment.scope name.name value, ?_, ?_⟩
    · rw [outcome, ht]
      exact he.letName
    · exact Store.access_declare_self (hgrows e value middle he)
  name x value ht ha := by
    rw [outcome, ht]
    exact Task.ends_name ha
  parameters parameters arguments ht := by
    refine ⟨moment.store.declareAll moment.scope parameters arguments, ?_, ?_⟩
    · rw [outcome, ht]
      exact Task.ends_binding _ _ _ _ _
    · exact fun k x value hx hv hlast =>
        Store.access_declareAll parameters arguments _ k x value hs hx hv hlast
  index token e i identity items n middle after value ht he hi hn hv := by
    have hread : (Value.array identity items).atIndex (.integer n) = .ok value := by
      rw [Value.atIndex, if_neg (Int64.not_lt.mpr hn), List.getD_eq_getElem?_getD, hv]
      rfl
    rw [outcome, ht]
    exact he.index hi hread
  first identity value items ht := by
    have hread : Builtin.firstOf (.array identity (value :: items)) = .ok value := rfl
    rw [outcome, ht]
    exact Task.ends_builtin rfl hread
  last identity items value ht := by
    have hread : Builtin.lastOf (.array identity (items ++ [value])) = .ok value := by
      rw [Builtin.lastOf, List.getLast?_concat]
      rfl
    rw [outcome, ht]
    exact Task.ends_builtin rfl hread

end

theorem Session.start_knows : start.store.Knows [] where
  created := rfl
  bound id found hf binding hb := by simp [start_found hf] at hb

/-- Equality is lawful at every time of a run, and identity fixes contents. Among all values that
exist then, equality of contents is an equivalence that sameness implies, and `==` and `!=` are
exact on each type but strings; what literals and `push` make is the same as nothing before, and
what is bound, stored and read keeps its identity. -/
theorem identity_fixes_contents {held : List Value} {moment : Moment} (h : moment.Reached held) :
    (∀ snapshot, moment.Shows held snapshot → snapshot.Equates ∧ snapshot.Compares) ∧
      moment.MakesNew held ∧ moment.PassesOn := by
  obtain ⟨ledger, hm, hheld⟩ := Invariant.ledger.sound_of_reached Session.start_knows trivial h
  obtain ⟨world, hmade, -⟩ := Invariant.made.sound_of_reached (w := Session.start.store)
    ⟨Store.empty_closed.newRoot, rfl, rfl⟩ Nat.zero_lt_one h
  refine ⟨fun snapshot hs => ?_, moment.makesNew hm hheld, moment.passesOn ?_ ?_⟩
  · obtain ⟨ledger', -, hstore, hhand⟩ := hm.shows hheld hs
    have hagrees : ∀ value, snapshot.Has value → value.Agrees ledger' :=
      fun value hv => hv.agrees hstore hhand
    exact ⟨Snapshot.equates hagrees, Snapshot.compares hagrees⟩
  · exact hmade.store.2.scopes ▸ hmade.scope
  · intro e value middle he
    obtain ⟨world', hw, hmiddle, -⟩ :=
      Invariant.of_ends he hmade.store hmade.scope (List.forall_mem_nil _)
    exact hmiddle.2.scopes ▸ Invariant.made.scope_mono hw hmade.scope

/-- The program `let a = [1];`, behind which `[a]` is evaluated alone. -/
def boxedOne : Program :=
  [.letName (Token.endAt 0) ⟨Token.endAt 0, "a"⟩
    (.array (Token.endAt 0) [.integer (Token.endAt 0) 1])]

theorem identity_fixes_contents_boxed :
    let session := Session.start.performAll callLimit [.program boxedOne]
    let moment : Moment := ⟨callLimit, session.scope, session.store,
      .expression (.array (Token.endAt 0) [.name ⟨Token.endAt 0, "a"⟩])⟩
    moment.Reached [] ∧
      (∀ snapshot, moment.Shows [] snapshot → snapshot.Equates ∧ snapshot.Compares) ∧
      moment.MakesNew [] ∧ moment.PassesOn := by
  intro session moment
  have hbegins : session.Begins callLimit
      (.expression (.array (Token.endAt 0) [.name ⟨Token.endAt 0, "a"⟩])) moment := ⟨_, rfl, rfl⟩
  have hreached : moment.Reached [] := ⟨hbegins, .start⟩
  exact ⟨hreached, identity_fixes_contents hreached⟩

end MonkeyLang
