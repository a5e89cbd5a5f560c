import Mathlib.Algebra.Group.Nat.Defs
import MonkeyLang.Proofs.Evaluation.EarlyExit
import MonkeyLang.Proofs.Evaluation.Making

namespace MonkeyLang

open Eval

/-- The item at a position, and `null` outside. -/
def itemAt (items : List Value) (i : Int) : Value :=
  if i < 0 then .null else items.getD i.toNat .null

section
variable {items : List Value} {v item : Value} {i : Int}

theorem itemAt_outside (h : i < 0 ∨ (items.length : Int) ≤ i) : itemAt items i = .null := by
  unfold itemAt
  split
  · rfl
  · have hi : items.length ≤ i.toNat := by omega
    rw [List.getD_eq_getElem?_getD, List.getElem?_eq_none hi, Option.getD_none]

theorem itemAt_inside (h0 : 0 ≤ i) (h : items[i.toNat]? = some item) : itemAt items i = item := by
  rw [itemAt, if_neg (by omega), List.getD_eq_getElem?_getD, h, Option.getD_some]

theorem itemAt_zero (items : List Value) : itemAt items 0 = items.head?.getD .null := by
  cases items <;> rfl

theorem itemAt_last (items : List Value) :
    itemAt items (items.length - 1) = items.getLast?.getD .null := by
  cases items with
  | nil => rfl
  | cons item items =>
    have hlast : ((List.length (item :: items) : Int) - 1).toNat = items.length := by simp
    rw [itemAt, if_neg (by simp), hlast, List.getD_eq_getElem?_getD, List.getLast?_eq_getElem?]
    rfl

theorem itemAt_push_inside (h : i < items.length) :
    itemAt (items ++ [v]) i = itemAt items i := by
  unfold itemAt
  split
  · rfl
  · have hi : i.toNat < items.length := by omega
    rw [List.getD_eq_getElem?_getD, List.getD_eq_getElem?_getD, List.getElem?_append_left hi]

theorem itemAt_push_behind : itemAt (items ++ [v]) items.length = v :=
  itemAt_inside (by omega) List.getElem?_concat_length

end

/-- Called with these arguments, the builtin comes to the value and changes nothing. -/
def Builtin.Gives (f : Builtin) (arguments : List Value) (value : Value) : Prop :=
  ∀ limit scope store,
    Task.Ends limit scope store (.application (.builtin f) arguments) [value] store

/-- Indexing reads this value from the first at the position, whatever expressions the two come
from. -/
def Value.ReadsAt (a : Value) (i : Int64) (value : Value) : Prop :=
  ∀ limit scope store middle after token left position,
    Task.Ends limit scope store (.expression left) [a] middle →
    Task.Ends limit scope middle (.expression position) [.integer i] after →
    Task.Ends limit scope store (.expression (.index token left position)) [value] after

section
variable (identity : Nat) (items : List Value)

theorem readsAt_itemAt (i : Int64) :
    (Value.array identity items).ReadsAt i (itemAt items i.toInt) := by
  intro limit scope store middle after token left position hleft hposition
  refine hleft.index hposition ?_
  simp only [Value.atIndex, itemAt, Int64.lt_iff_toInt_lt, Int64.toInt_zero]

theorem gives_len :
    Builtin.len.Gives [.array identity items] (.integer (Int64.ofNat items.length)) := by
  have hread : Builtin.length (.array identity items) =
      .ok (.integer (Int64.ofNat items.length)) := rfl
  exact fun _ _ _ => Task.ends_builtin rfl hread

theorem gives_first : Builtin.first.Gives [.array identity items] (itemAt items 0) := by
  have hread : Builtin.firstOf (.array identity items) = .ok (items.head?.getD .null) := rfl
  rw [itemAt_zero]
  exact fun _ _ _ => Task.ends_builtin rfl hread

theorem gives_last :
    Builtin.last.Gives [.array identity items] (itemAt items (items.length - 1)) := by
  have hread : Builtin.lastOf (.array identity items) = .ok (items.getLast?.getD .null) := rfl
  rw [itemAt_last]
  exact fun _ _ _ => Task.ends_builtin rfl hread

theorem ends_push (v : Value) (limit : Nat) (scope : ScopeId) (store : Store) :
    Task.Ends limit scope store (.application (.builtin .push) [.array identity items, v])
      [.array store.created (items ++ [v])] { store with created := store.created + 1 } := rfl

end

/-- How an array of these items and the one that has `v` behind them are read. -/
structure Value.Pushed (a : Value) (items : List Value) (v pushed : Value) : Prop where
  length : ∃ n : Int64, Builtin.len.Gives [a] (.integer n) ∧
    Builtin.len.Gives [pushed] (.integer (n + 1)) ∧
    (items.length < 2 ^ 63 → n.toInt = items.length) ∧
    (items.length + 1 < 2 ^ 63 → (n + 1).toInt = items.length + 1)
  inside : ∀ i : Int64, 0 ≤ i.toInt → i.toInt < items.length →
    ∃ item, items[i.toInt.toNat]? = some item ∧ a.ReadsAt i item ∧ pushed.ReadsAt i item
  behind : ∀ i : Int64, i.toInt = items.length → pushed.ReadsAt i v
  outside : ∀ i : Int64, i.toInt < 0 ∨ items.length < i.toInt → pushed.ReadsAt i .null
  last : Builtin.last.Gives [pushed] v

/-- The first and the last item are those at the ends, and both are `null` if there is none. No
array in memory has 2^63 items. -/
structure Value.Bounded (a : Value) (items : List Value) : Prop where
  first : ∃ item, Builtin.first.Gives [a] item ∧ a.ReadsAt 0 item
  last : items.length < 2 ^ 63 → ∃ (n : Int64) (item : Value), Builtin.len.Gives [a] (.integer n) ∧
    Builtin.last.Gives [a] item ∧ a.ReadsAt (n - 1) item

theorem toInt_length_pred {n : Nat} (h : n < 2 ^ 63) : (Int64.ofNat n - 1).toInt = n - 1 := by
  have hpred : Int64.ofNat n - 1 = Int64.ofInt (n - 1) := by
    rw [Int64.ofInt_sub, Int64.ofInt_eq_ofNat]
    rfl
  rw [hpred]
  exact Int64.toInt_ofInt_of_le (by omega) (by omega)

theorem array_pushed (identity made : Nat) (items : List Value) (v : Value) :
    (Value.array identity items).Pushed items v (.array made (items ++ [v])) where
  length := by
    have hlength : Int64.ofNat (items ++ [v]).length = Int64.ofNat items.length + 1 := by
      rw [List.length_append, List.length_singleton, Int64.ofNat_add]
      rfl
    refine ⟨_, gives_len identity items, hlength ▸ gives_len made _, Int64.toInt_ofNat_of_lt, ?_⟩
    intro h
    rw [← hlength, List.length_append, List.length_singleton, Int64.toInt_ofNat_of_lt h,
      Int.natCast_succ]
  inside i h0 hi := by
    have hlt : i.toInt.toNat < items.length := by omega
    have hitem := itemAt_inside h0 (List.getElem?_eq_getElem hlt)
    have hread := readsAt_itemAt identity items i
    have hpushed := readsAt_itemAt made (items ++ [v]) i
    rw [itemAt_push_inside hi] at hpushed
    rw [hitem] at hread hpushed
    exact ⟨_, List.getElem?_eq_getElem hlt, hread, hpushed⟩
  behind i hi := by
    have hpushed := readsAt_itemAt made (items ++ [v]) i
    rwa [hi, itemAt_push_behind] at hpushed
  outside i hi := by
    have hpushed := readsAt_itemAt made (items ++ [v]) i
    have hlength : (items ++ [v]).length = items.length + 1 := by simp
    rwa [itemAt_outside (by omega)] at hpushed
  last := by
    have hlast := gives_last made (items ++ [v])
    rwa [itemAt_last, List.getLast?_concat, Option.getD_some] at hlast

theorem array_bounded (identity : Nat) (items : List Value) :
    (Value.array identity items).Bounded items where
  first := ⟨_, gives_first identity items, readsAt_itemAt identity items 0⟩
  last h := by
    have hread := readsAt_itemAt identity items (Int64.ofNat items.length - 1)
    rw [toInt_length_pred h] at hread
    exact ⟨_, _, gives_len identity items, gives_last identity items, hread⟩

/-- Arrays that are pushed onto, the store that they are in, and the names bound to them on the
way. -/
structure Family where
  store : Store
  arrays : List Value
  bound : List (ScopeId × String)

/-- A value is pushed onto one of the arrays, or one of them is bound to a name. -/
inductive Family.Step : Family → Family → Prop where
  | push {family : Family} {a v pushed : Value} {limit : Nat} {scope : ScopeId} {after : Store}
    (hm : a ∈ family.arrays)
    (h : Task.Ends limit scope family.store (.application (.builtin .push) [a, v]) [pushed] after) :
    Step family ⟨after, pushed :: family.arrays, family.bound⟩
  | bind {family : Family} {a : Value} (hm : a ∈ family.arrays) (scope : ScopeId) (name : String) :
    Step family ⟨family.store.declare scope name a, family.arrays, (scope, name) :: family.bound⟩

/-- What has come of the arrays: the scopes are as before, and so is what a name stands for unless
it has been bound on the way. -/
structure Family.Outlasts (first last : Family) : Prop where
  chain : ∀ scope, last.store.chain scope = first.store.chain scope
  bound : first.bound ⊆ last.bound
  access : ∀ scope name, (∀ id ∈ first.store.chain scope, (id, name) ∉ last.bound) →
    last.store.access scope name = first.store.access scope name

/-- A push changes no scope. -/
theorem ends_push_scopes {limit : Nat} {scope : ScopeId} {store after : Store} {a v pushed : Value}
    (h : Task.Ends limit scope store (.application (.builtin .push) [a, v]) [pushed] after) :
    after = { store with created := store.created + 1 } := by
  obtain ⟨identity, items, item, harguments, -⟩ := Task.Ends.push h
  cases harguments
  have hrun := h.symm.trans (ends_push identity items v limit scope store)
  exact (EStateM.Result.ok.inj hrun).2

namespace Family

variable {first middle last : Family}

theorem Step.outlasts (h : first.Step last) : first.Outlasts last := by
  cases h with
  | push hm h =>
    obtain rfl := ends_push_scopes h
    exact ⟨fun _ => rfl, List.Subset.refl _, fun _ _ _ => rfl⟩
  | bind hm target other =>
    refine ⟨fun _ => Store.chain_declare, List.subset_cons_self _ _, fun scope name hn => ?_⟩
    refine Store.access_declare_elsewhere fun id hid he => hn id hid ?_
    rw [he]
    exact List.mem_cons_self

theorem Outlasts.trans (h : first.Outlasts middle) (k : middle.Outlasts last) :
    first.Outlasts last where
  chain scope := (k.chain scope).trans (h.chain scope)
  bound := List.Subset.trans h.bound k.bound
  access scope name hn := by
    rw [k.access scope name (by rwa [h.chain scope])]
    exact h.access scope name fun id hid hb => hn id hid (k.bound hb)

/-- However often something is pushed, every name that is not bound anew stands for the value that
it stood for. -/
theorem outlasts (h : Relation.ReflTransGen Step first last) : first.Outlasts last := by
  induction h with
  | refl => exact ⟨fun _ => rfl, List.Subset.refl _, fun _ _ _ => rfl⟩
  | tail _ hs ih => exact ih.trans hs.outlasts

end Family

namespace Store

/-- The name in the scope is evaluated to an array of this length. -/
def ShowsLength (store : Store) (scope : ScopeId) (name : String) (n : Int64) : Prop :=
  ∀ limit token, ∃ values, Builtin.len.Gives values (.integer n) ∧
    Task.Ends limit scope store (.expressions [.name ⟨token, name⟩]) values store

/-- The name in the scope, indexed with the position, is evaluated to this item. -/
def ShowsAt (store : Store) (scope : ScopeId) (name : String) (i : Int64) (item : Value) : Prop :=
  ∀ limit token u w, Task.Ends limit scope store
    (.expression (.index token (.name ⟨u, name⟩) (.integer w i))) [item] store

/-- Through the name an array is seen in both stores with one length and the same items. -/
structure SeeAlike (before after : Store) (scope : ScopeId) (name : String) : Prop where
  length : ∃ n, before.ShowsLength scope name n ∧ after.ShowsLength scope name n
  item : ∀ i, ∃ item, before.ShowsAt scope name i item ∧ after.ShowsAt scope name i item

variable {store before after : Store} {scope : ScopeId} {name : String} {identity : Nat}
  {items : List Value}

theorem showsLength (h : store.access scope name = some (.array identity items)) :
    store.ShowsLength scope name (Int64.ofNat items.length) := by
  intro limit token
  refine ⟨_, gives_len identity items, ?_⟩
  have hname : Task.Ends limit scope store (.expression (.name ⟨token, name⟩))
      [.array identity items] store := Task.ends_name h
  rw [Task.Ends, Task.run, evaluateAll, run_bind_of_ok (Task.ends_expression.mp hname)]
  rfl

theorem showsAt (h : store.access scope name = some (.array identity items)) (i : Int64) :
    store.ShowsAt scope name i (itemAt items i.toInt) := by
  intro limit token u w
  have hposition : Task.Ends limit scope store (.expression (.integer w i)) [.integer i] store := by
    rw [Task.ends_expression, evaluate]
    rfl
  exact readsAt_itemAt identity items i _ _ _ _ _ _ _ _ (Task.ends_name h) hposition

theorem seeAlike (hb : before.access scope name = some (.array identity items))
    (ha : after.access scope name = some (.array identity items)) :
    before.SeeAlike after scope name where
  length := ⟨_, showsLength hb, showsLength ha⟩
  item i := ⟨_, showsAt hb i, showsAt ha i⟩

end Store

/-- Whatever is asked for in a session, an identity stands for the same items before and behind. -/
theorem array_items_kept {limit : Nat} {done more : List Request} {identity : Nat}
    {items items' : List Value}
    (hb : (Snapshot.mk [] (Session.start.performAll limit done).store).Has (.array identity items))
    (ha : (Snapshot.mk [] ((Session.start.performAll limit done).performAll limit more).store).Has
      (.array identity items')) : items' = items := by
  obtain ⟨ledger, -, hbefore, hscope⟩ :=
    Invariant.ledger.performAll limit done Session.start_knows trivial
  obtain ⟨ledger', hl, hafter, -⟩ := Invariant.ledger.performAll limit more hbefore hscope
  have hitems := (hb.agrees hbefore (List.forall_mem_nil _)).mono hl
  have hitems' := ha.agrees hafter (List.forall_mem_nil _)
  have heq := hitems'.1.symm.trans hitems.1
  simpa using heq

/-- Arrays are persistent sequences. `push` makes the array with one item more, the first and the
last item are those at the ends, and after pushes in any number onto any arrays, as after everything
else that is asked for, an array is seen with the items that it had through all that holds it. -/
theorem arrays_persistent :
    (∀ (identity : Nat) (items : List Value) (v : Value) (limit : Nat) (scope : ScopeId)
      (store : Store), ∃ pushed after, Task.Ends limit scope store
        (.application (.builtin .push) [.array identity items, v]) [pushed] after ∧
        (Value.array identity items).Pushed items v pushed) ∧
    (∀ (identity : Nat) (items : List Value), (Value.array identity items).Bounded items) ∧
    (∀ (store : Store) (arrays : List Value) (last : Family) (scope : ScopeId) (name : String)
      (identity : Nat) (items : List Value),
      Relation.ReflTransGen Family.Step ⟨store, arrays, []⟩ last →
      store.access scope name = some (.array identity items) →
      (∀ id ∈ store.chain scope, (id, name) ∉ last.bound) →
      last.store.access scope name = some (.array identity items) ∧
        store.SeeAlike last.store scope name) ∧
    ∀ (limit : Nat) (done more : List Request) (identity : Nat) (items items' : List Value),
      let before := Session.start.performAll limit done
      (Snapshot.mk [] before.store).Has (.array identity items) →
      (Snapshot.mk [] (before.performAll limit more).store).Has (.array identity items') →
      items' = items := by
  refine ⟨?_, array_bounded, ?_, fun _ _ _ _ _ _ => array_items_kept⟩
  · intro identity items v limit scope store
    exact ⟨_, _, ends_push identity items v limit scope store, array_pushed _ _ _ _⟩
  · intro store arrays last scope name identity items h ha hn
    have hlast := ((Family.outlasts h).access scope name hn).trans ha
    exact ⟨hlast, Store.seeAlike ha hlast⟩

/-- The program `let b = push(a, 2);`. -/
def pushedTwo : Program :=
  [.letName (Token.endAt 0) ⟨Token.endAt 0, "b"⟩
    (.call (Token.endAt 0) (.name ⟨Token.endAt 0, "push"⟩)
      [.name ⟨Token.endAt 0, "a"⟩, .integer (Token.endAt 0) 2])]

/-- The array `[1]`, bound to a name, is pushed onto and stays. -/
theorem arrays_persistent_boxed :
    let session := Session.start.performAll callLimit [.program boxedOne]
    let later := session.performAll callLimit [.program pushedTwo]
    session.store.access 0 "a" = some (.array 0 [.integer 1]) ∧
      later.store.access 0 "b" = some (.array 1 [.integer 1, .integer 2]) ∧
      (∃ last, Relation.ReflTransGen Family.Step ⟨session.store, [.array 0 [.integer 1]], []⟩ last ∧
        last.store.access 0 "b" = some (.array 1 [.integer 1, .integer 2]) ∧
        session.store.SeeAlike last.store 0 "a") ∧
      (∃ n item, Builtin.len.Gives [.array 1 [.integer 1, .integer 2]] (.integer n) ∧
        Builtin.last.Gives [.array 1 [.integer 1, .integer 2]] item ∧
        (Value.array 1 [.integer 1, .integer 2]).ReadsAt (n - 1) item) ∧
      ∀ items, (Snapshot.mk [] later.store).Has (.array 0 items) → items = [.integer 1] := by
  intro session later
  have hbound : session.store.access 0 "a" = some (.array 0 [.integer 1]) := rfl
  refine ⟨hbound, rfl, ?_, ?_, fun items hitems => ?_⟩
  · have hpush : Family.Step ⟨session.store, [.array 0 [.integer 1]], []⟩ _ :=
      .push List.mem_cons_self (ends_push 0 [.integer 1] (.integer 2) callLimit 0 session.store)
    have hrun := Relation.ReflTransGen.tail (.single hpush) (.bind List.mem_cons_self 0 "b")
    have hseen := arrays_persistent.2.2.1 _ _ _ 0 "a" 0 [.integer 1] hrun hbound (by decide)
    exact ⟨_, hrun, rfl, hseen.2⟩
  · exact (arrays_persistent.2.1 1 [.integer 1, .integer 2]).last (by decide)
  · refine arrays_persistent.2.2.2 callLimit [.program boxedOne] [.program pushedTwo] 0
      [.integer 1] items ?_ hitems
    exact ⟨_, .inr ⟨0, _, rfl, _, List.mem_cons_self, rfl⟩, .self _⟩

end MonkeyLang
