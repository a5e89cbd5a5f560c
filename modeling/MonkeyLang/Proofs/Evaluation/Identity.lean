import Mathlib.Data.List.Forall2
import MonkeyLang.Proofs.Evaluation.Snapshots

namespace MonkeyLang

open Eval

theorem Builtin.name_injective : Function.Injective Builtin.name := by
  intro f g h
  cases f <;> cases g <;> first | rfl | exact absurd h (by decide)

namespace Value

mutual

/-- The value without the identities of arrays and the contents of functions. -/
def content : Value → Value
  | array _ items => array 0 (contents items)
  | returned value => returned value.content
  | function identity _ => function identity ⟨[], .mk (Token.endAt 0) [], 0⟩
  | integer value => integer value
  | boolean value => boolean value
  | string text => string text
  | null => null
  | error e => error e
  | builtin f => builtin f

def contents : List Value → List Value
  | [] => []
  | value :: values => value.content :: contents values

end

mutual

theorem equal_iff : ∀ a b : Value, a.equal b = true ↔ a.content = b.content
  | array _ xs, b => by
    cases b with
    | array _ ys => simpa [equal, content] using equalItems_iff xs ys
    | _ => simp [equal, same, content]
  | returned a, b => by
    cases b with
    | returned b => simpa [equal, content] using equal_iff a b
    | _ => simp [equal, same, content]
  | builtin f, b => by
    cases b with
    | builtin g => simpa [equal, same, content] using Builtin.name_injective.eq_iff
    | _ => simp [equal, same, content]
  | integer _, b | boolean _, b | string _, b | null, b | error _, b | function _ _, b => by
    cases b <;> simp [equal, same, content]

theorem equalItems_iff : ∀ xs ys : List Value, equalItems xs ys = true ↔ contents xs = contents ys
  | [], [] => by simp [equalItems]
  | [], _ :: _ => by simp [equalItems, contents]
  | _ :: _, [] => by simp [equalItems, contents]
  | x :: xs, y :: ys => by simp [equalItems, contents, equal_iff x y, equalItems_iff xs ys]

end

/-- Arrays are compared item by item, and each with its own. -/
theorem equal_arrays {i j : Nat} {xs ys : List Value} :
    (array i xs).equal (array j ys) = true ↔
      List.Forall₂ (fun x y => x.equal y = true) xs ys := by
  rw [equal]
  induction xs generalizing ys with
  | nil => cases ys <;> simp [equalItems]
  | cons x xs ih =>
    cases ys with
    | nil => simp [equalItems]
    | cons y ys => rw [equalItems, Bool.and_eq_true, List.forall₂_cons, ih]

theorem tag_of_equal {a b : Value} (h : a.equal b = true) : a.tag = b.tag := by
  have htag : ∀ value : Value, value.content.tag = value.tag := by
    intro value
    cases value <;> rw [content] <;> rfl
  rw [← htag a, (equal_iff a b).mp h, htag b]

mutual

/-- Every array and every function in the value is the one that the ledger has for its identity, and
nothing in it is a `return` or a runtime error. -/
def Agrees (ledger : List Value) : Value → Prop
  | array identity items => ledger[identity]? = some (array identity items) ∧ AllAgree ledger items
  | function identity closure => ledger[identity]? = some (function identity closure)
  | returned _ | error _ => False
  | integer _ | boolean _ | string _ | null | builtin _ => True

def AllAgree (ledger : List Value) : List Value → Prop
  | [] => True
  | value :: values => value.Agrees ledger ∧ AllAgree ledger values

end

variable {ledger ledger' : List Value} {a b c : Value}

theorem allAgree_iff {values : List Value} :
    AllAgree ledger values ↔ ∀ value ∈ values, value.Agrees ledger := by
  induction values with
  | nil => simp [AllAgree]
  | cons value values ih => simp [AllAgree, ih]

theorem getElem?_of_le {n : Nat} (hl : ledger <+: ledger') (h : ledger[n]? = some a) :
    ledger'[n]? = some a := by
  obtain ⟨more, rfl⟩ := hl
  have hn := (List.getElem?_eq_some_iff.mp h).1
  rwa [List.getElem?_append_left hn]

mutual

theorem Agrees.mono (hl : ledger <+: ledger') : ∀ {value : Value}, value.Agrees ledger →
    value.Agrees ledger'
  | .array _ _, h => ⟨getElem?_of_le hl h.1, AllAgree.mono hl h.2⟩
  | .function _ _, h => getElem?_of_le hl h
  | .integer _, _ | .boolean _, _ | .string _, _ | .null, _ | .builtin _, _ => trivial

theorem AllAgree.mono (hl : ledger <+: ledger') : ∀ {values : List Value},
    AllAgree ledger values → AllAgree ledger' values
  | [], _ => trivial
  | _ :: _, h => ⟨Agrees.mono hl h.1, AllAgree.mono hl h.2⟩

end

theorem Agrees.inside (h : b.Agrees ledger) (hi : a.Inside b) : a.Agrees ledger := by
  induction hi with
  | self => exact h
  | item hm _ ih => exact ih (allAgree_iff.mp h.2 _ hm)
  | returned _ _ => exact h.elim

/-- One identity, one content. -/
theorem Agrees.eq_of_same (ha : a.Agrees ledger) (hb : b.Agrees ledger) (h : a.same b = true) :
    a = b := by
  cases a <;> cases b <;> simp only [same, Bool.false_eq_true, beq_iff_eq] at h
  · exact congrArg _ h
  · subst h
    exact Option.some.inj (ha.1.symm.trans hb.1)
  · rfl
  · subst h
    exact Option.some.inj (ha.symm.trans hb)
  · exact congrArg _ (Builtin.name_injective h)

/-- What the ledger does not have yet is the same as nothing that agrees with it. -/
theorem Agrees.not_same (hb : b.Agrees ledger) {identity : Nat} (hi : ledger.length ≤ identity) :
    (∀ items, (array identity items).same b = false) ∧
      ∀ closure, (function identity closure).same b = false := by
  have hnone : ∀ {c : Value}, ledger[identity]? ≠ some c := by
    simp [List.getElem?_eq_none hi]
  constructor
  · intro items
    cases b with
    | array other _ =>
      refine beq_false_of_ne ?_
      rintro rfl
      exact hnone hb.1
    | _ => rfl
  · intro closure
    cases b with
    | function other _ =>
      refine beq_false_of_ne ?_
      rintro rfl
      exact hnone hb
    | _ => rfl

end Value

/-- The ledger has what was made in the store, and what is bound there agrees with it. -/
structure Store.Knows (store : Store) (ledger : List Value) : Prop where
  created : ledger.length = store.created
  bound : ∀ (id : ScopeId) (found : Scope), store.scopes[id]? = some found →
    ∀ binding ∈ found.bindings, binding.2.Agrees ledger

namespace Store.Knows

variable {store : Store} {ledger : List Value} {value : Value}

theorem declare (h : store.Knows ledger) (scope : ScopeId) (name : String)
    (hv : value.Agrees ledger) : (store.declare scope name value).Knows ledger where
  created := h.created
  bound id found hf binding hm := by
    obtain ⟨before, hb, rfl | rfl⟩ := Store.of_declare hf
    · exact h.bound id _ hb binding hm
    · rcases Scope.mem_bind hm with rfl | hm
      · exact hv
      · exact h.bound id before hb binding hm

theorem newScope (h : store.Knows ledger) (parent : ScopeId) :
    (store.newScope parent).2.Knows ledger where
  created := h.created
  bound id found hf binding hm := by
    rcases Store.of_newScope hf with hf | rfl
    · exact h.bound id found hf binding hm
    · simp at hm

/-- Something is made, and entered in the ledger. -/
theorem made (h : store.Knows ledger) (value : Value) :
    ({ store with created := store.created + 1 } : Store).Knows (ledger ++ [value]) where
  created := by simp [h.created]
  bound id found hf binding hm := (h.bound id found hf binding hm).mono (List.prefix_append _ _)

theorem getElem?_made (h : store.Knows ledger) (value : Value) :
    (ledger ++ [value])[store.created]? = some value := by
  rw [← h.created, List.getElem?_concat_length]

end Store.Knows

/-- That every value agrees with one ledger, as an invariant of evaluation. -/
def Invariant.ledger : Invariant (List Value) where
  le := (· <+: ·)
  store ledger s := s.Knows ledger
  scope _ _ := True
  value ledger v := v.Agrees ledger
  refl := List.prefix_refl
  trans := List.IsPrefix.trans
  scope_mono _ h := h
  value_mono hl h := h.mono hl
  simple {_ v} h := by
    cases v with
    | array | returned | error | function => exact h.elim
    | _ => trivial
  item h := Value.allAgree_iff.mp h.2
  captured _ := trivial
  access h _ ha := by
    obtain ⟨id, -, found, hf, hb⟩ := Store.bound_of_access ha
    exact h.bound id found hf _ hb
  declare {_ _ scope _} name h _ hv := h.declare scope name hv
  newScope {_ _ parent} h _ := ⟨_, List.prefix_refl _, h.newScope parent, trivial⟩
  newArray {_ s items} h hv := by
    refine ⟨_, List.prefix_append _ _, h.made (.array s.created items), h.getElem?_made _, ?_⟩
    exact Value.allAgree_iff.mpr fun v hm => (hv v hm).mono (List.prefix_append _ _)
  newFunction {_ s closure} h _ :=
    ⟨_, List.prefix_append _ _, h.made (.function s.created closure), h.getElem?_made _⟩

/-- Equality of contents among the values that exist, which are the same only if they are equal. -/
structure Snapshot.Equates (snapshot : Snapshot) : Prop where
  tag : ∀ a b, snapshot.Has a → snapshot.Has b → a.equal b = true → a.tag = b.tag
  items : ∀ i j xs ys, snapshot.Has (.array i xs) → snapshot.Has (.array j ys) →
    ((Value.array i xs).equal (.array j ys) = true ↔
      List.Forall₂ (fun x y => x.equal y = true) xs ys)
  refl : ∀ a, snapshot.Has a → a.equal a = true
  symm : ∀ a b, snapshot.Has a → snapshot.Has b → a.equal b = true → b.equal a = true
  trans : ∀ a b c, snapshot.Has a → snapshot.Has b → snapshot.Has c → a.equal b = true →
    b.equal c = true → a.equal c = true
  same : ∀ a b, snapshot.Has a → snapshot.Has b → a.same b = true → a.equal b = true ∧ a = b

/-- The operators `==` and `!=` on the values that exist. -/
structure Snapshot.Compares (snapshot : Snapshot) : Prop where
  kinds : ∀ a, snapshot.Has a → a.tag ≠ .returned ∧ a.tag ≠ .error
  decides : ∀ a b, snapshot.Has a → snapshot.Has b → a.tag = b.tag → a.tag ≠ .string →
    ∃ answer, InfixOp.equal.apply a b = .ok (.boolean answer) ∧
      InfixOp.notEqual.apply a b = .ok (.boolean !answer)
  refl : ∀ a, snapshot.Has a → a.tag ≠ .string → InfixOp.equal.apply a a = .ok (.boolean true)
  symm : ∀ a b, snapshot.Has a → snapshot.Has b → a.tag = b.tag → a.tag ≠ .string →
    InfixOp.equal.apply a b = InfixOp.equal.apply b a
  trans : ∀ a b c, snapshot.Has a → snapshot.Has b → snapshot.Has c →
    InfixOp.equal.apply a b = .ok (.boolean true) → InfixOp.equal.apply b c = .ok (.boolean true) →
      InfixOp.equal.apply a c = .ok (.boolean true)
  contents : ∀ a b, snapshot.Has a → snapshot.Has b →
    InfixOp.equal.apply a b = .ok (.boolean true) → a.equal b = true
  mismatch : ∀ a b, snapshot.Has a → snapshot.Has b → a.tag ≠ b.tag →
    ∀ op ∈ [InfixOp.equal, .notEqual], op.apply a b = .error (.typeMismatch a.tag op b.tag)
  strings : ∀ a b, snapshot.Has a → snapshot.Has b → a.tag = .string → b.tag = .string →
    ∀ op ∈ [InfixOp.equal, .notEqual], op.apply a b = .error (.unknownInfix .string op .string)

namespace Value

variable {a b c : Value}

/-- What `==` says of two values of one type: integers are compared, other values are the same or
not. -/
def equals (a b : Value) : Bool :=
  match a, b with
  | integer a, integer b => a == b
  | a, b => a.same b

theorem apply_of_tag (ht : a.tag = b.tag) (hs : a.tag ≠ .string) :
    InfixOp.equal.apply a b = .ok (.boolean (a.equals b)) ∧
      InfixOp.notEqual.apply a b = .ok (.boolean !a.equals b) := by
  cases a with
  | string => exact absurd rfl hs
  | _ => cases b <;> first | exact ⟨rfl, rfl⟩ | cases ht

theorem apply_of_strings (ha : a.tag = .string) (hb : b.tag = .string) :
    ∀ op ∈ [InfixOp.equal, .notEqual],
      op.apply a b = .error (.unknownInfix .string op .string) := by
  cases a with
  | string =>
    cases b with
    | string => simp [InfixOp.apply, InfixOp.onOthers, tag]
    | _ => cases hb
  | _ => cases ha

theorem apply_of_tags (ht : a.tag ≠ b.tag) :
    ∀ op ∈ [InfixOp.equal, .notEqual], op.apply a b = .error (.typeMismatch a.tag op b.tag) := by
  cases a <;> cases b <;>
    first | exact absurd rfl ht | simp [InfixOp.apply, InfixOp.onOthers, tag]

/-- The operator says yes only of values of one type. -/
theorem tag_of_apply (h : InfixOp.equal.apply a b = .ok (.boolean true)) :
    a.tag = b.tag ∧ a.tag ≠ .string ∧ a.equals b = true := by
  by_cases ht : a.tag = b.tag
  · by_cases hs : a.tag = .string
    · rw [apply_of_strings hs (ht ▸ hs) _ (by simp)] at h
      cases h
    · rw [(apply_of_tag ht hs).1] at h
      exact ⟨ht, hs, by simpa using h⟩
  · rw [apply_of_tags ht _ (by simp)] at h
    cases h

/-- What `==` looks at: nothing behind an identity, and for some types nothing at all. -/
def shown : Value → Option Value
  | array identity _ => some (array identity [])
  | function identity _ => some (function identity ⟨[], .mk (Token.endAt 0) [], 0⟩)
  | integer value => some (integer value)
  | boolean value => some (boolean value)
  | null => some null
  | builtin f => some (builtin f)
  | string _ | returned _ | error _ => none

theorem equals_iff : a.equals b = true ↔ a.shown.isSome ∧ a.shown = b.shown := by
  cases a with
  | builtin f =>
    cases b with
    | builtin g => simpa [equals, same, shown] using Builtin.name_injective.eq_iff
    | _ => simp [equals, same, shown]
  | _ => cases b <;> simp [equals, same, shown]

theorem Agrees.ordinary {ledger : List Value} (h : a.Agrees ledger) :
    a.tag ≠ .returned ∧ a.tag ≠ .error := by
  cases a with
  | returned | error => exact h.elim
  | _ => exact ⟨nofun, nofun⟩

theorem Agrees.shown_isSome {ledger : List Value} (h : a.Agrees ledger) (hs : a.tag ≠ .string) :
    a.shown.isSome := by
  cases a with
  | string => exact absurd rfl hs
  | returned | error => exact h.elim
  | _ => rfl

theorem equal_of_equals (h : a.equals b = true) (hsame : a.same b = true → a.equal b = true) :
    a.equal b = true := by
  cases a with
  | integer => cases b <;> exact h
  | _ => exact hsame h

end Value

theorem Snapshot.Has.agrees {snapshot : Snapshot} {value : Value} (h : snapshot.Has value)
    {ledger : List Value} (hs : snapshot.store.Knows ledger)
    (hh : ∀ value ∈ snapshot.hand, value.Agrees ledger) : value.Agrees ledger := by
  obtain ⟨outer, hm | ⟨id, found, hf, binding, hb, rfl⟩, hv⟩ := h
  · exact (hh outer hm).inside hv
  · exact (hs.bound id found hf binding hb).inside hv

section
variable {snapshot : Snapshot} {ledger : List Value}

theorem Snapshot.equates (h : ∀ value, snapshot.Has value → value.Agrees ledger) :
    snapshot.Equates where
  tag _ _ _ _ := Value.tag_of_equal
  items _ _ _ _ _ _ := Value.equal_arrays
  refl a _ := (Value.equal_iff a a).mpr rfl
  symm a b _ _ hab := (Value.equal_iff b a).mpr ((Value.equal_iff a b).mp hab).symm
  trans a b c _ _ _ hab hbc :=
    (Value.equal_iff a c).mpr (((Value.equal_iff a b).mp hab).trans ((Value.equal_iff b c).mp hbc))
  same a b ha hb hab := by
    obtain rfl := (h a ha).eq_of_same (h b hb) hab
    exact ⟨(Value.equal_iff a a).mpr rfl, rfl⟩

theorem Snapshot.compares (h : ∀ value, snapshot.Has value → value.Agrees ledger) :
    snapshot.Compares where
  kinds a ha := (h a ha).ordinary
  decides a b _ _ ht hs := ⟨a.equals b, Value.apply_of_tag ht hs⟩
  refl a ha hs := by
    rw [(Value.apply_of_tag rfl hs).1, Value.equals_iff.mpr ⟨(h a ha).shown_isSome hs, rfl⟩]
  symm a b _ _ ht hs := by
    have hcomm : a.equals b = b.equals a := by
      rw [Bool.eq_iff_iff, Value.equals_iff, Value.equals_iff]
      exact ⟨fun hab => ⟨hab.2 ▸ hab.1, hab.2.symm⟩, fun hba => ⟨hba.2 ▸ hba.1, hba.2.symm⟩⟩
    rw [(Value.apply_of_tag ht hs).1, (Value.apply_of_tag ht.symm (ht ▸ hs)).1, hcomm]
  trans a b c _ _ _ hab hbc := by
    obtain ⟨ht, hs, heq⟩ := Value.tag_of_apply hab
    obtain ⟨ht', -, heq'⟩ := Value.tag_of_apply hbc
    obtain ⟨hsome, hface⟩ := Value.equals_iff.mp heq
    have hface' := (Value.equals_iff.mp heq').2
    rw [(Value.apply_of_tag (ht.trans ht') hs).1,
      Value.equals_iff.mpr ⟨hsome, hface.trans hface'⟩]
  contents a b ha hb hab := by
    obtain ⟨-, -, heq⟩ := Value.tag_of_apply hab
    exact Value.equal_of_equals heq fun hsame => ((equates h).same a b ha hb hsame).1
  mismatch a b _ _ ht := Value.apply_of_tags ht
  strings a b _ _ ha hb := Value.apply_of_strings ha hb

end

end MonkeyLang
