import Mathlib.Order.Monotone.Basic
import MonkeyLang.Eval.Run
import MonkeyLang.Proofs.Parsing.MapTokens
import MonkeyLang.Value.Inspect

namespace MonkeyLang

/-- Other identities and scopes, one for each, and other tokens; scopes stay in order. They are only
of use as long as no more identities and scopes are made than these. -/
structure Renaming where
  token : Token → Token
  identity : Nat → Nat
  scope : ScopeId → ScopeId
  identities : Nat
  scopes : Nat
  identity_injective : Function.Injective identity
  scope_strictMono : StrictMono scope

variable (r : Renaming)

theorem Renaming.scope_injective : Function.Injective r.scope := r.scope_strictMono.injective

def Closure.renamed (closure : Closure) : Closure :=
  ⟨closure.parameters.map (Identifier.mapToken r.token), closure.body.mapTokens r.token,
    r.scope closure.scope⟩

namespace Value

mutual

def renamed : Value → Value
  | .integer value => .integer value
  | .boolean value => .boolean value
  | .string text => .string text
  | .array identity items => .array (r.identity identity) (allRenamed items)
  | .null => .null
  | .returned value => .returned value.renamed
  | .error reason => .error reason
  | .function identity closure => .function (r.identity identity) (closure.renamed r)
  | .builtin named => .builtin named

def allRenamed : List Value → List Value
  | [] => []
  | value :: values => value.renamed :: allRenamed values

end

theorem allRenamed_eq_map (values : List Value) : allRenamed r values = values.map (renamed r) := by
  induction values with
  | nil => rw [allRenamed, List.map_nil]
  | cons value values ih => rw [allRenamed, List.map_cons, ih]

theorem tag_renamed (value : Value) : (value.renamed r).tag = value.tag := by
  cases value <;> simp [renamed, tag]

theorem isTruthy_renamed (value : Value) : (value.renamed r).isTruthy = value.isTruthy := by
  cases value <;> simp [renamed, isTruthy]

/-- Identities are not confused. -/
theorem same_renamed (a b : Value) : (a.renamed r).same (b.renamed r) = a.same b := by
  have hidentity : ∀ i j, (r.identity i == r.identity j) = (i == j) := by
    intro i j
    rw [Bool.eq_iff_iff, beq_iff_eq, beq_iff_eq, r.identity_injective.eq_iff]
  cases a <;> cases b <;> simp [renamed, same, hidentity]

mutual

theorem inspect_renamed : ∀ value : Value, (value.renamed r).inspect = value.inspect
  | .integer _ => by rw [renamed]
  | .boolean _ => by rw [renamed]
  | .string _ => by rw [renamed]
  | .array _ items => by
    rw [renamed, inspect_array, inspect_array, inspectAll_renamed items]
  | .null => by rw [renamed]
  | .returned value => by
    rw [renamed, inspect_returned, inspect_returned, inspect_renamed value]
  | .error _ => by rw [renamed]
  | .function _ closure => by
    have hbody := closure.body.text_mapTokens r.token
    have hparameters := parameterText_mapToken r.token closure.parameters
    rw [renamed, inspect_function, inspect_function, Closure.text, Closure.text, Closure.renamed,
      hbody, hparameters]
  | .builtin _ => by rw [renamed]

theorem inspectAll_renamed : ∀ values : List Value,
    inspectAll (allRenamed r values) = inspectAll values
  | [] => by rw [allRenamed]
  | value :: values => by
    rw [allRenamed, inspectAll_cons, inspectAll_cons, inspect_renamed value,
      inspectAll_renamed values]

end

/-- A program cannot print one apart from the other: the values have the same type and text, and an
error is the same error. -/
structure Alike (a b : Value) : Prop where
  tag : a.tag = b.tag
  inspect : a.inspect = b.inspect
  error : ∀ reason, a = .error reason ↔ b = .error reason

theorem renamed_eq_error (value : Value) (reason : RuntimeError) :
    value.renamed r = .error reason ↔ value = .error reason := by
  cases value <;> simp [renamed]

theorem alike_renamed (value : Value) : value.Alike (value.renamed r) where
  tag := (tag_renamed r value).symm
  inspect := (inspect_renamed r value).symm
  error := fun reason => (renamed_eq_error r value reason).symm

theorem alike_of_renamed {r r' : Renaming} {a b : Value} (h : a.renamed r = b.renamed r') :
    a.Alike b where
  tag := by rw [← tag_renamed r a, h, tag_renamed]
  inspect := by rw [← inspect_renamed r a, h, inspect_renamed]
  error := fun reason => by rw [← renamed_eq_error r a, h, renamed_eq_error]

theorem eq_string {value : Value} (h : value.tag = .string) : ∃ text, value = .string text := by
  cases value <;> cases h
  exact ⟨_, rfl⟩

theorem eq_integer {value : Value} (h : value.tag = .integer) : ∃ a, value = .integer a := by
  cases value <;> cases h
  exact ⟨_, rfl⟩

theorem eq_array {value : Value} (h : value.tag = .array) :
    ∃ identity items, value = .array identity items := by
  cases value <;> cases h
  exact ⟨_, _, rfl⟩

theorem getD_renamed (item : Option Value) :
    (item.map (renamed r)).getD .null = (item.getD .null).renamed r := by
  cases item <;> simp [renamed]

theorem atIndex_of_tags {left position : Value}
    (h : ¬(left.tag = .array ∧ position.tag = .integer)) :
    left.atIndex position = .error (.unknownIndex left.tag position.tag) := by
  unfold atIndex
  split
  · exact absurd ⟨rfl, rfl⟩ h
  · rfl

theorem atIndex_renamed (left position : Value) :
    (left.renamed r).atIndex (position.renamed r) =
      (left.atIndex position).map (renamed r) := by
  by_cases h : left.tag = .array ∧ position.tag = .integer
  · obtain ⟨identity, items, rfl⟩ := eq_array h.1
    obtain ⟨i, rfl⟩ := eq_integer h.2
    simp only [renamed, allRenamed_eq_map, atIndex, Except.map]
    split
    · rw [renamed]
    · rw [List.getD_eq_getElem?_getD, List.getD_eq_getElem?_getD, List.getElem?_map, getD_renamed]
  · have h' : ¬((left.renamed r).tag = .array ∧ (position.renamed r).tag = .integer) := by
      rwa [tag_renamed, tag_renamed]
    rw [atIndex_of_tags h, atIndex_of_tags h', tag_renamed, tag_renamed]
    rfl

end Value

theorem PrefixOp.apply_renamed (op : PrefixOp) (right : Value) :
    op.apply (right.renamed r) = (op.apply right).map (Value.renamed r) := by
  cases op with
  | not => simp [PrefixOp.apply, Except.map, Value.isTruthy_renamed, Value.renamed]
  | negate => cases right <;> simp [PrefixOp.apply, Except.map, Value.renamed, Value.tag]

namespace InfixOp

theorem onIntegers_renamed (op : InfixOp) (a b : Int64) :
    (op.onIntegers a b).map (Value.renamed r) = op.onIntegers a b := by
  cases op with
  | divide =>
    rw [onIntegers]
    split <;> simp [Except.map, Value.renamed]
  | _ => simp [onIntegers, Except.map, Value.renamed]

/-- All that happens to two values but the joining of strings shows in their types and in whether
they are the same. -/
theorem onOthers_of_tags {op : InfixOp} {left right : Value} :
    ¬(op = .add ∧ left.tag = .string ∧ right.tag = .string) → op.onOthers left right =
      if left.tag ≠ right.tag then .error (.typeMismatch left.tag op right.tag)
      else if left.tag = .string then .error (.unknownInfix left.tag op right.tag)
      else match op with
        | .equal => .ok (.boolean (left.same right))
        | .notEqual => .ok (.boolean (!left.same right))
        | op => .error (.unknownInfix left.tag op right.tag) := by
  intro h
  unfold onOthers
  split
  · exact absurd ⟨rfl, rfl, rfl⟩ h
  · rfl

theorem onOthers_renamed (op : InfixOp) (left right : Value) :
    op.onOthers (left.renamed r) (right.renamed r) =
      (op.onOthers left right).map (Value.renamed r) := by
  by_cases h : op = .add ∧ left.tag = .string ∧ right.tag = .string
  · obtain ⟨rfl, hl, hr⟩ := h
    obtain ⟨a, rfl⟩ := Value.eq_string hl
    obtain ⟨b, rfl⟩ := Value.eq_string hr
    simp [Value.renamed, onOthers, Except.map]
  · have h' : ¬(op = .add ∧ (left.renamed r).tag = .string ∧
        (right.renamed r).tag = .string) := by
      rwa [Value.tag_renamed, Value.tag_renamed]
    rw [onOthers_of_tags h, onOthers_of_tags h', Value.tag_renamed, Value.tag_renamed,
      Value.same_renamed]
    split
    · rfl
    · split
      · rfl
      · cases op <;> simp [Except.map, Value.renamed]

theorem apply_of_tags {op : InfixOp} {left right : Value} (ho : op ≠ .and ∧ op ≠ .or)
    (h : ¬(left.tag = .integer ∧ right.tag = .integer)) :
    op.apply left right = op.onOthers left right := by
  unfold apply
  split
  · exact absurd rfl ho.1
  · exact absurd rfl ho.2
  · split
    · exact absurd ⟨rfl, rfl⟩ h
    · rfl

theorem apply_renamed (op : InfixOp) (left right : Value) :
    op.apply (left.renamed r) (right.renamed r) = (op.apply left right).map (Value.renamed r) := by
  by_cases ho : op ≠ .and ∧ op ≠ .or
  · by_cases h : left.tag = .integer ∧ right.tag = .integer
    · obtain ⟨a, rfl⟩ := Value.eq_integer h.1
      obtain ⟨b, rfl⟩ := Value.eq_integer h.2
      have hintegers : op.apply (.integer a) (.integer b) = op.onIntegers a b := by
        cases op with
        | and => exact absurd rfl ho.1
        | or => exact absurd rfl ho.2
        | _ => rfl
      rw [Value.renamed, Value.renamed, hintegers, onIntegers_renamed]
    · have h' : ¬((left.renamed r).tag = .integer ∧ (right.renamed r).tag = .integer) := by
        rwa [Value.tag_renamed, Value.tag_renamed]
      rw [apply_of_tags ho h, apply_of_tags ho h', onOthers_renamed]
  · have hlogic : op = .and ∨ op = .or := Decidable.or_iff_not_not_and_not.mpr ho
    rcases hlogic with rfl | rfl <;>
      simp [apply, Except.map, Value.isTruthy_renamed, Value.renamed]

end InfixOp

namespace Builtin

theorem oneArgument_renamed {g : Value → Except RuntimeError Value}
    (hg : ∀ value, g (value.renamed r) = (g value).map (Value.renamed r))
    (arguments : List Value) : (oneArgument (arguments.map (Value.renamed r)) >>= g) =
      (oneArgument arguments >>= g).map (Value.renamed r) := by
  match arguments with
  | [] => rfl
  | [argument] => exact hg argument
  | _ :: _ :: _ => simp [oneArgument, bind, Except.bind, Except.map]

theorem ofByteIn_renamed (text : Option Char) :
    ((text.map ofByteIn).getD .null).renamed r = (text.map ofByteIn).getD .null := by
  cases text <;> simp [ofByteIn, Value.renamed]

theorem length_renamed (value : Value) :
    length (value.renamed r) = (length value).map (Value.renamed r) := by
  cases value <;>
    simp [Value.renamed, Value.allRenamed_eq_map, length, Except.map, Value.tag]

theorem firstOf_renamed (value : Value) :
    firstOf (value.renamed r) = (firstOf value).map (Value.renamed r) := by
  cases value with
  | string text => simp [Value.renamed, firstOf, Except.map, ofByteIn_renamed]
  | array identity items =>
    simp [Value.renamed, Value.allRenamed_eq_map, firstOf, Except.map, Value.getD_renamed]
  | _ => simp [Value.renamed, firstOf, Except.map, Value.tag]

theorem lastOf_renamed (value : Value) :
    lastOf (value.renamed r) = (lastOf value).map (Value.renamed r) := by
  cases value with
  | string text => simp [Value.renamed, lastOf, Except.map, ofByteIn_renamed]
  | array identity items =>
    simp [Value.renamed, Value.allRenamed_eq_map, lastOf, Except.map, Value.getD_renamed]
  | _ => simp [Value.renamed, lastOf, Except.map, Value.tag]

theorem pushed_renamed (arguments : List Value) :
    pushed (arguments.map (Value.renamed r)) =
      (pushed arguments).map (List.map (Value.renamed r)) := by
  match arguments with
  | [] => rfl
  | [_] => simp [pushed, Except.map]
  | [before, value] =>
    cases before <;>
      simp [Value.renamed, Value.allRenamed_eq_map, pushed, Except.map, Value.tag]
  | _ :: _ :: _ :: _ => simp [pushed, Except.map]

end Builtin

def Scope.renamed (scope : Scope) : Scope :=
  ⟨scope.bindings.map fun binding => (binding.1, binding.2.renamed r), scope.parent.map r.scope⟩

def Exit.renamed : Exit → Exit
  | .returned value => .returned (value.renamed r)
  | .failed error => .failed error
  | .tooDeep => .tooDeep

def Answer.renamed : Answer → Answer
  | .value answered => .value (answered.renamed r)
  | .none => .none
  | .tooDeep => .tooDeep

namespace Scope

theorem find_renamed (scope : Scope) (name : String) :
    (scope.renamed r).find? name = (scope.find? name).map (Value.renamed r) := by
  have hlookup : ∀ bindings : List (String × Value),
      (bindings.map fun binding => (binding.1, binding.2.renamed r)).lookup name =
        (bindings.lookup name).map (Value.renamed r) := by
    intro bindings
    induction bindings with
    | nil => rfl
    | cons binding bindings ih =>
      obtain ⟨key, value⟩ := binding
      rw [List.map_cons, List.lookup_cons, List.lookup_cons, ih]
      cases name == key <;> rfl
  exact hlookup scope.bindings

theorem bind_renamed (scope : Scope) (name : String) (value : Value) :
    (scope.renamed r).bind name (value.renamed r) = (scope.bind name value).renamed r := by
  simp only [Scope.bind, Scope.renamed, List.filter_map, List.map_cons]
  rfl

end Scope

/-- The image has every scope of the store, renamed, and goes on numbering identities and scopes as
the store does. It may have scopes of its own besides. -/
structure Store.Mirrored (store image : Store) : Prop where
  identities : ∀ k, store.created + k < r.identities →
    r.identity (store.created + k) = image.created + k
  scopes : ∀ k, store.scopes.size + k < r.scopes →
    r.scope (store.scopes.size + k) = image.scopes.size + k
  found : ∀ id, image.scopes[r.scope id]? = store.scopes[id]?.map (Scope.renamed r)

namespace Store.Mirrored

variable {r} {store image : Store}

theorem chain (h : store.Mirrored r image) (scope : ScopeId) :
    image.chain (r.scope scope) = (store.chain scope).map r.scope := by
  induction scope using Nat.strongRecOn with
  | ind scope ih =>
    have hfound := h.found scope
    cases hf : store.scopes[scope]? with
    | none =>
      rw [hf] at hfound
      rw [Store.chain, Store.chain, hf, hfound]
      rfl
    | some found =>
      rw [hf] at hfound
      rw [Store.chain_eq hf, Store.chain_eq hfound, Scope.renamed, List.map_cons]
      cases found.parent with
      | none => rfl
      | some parent =>
        simp only [Option.map_some, Option.elim, r.scope_strictMono.lt_iff_lt]
        split
        · next hlt => rw [ih parent hlt]
        · rfl

theorem access (h : store.Mirrored r image) (scope : ScopeId) (name : String) :
    image.access (r.scope scope) name = (store.access scope name).map (Value.renamed r) := by
  unfold Store.access
  rw [h.chain]
  induction store.chain scope with
  | nil => rfl
  | cons id ids ih =>
    have hid : (image.scopes[r.scope id]?.bind fun found => found.find? name) =
        (store.scopes[id]?.bind fun found => found.find? name).map (Value.renamed r) := by
      rw [h.found]
      cases store.scopes[id]? with
      | none => rfl
      | some found => exact Scope.find_renamed r found name
    simp only [List.map_cons, List.findSome?_cons, hid, ih]
    cases store.scopes[id]?.bind fun found => found.find? name <;> rfl

/-- The next identity is not used up. -/
theorem create (h : store.Mirrored r image) (hc : store.created < r.identities) :
    r.identity store.created = image.created ∧
      Mirrored r { store with created := store.created + 1 }
        { image with created := image.created + 1 } := by
  refine ⟨h.identities 0 hc, ⟨fun k hk => ?_, h.scopes, h.found⟩⟩
  have hnext := h.identities (k + 1) (by simp only at hk; omega)
  have hsum : store.created + (k + 1) = store.created + 1 + k := by omega
  rw [hsum] at hnext
  simp only [hnext]
  omega

theorem declare (h : store.Mirrored r image) (scope : ScopeId) (name : String) (value : Value) :
    (store.declare scope name value).Mirrored r
      (image.declare (r.scope scope) name (value.renamed r)) := by
  refine ⟨h.identities, ?_, fun id => ?_⟩
  · simpa [Store.declare] using h.scopes
  · simp only [Store.declare, Array.getElem?_modify, h.found, r.scope_injective.eq_iff]
    split
    · cases store.scopes[id]? with
      | none => rfl
      | some found => exact congrArg some (Scope.bind_renamed r found name value)
    · rfl

/-- A new scope is the image of a new scope. -/
theorem newScope (h : store.Mirrored r image) (parent : ScopeId)
    (hs : store.scopes.size < r.scopes) :
    r.scope (store.newScope parent).1 = (image.newScope (r.scope parent)).1 ∧
      (store.newScope parent).2.Mirrored r (image.newScope (r.scope parent)).2 := by
  have hnew : r.scope store.scopes.size = image.scopes.size := h.scopes 0 hs
  refine ⟨hnew, ⟨h.identities, fun k hk => ?_, fun id => ?_⟩⟩
  · simp only [Store.newScope, Array.size_push] at hk ⊢
    have hnext := h.scopes (k + 1) (by omega)
    have hsum : store.scopes.size + (k + 1) = store.scopes.size + 1 + k := by omega
    rw [hsum] at hnext
    rw [hnext, Nat.add_comm k 1, Nat.add_assoc]
  · simp only [Store.newScope, Array.getElem?_push, ← hnew, r.scope_injective.eq_iff]
    split
    · rfl
    · exact h.found id

end Store.Mirrored

end MonkeyLang
