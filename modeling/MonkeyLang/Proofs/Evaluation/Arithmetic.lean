import Mathlib.Data.Int.ModEq
import MonkeyLang.Proofs.Evaluation.EarlyExit

namespace MonkeyLang

open Eval

/-- The integer of 64 bits that is congruent modulo 2^64. -/
def Reduces (z w : Int) : Prop := -2 ^ 63 ≤ w ∧ w < 2 ^ 63 ∧ w ≡ z [ZMOD 2 ^ 64]

def reduced (z : Int) : Int := z.bmod (2 ^ 64)

theorem toInt_ofInt (z : Int) : (Int64.ofInt z).toInt = reduced z := Int64.toInt_ofInt

theorem reduces_reduced (z : Int) : Reduces z (reduced z) := by
  have hlo := (Int64.ofInt z).le_toInt
  have hhi := (Int64.ofInt z).toInt_lt
  rw [toInt_ofInt] at hlo hhi
  exact ⟨hlo, hhi, Int.bmod_emod⟩

/-- There is no other. -/
theorem Reduces.eq_reduced {z w : Int} (h : Reduces z w) : w = reduced z := by
  obtain ⟨hlo, hhi, hw⟩ := h
  obtain ⟨hlo', hhi', hz⟩ := reduces_reduced z
  have hcongruent : w % 2 ^ 64 = reduced z % 2 ^ 64 := hw.trans hz.symm
  omega

namespace InfixOp

/-- The operators whose exact result needs no reduced operands. -/
def exactOperators : List InfixOp := [.add, .subtract, .multiply]

def arithmeticOperators : List InfixOp := .divide :: exactOperators

/-- The quotient toward zero. The one that is out of range wraps. -/
def quotient (x y : Int) : Int := if x = -2 ^ 63 ∧ y = -1 then -2 ^ 63 else x.tdiv y

/-- What an operator makes of two exact integers. Only a division reduces them first, and by zero
there is none. -/
def exactly? (op : InfixOp) (x y : Int) : Option Int :=
  match op with
  | .add => some (x + y)
  | .subtract => some (x - y)
  | .multiply => some (x * y)
  | .divide => if reduced y = 0 then none else some (quotient (reduced x) (reduced y))
  | _ => none

end InfixOp

namespace Expr

/-- A tree of integer literals with the prefix `-` and these infix operators. -/
inductive BuiltFrom (ops : List InfixOp) : Expr → Prop where
  | literal {token : Token} {value : Int64} : BuiltFrom ops (.integer token value)
  | negation {token : Token} {right : Expr} (hr : BuiltFrom ops right) :
    BuiltFrom ops (.unary token .negate right)
  | operation {token : Token} {left right : Expr} {op : InfixOp} (ho : op ∈ ops)
    (hl : BuiltFrom ops left) (hr : BuiltFrom ops right) :
    BuiltFrom ops (.binary token left op right)

/-- The exact integer of a tree, to which every division contributes the quotient of the values of
its operands. There is none if something is divided by zero. -/
def exactInteger? : Expr → Option Int
  | .integer _ value => some value.toInt
  | .unary _ .negate right => right.exactInteger?.map fun x => -x
  | .binary _ left op right =>
    left.exactInteger?.bind fun x => right.exactInteger?.bind fun y => op.exactly? x y
  | _ => none

/-- The value of a tree: its exact integer, reduced once. -/
def value? (e : Expr) : Option Int := e.exactInteger?.map reduced

/-- The dividends and divisors of all divisions in the tree, in the order in which these are carried
out: the operands first, from left to right. -/
def divisions : Expr → List (Expr × Expr)
  | .unary _ _ right => right.divisions
  | .binary _ left op right =>
    left.divisions ++ right.divisions ++ if op = .divide then [(left, right)] else []
  | _ => []

/-- The first division whose divisor has the value zero. -/
def firstByZero? (e : Expr) : Option (Expr × Expr) :=
  e.divisions.find? fun division => division.2.value? == some 0

/-- Wherever the expression is evaluated, by itself or as a program, it comes to this answer and
changes nothing. -/
def Answers (e : Expr) (answer : Answer) : Prop :=
  ∀ limit scope store, e.run limit scope store = (answer, store) ∧
    ∀ token, Program.run limit [.expression token e] scope store = (answer, store)

end Expr

namespace InfixOp

theorem reduced_eq_zero_iff (z : Int) : reduced z = 0 ↔ Int64.ofInt z = 0 := by
  rw [← toInt_ofInt, ← Int64.toInt_zero, Int64.toInt_inj]

/-- Division of words is that of integers, but for the one quotient that is out of range, which
wraps to the least integer. -/
theorem toInt_quotient (x y : Int) :
    (Int64.ofInt x / Int64.ofInt y).toInt = quotient (reduced x) (reduced y) := by
  by_cases hx : reduced x = -2 ^ 63
  · by_cases hy : reduced y = -1
    · have hleast : Int64.ofInt x = Int64.minValue := by
        rw [← Int64.toInt_inj, toInt_ofInt, hx, Int64.toInt_minValue]
      have hminus : Int64.ofInt y = -1 := by
        rw [← Int64.toInt_inj, toInt_ofInt, hy]
        rfl
      rw [hleast, hminus, quotient, if_pos ⟨hx, hy⟩]
      decide
    · have hminus : Int64.ofInt y ≠ -1 := by
        rintro h
        rw [← toInt_ofInt, h] at hy
        exact hy rfl
      rw [Int64.toInt_div_of_ne_right _ _ hminus, toInt_ofInt, toInt_ofInt, quotient,
        if_neg fun h => hy h.2]
  · have hleast : Int64.ofInt x ≠ Int64.minValue := by
      rintro h
      rw [← toInt_ofInt, h, Int64.toInt_minValue] at hx
      exact hx rfl
    rw [Int64.toInt_div_of_ne_left _ _ hleast, toInt_ofInt, toInt_ofInt, quotient,
      if_neg fun h => hx h.1]

theorem ofInt_quotient (x y : Int) :
    Int64.ofInt (quotient (reduced x) (reduced y)) = Int64.ofInt x / Int64.ofInt y := by
  rw [← toInt_quotient, Int64.ofInt_toInt]

/-- Taking integers to their words respects the operators. -/
theorem onIntegers_ofInt {op : InfixOp} (ho : op ∈ arithmeticOperators) {x y z : Int}
    (h : op.exactly? x y = some z) :
    onIntegers (Int64.ofInt x) (Int64.ofInt y) op = .ok (.integer (Int64.ofInt z)) := by
  simp only [arithmeticOperators, exactOperators, List.mem_cons, List.not_mem_nil, or_false] at ho
  rcases ho with rfl | rfl | rfl | rfl
  · rw [exactly?, Option.ite_none_left_eq_some, reduced_eq_zero_iff, Option.some.injEq] at h
    rw [onIntegers, if_neg h.1, ← ofInt_quotient, h.2]
  · obtain rfl : x + y = z := Option.some.inj h
    rw [onIntegers, Int64.ofInt_add]
  · obtain rfl : x - y = z := Option.some.inj h
    rw [onIntegers, Int64.ofInt_sub]
  · obtain rfl : x * y = z := Option.some.inj h
    rw [onIntegers, Int64.ofInt_mul]

/-- Only a division by zero has no result. -/
theorem onIntegers_byZero {op : InfixOp} (ho : op ∈ arithmeticOperators) {x y : Int}
    (h : op.exactly? x y = none) : op = .divide ∧ reduced y = 0 ∧
      onIntegers (Int64.ofInt x) (Int64.ofInt y) op = .error (.divisionByZero (Int64.ofInt x)) := by
  simp only [arithmeticOperators, exactOperators, List.mem_cons, List.not_mem_nil, or_false] at ho
  rcases ho with rfl | rfl | rfl | rfl
  · have hy : reduced y = 0 := by simpa [exactly?] using h
    refine ⟨rfl, hy, ?_⟩
    rw [onIntegers, if_pos ((reduced_eq_zero_iff y).mp hy)]
  all_goals cases h

theorem apply_integers {op : InfixOp} (ho : op ∈ arithmeticOperators) (a b : Int64) :
    op.apply (.integer a) (.integer b) = onIntegers a b op := by
  simp only [arithmeticOperators, exactOperators, List.mem_cons, List.not_mem_nil, or_false] at ho
  rcases ho with rfl | rfl | rfl | rfl <;> rfl

end InfixOp

namespace Expr

variable {e : Expr} {ops : List InfixOp} {z : Int}

theorem BuiltFrom.mono {ops' : List InfixOp} (h : e.BuiltFrom ops) (hops : ops ⊆ ops') :
    e.BuiltFrom ops' := by
  induction h with
  | literal => exact .literal
  | negation _ ih => exact .negation ih
  | operation ho _ _ ihl ihr => exact .operation (hops ho) ihl ihr

/-- Without divisions every tree has its exact integer. -/
theorem BuiltFrom.exactInteger (h : e.BuiltFrom InfixOp.exactOperators) :
    ∃ z, e.exactInteger? = some z := by
  induction h with
  | @literal token value => exact ⟨value.toInt, by rw [exactInteger?]⟩
  | negation _ ih =>
    obtain ⟨x, hx⟩ := ih
    exact ⟨-x, by rw [exactInteger?, hx, Option.map_some]⟩
  | @operation token left right op ho _ _ ihl ihr =>
    obtain ⟨x, hx⟩ := ihl
    obtain ⟨y, hy⟩ := ihr
    have hop : ∃ z, op.exactly? x y = some z := by
      simp only [InfixOp.exactOperators, List.mem_cons, List.not_mem_nil, or_false] at ho
      rcases ho with rfl | rfl | rfl <;> exact ⟨_, rfl⟩
    obtain ⟨z, hz⟩ := hop
    exact ⟨z, by rw [exactInteger?, hx, hy, Option.bind_some, Option.bind_some, hz]⟩

/-- A tree that has its exact integer comes to the word of it. -/
theorem evaluate_exactInteger (h : e.BuiltFrom InfixOp.arithmeticOperators)
    (hz : e.exactInteger? = some z) (call : Call) (scope : ScopeId) (store : Store) :
    EStateM.run (evaluate call scope e) store = .ok (.integer (Int64.ofInt z)) store := by
  induction h generalizing z with
  | @literal token value =>
    rw [exactInteger?, Option.some.injEq] at hz
    rw [evaluate, ← hz, Int64.ofInt_toInt]
    rfl
  | negation _ ih =>
    rw [exactInteger?, Option.map_eq_some_iff] at hz
    obtain ⟨x, hx, rfl⟩ := hz
    rw [evaluate, run_bind_of_ok (ih hx), Int64.ofInt_neg]
    rfl
  | operation ho _ _ ihl ihr =>
    simp only [exactInteger?, Option.bind_eq_some_iff] at hz
    obtain ⟨x, hx, y, hy, hop⟩ := hz
    rw [evaluate, run_bind_of_ok (ihl hx), run_bind_of_ok (ihr hy), InfixOp.apply_integers ho,
      InfixOp.onIntegers_ofInt ho hop]
    rfl

/-- Then nothing in it is divided by zero. -/
theorem firstByZero_of_exactInteger (hz : e.exactInteger? = some z)
    (h : e.BuiltFrom InfixOp.arithmeticOperators) : e.firstByZero? = none := by
  induction h generalizing z with
  | literal => rfl
  | negation _ ih =>
    rw [exactInteger?, Option.map_eq_some_iff] at hz
    obtain ⟨x, hx, rfl⟩ := hz
    exact ih hx
  | @operation token left right op ho _ _ ihl ihr =>
    simp only [exactInteger?, Option.bind_eq_some_iff] at hz
    obtain ⟨x, hx, y, hy, hop⟩ := hz
    have hleft := ihl hx
    have hright := ihr hy
    rw [firstByZero?] at hleft hright ⊢
    rw [divisions, List.find?_append, List.find?_append, hleft, hright, Option.none_or,
      Option.none_or]
    split
    · next hd =>
      subst hd
      rw [InfixOp.exactly?, Option.ite_none_left_eq_some] at hop
      simp [value?, hy, hop.1]
    · rfl

/-- A tree without an exact integer stops at its first division by zero. -/
theorem evaluate_byZero (h : e.BuiltFrom InfixOp.arithmeticOperators)
    (hz : e.exactInteger? = none) (call : Call) (scope : ScopeId) (store : Store) :
    ∃ division x, e.firstByZero? = some division ∧ division.1.exactInteger? = some x ∧
      EStateM.run (evaluate call scope e) store =
        .error (.failed (.divisionByZero (Int64.ofInt x))) store := by
  induction h with
  | literal =>
    rw [exactInteger?] at hz
    cases hz
  | negation _ ih =>
    rw [exactInteger?, Option.map_eq_none_iff] at hz
    obtain ⟨division, x, hfirst, hx, hrun⟩ := ih hz
    refine ⟨division, x, hfirst, hx, ?_⟩
    rw [evaluate]
    exact run_bind_of_exit hrun
  | @operation token left right op ho hl hr ihl ihr =>
    rw [firstByZero?, divisions, List.find?_append, List.find?_append, ← firstByZero?,
      ← firstByZero?]
    cases hx : left.exactInteger? with
    | none =>
      obtain ⟨division, x, hfirst, hdividend, hrun⟩ := ihl hx
      refine ⟨division, x, by rw [hfirst, Option.some_or, Option.some_or], hdividend, ?_⟩
      rw [evaluate]
      exact run_bind_of_exit hrun
    | some x =>
      rw [firstByZero_of_exactInteger hx hl, Option.none_or]
      have hleft := evaluate_exactInteger hl hx call scope store
      cases hy : right.exactInteger? with
      | none =>
        obtain ⟨division, x, hfirst, hdividend, hrun⟩ := ihr hy
        refine ⟨division, x, by rw [hfirst, Option.some_or], hdividend, ?_⟩
        rw [evaluate, run_bind_of_ok hleft]
        exact run_bind_of_exit hrun
      | some y =>
        rw [firstByZero_of_exactInteger hy hr, Option.none_or]
        have hright := evaluate_exactInteger hr hy call scope store
        rw [exactInteger?, hx, hy, Option.bind_some, Option.bind_some] at hz
        obtain ⟨rfl, hzero, hop⟩ := InfixOp.onIntegers_byZero ho hz
        refine ⟨(left, right), x, by simp [value?, hy, hzero], hx, ?_⟩
        rw [evaluate, run_bind_of_ok hleft, run_bind_of_ok hright, InfixOp.apply_integers ho, hop]
        rfl

theorem answers_of_ok {v : Value}
    (h : ∀ limit scope store, EStateM.run (evaluate (invoke limit) scope e) store = .ok v store) :
    e.Answers (.value v) := by
  intro limit scope store
  have hrun := h limit scope store
  unfold EStateM.run at hrun
  refine ⟨by rw [Expr.run, answer, hrun], fun token => ?_⟩
  have hprogram : runProgram (invoke limit) scope [.expression token e] store =
      .ok (some v) store := by
    have hstatement : EStateM.run (Eval.run (invoke limit) scope (.expression token e)) store =
        .ok v store := by
      rw [Eval.run]
      exact h limit scope store
    rw [runProgram]
    exact run_bind_of_ok hstatement
  rw [Program.run, hprogram]

theorem answers_of_failed {error : RuntimeError} (h : ∀ limit scope store,
    EStateM.run (evaluate (invoke limit) scope e) store = .error (.failed error) store) :
    e.Answers (.value (.error error)) := by
  intro limit scope store
  have hrun := h limit scope store
  refine ⟨answer_of_failed hrun, fun token => ?_⟩
  have hprogram : EStateM.run (runProgram (invoke limit) scope
      (Sequence.fill ⟨[], .expression token, []⟩ e)) store = .error (.failed error) store :=
    program_exit ⟨.null, rfl⟩ hrun
  unfold EStateM.run at hprogram
  rw [Program.run]
  exact hprogram ▸ rfl

theorem Answers.unique {a b : Answer} (ha : e.Answers a) (hb : e.Answers b) : a = b := by
  have h := (ha 0 0 Store.empty).1.symm.trans (hb 0 0 Store.empty).1
  exact congrArg Prod.fst h

/-- The value of a division is the quotient of the values. -/
theorem value_divide {left right : Expr} {x y : Int} (token : Token) (hx : left.value? = some x)
    (hy : right.value? = some y) (hne : y ≠ 0) :
    (Expr.binary token left .divide right).value? = some (InfixOp.quotient x y) := by
  rw [value?, Option.map_eq_some_iff] at hx hy
  obtain ⟨m, hm, rfl⟩ := hx
  obtain ⟨n, hn, rfl⟩ := hy
  have hquotient : (Expr.binary token left .divide right).exactInteger? =
      some (InfixOp.quotient (reduced m) (reduced n)) := by
    rw [exactInteger?, hm, hn, Option.bind_some, Option.bind_some, InfixOp.exactly?, if_neg hne]
  rw [value?, hquotient, Option.map_some, ← toInt_ofInt, InfixOp.ofInt_quotient,
    InfixOp.toInt_quotient]

theorem firstByZero_isSome_iff :
    (∃ d, e.firstByZero? = some d) ↔ ∃ d ∈ e.divisions, d.2.value? = some 0 := by
  rw [← Option.isSome_iff_exists, firstByZero?, List.find?_isSome]
  simp

/-- A tree of arithmetic comes to the word of its exact integer, or stops at its first division by
zero with the word of the dividend. -/
theorem BuiltFrom.outcome (h : e.BuiltFrom InfixOp.arithmeticOperators) :
    (∃ z, e.exactInteger? = some z ∧ e.firstByZero? = none ∧
      e.Answers (.value (.integer (Int64.ofInt z)))) ∨
    ∃ d x, e.firstByZero? = some d ∧ d.1.exactInteger? = some x ∧
      e.Answers (.value (.error (.divisionByZero (Int64.ofInt x)))) := by
  cases hz : e.exactInteger? with
  | some z =>
    refine .inl ⟨z, rfl, firstByZero_of_exactInteger hz h, answers_of_ok ?_⟩
    exact fun limit => evaluate_exactInteger h hz (invoke limit)
  | none =>
    obtain ⟨d, x, hd, hx, -⟩ := evaluate_byZero h hz (invoke 0) 0 Store.empty
    refine .inr ⟨d, x, hd, hx, answers_of_failed fun limit scope store => ?_⟩
    obtain ⟨d', x', hd', hx', hrun⟩ := evaluate_byZero h hz (invoke limit) scope store
    rw [hd, Option.some.injEq] at hd'
    rw [← hd', hx, Option.some.injEq] at hx'
    rw [hx', hrun]

end Expr

open MonkeyLang.Expr in
/-- Integer arithmetic is exact arithmetic reduced once. Without divisions a tree comes to the
integer of 64 bits that is congruent to its exact integer. With them it stops exactly where a
divisor has the value zero, at the first such division, with the value of the dividend; otherwise it
comes to the integer to which each division contributes the quotient of the values of its
operands. -/
theorem arithmetic_reduced_once (e : Expr) :
    (e.BuiltFrom InfixOp.exactOperators → ∃ (z : Int) (v : Int64), e.exactInteger? = some z ∧
      e.Answers (.value (.integer v)) ∧ Reduces z v.toInt ∧ ∀ w, Reduces z w → w = v.toInt) ∧
    (e.BuiltFrom InfixOp.arithmeticOperators →
      (∀ a, e.Answers (.value (.error (.divisionByZero a))) ↔
        ∃ d, e.firstByZero? = some d ∧ d.1.value? = some a.toInt) ∧
      ((∃ a, e.Answers (.value (.error (.divisionByZero a)))) ↔
        ∃ d ∈ e.divisions, d.2.value? = some 0) ∧
      ((∀ d ∈ e.divisions, d.2.value? ≠ some 0) →
        ∃ v, e.value? = some v.toInt ∧ e.Answers (.value (.integer v)))) ∧
    ∀ (token : Token) (left right : Expr) (x y : Int), left.value? = some x →
      right.value? = some y → y ≠ 0 →
      (Expr.binary token left .divide right).value? = some (InfixOp.quotient x y) := by
  refine ⟨fun h => ?_, fun h => ?_, fun token _ _ _ _ => value_divide token⟩
  · obtain ⟨z, hz⟩ := h.exactInteger
    have harithmetic := h.mono (List.subset_cons_self InfixOp.divide _)
    refine ⟨z, Int64.ofInt z, hz, answers_of_ok fun limit => ?_, ?_, ?_⟩
    · exact evaluate_exactInteger harithmetic hz (invoke limit)
    · rw [toInt_ofInt]
      exact reduces_reduced z
    · intro w hw
      rw [toInt_ofInt]
      exact hw.eq_reduced
  · have hvalue {f : Expr} {x : Int} (hx : f.exactInteger? = some x) :
        f.value? = some (Int64.ofInt x).toInt := by
      rw [value?, hx, Option.map_some, toInt_ofInt]
    rcases h.outcome with ⟨z, hz, hnone, hanswers⟩ | ⟨d, x, hd, hx, hanswers⟩
    · have hno (a : Int64) : ¬e.Answers (.value (.error (.divisionByZero a))) :=
        fun ha => nomatch ha.unique hanswers
      refine ⟨fun a => ?_, ?_, fun _ => ⟨_, hvalue hz, hanswers⟩⟩
      · simp [hno a, hnone]
      · rw [← firstByZero_isSome_iff]
        simp [hno, hnone]
    · refine ⟨fun a => ?_, ?_, fun hne => ?_⟩
      · constructor
        · intro ha
          have heq := ha.unique hanswers
          simp only [Answer.value.injEq, Value.error.injEq,
            RuntimeError.divisionByZero.injEq] at heq
          exact ⟨d, hd, heq ▸ hvalue hx⟩
        · rintro ⟨d', hd', ha⟩
          rw [hd, Option.some.injEq] at hd'
          rw [← hd', hvalue hx, Option.some.injEq, Int64.toInt_inj] at ha
          exact ha ▸ hanswers
      · rw [← firstByZero_isSome_iff]
        exact ⟨fun _ => ⟨d, hd⟩, fun _ => ⟨_, hanswers⟩⟩
      · obtain ⟨d', hm, hzero⟩ := firstByZero_isSome_iff.mp ⟨d, hd⟩
        exact absurd hzero (hne d' hm)

/-- The greatest integer and one more, and one less again. -/
def pastGreatest : Expr :=
  .binary (Token.endAt 0) (.binary (Token.endAt 0) (.integer (Token.endAt 0) Int64.maxValue) .add
    (.integer (Token.endAt 0) 1)) .subtract (.integer (Token.endAt 0) 1)

/-- The least integer divided by -1. -/
def leastNegated : Expr :=
  .binary (Token.endAt 0) (.binary (Token.endAt 0) (.unary (Token.endAt 0) .negate
    (.integer (Token.endAt 0) Int64.maxValue)) .subtract (.integer (Token.endAt 0) 1)) .divide
    (.unary (Token.endAt 0) .negate (.integer (Token.endAt 0) 1))

/-- Two divisions by zero, and a third of their quotients. -/
def zeroDivisors : Expr :=
  .binary (Token.endAt 0) (.binary (Token.endAt 0) (.integer (Token.endAt 0) 7) .divide
    (.integer (Token.endAt 0) 0)) .divide (.binary (Token.endAt 0) (.integer (Token.endAt 0) 8)
    .divide (.integer (Token.endAt 0) 0))

theorem arithmetic_reduced_examples :
    (pastGreatest.BuiltFrom InfixOp.exactOperators ∧
      pastGreatest.Answers (.value (.integer Int64.maxValue))) ∧
    (leastNegated.BuiltFrom InfixOp.arithmeticOperators ∧
      leastNegated.Answers (.value (.integer Int64.minValue))) ∧
    zeroDivisors.BuiltFrom InfixOp.arithmeticOperators ∧
      zeroDivisors.Answers (.value (.error (.divisionByZero 7))) ∧
    leastNegated.value? = some (InfixOp.quotient (-2 ^ 63) (-1)) := by
  have hpast : pastGreatest.BuiltFrom InfixOp.exactOperators :=
    .operation (by decide) (.operation (by decide) .literal .literal) .literal
  have hleast : leastNegated.BuiltFrom InfixOp.arithmeticOperators :=
    .operation (by decide) (.operation (by decide) (.negation .literal) .literal)
      (.negation .literal)
  have hzero : zeroDivisors.BuiltFrom InfixOp.arithmeticOperators :=
    .operation (by decide) (.operation (by decide) .literal .literal)
      (.operation (by decide) .literal .literal)
  refine ⟨⟨hpast, ?_⟩, ⟨hleast, ?_⟩, hzero, ?_, ?_⟩
  · obtain ⟨z, v, hz, hv, -, hunique⟩ := (arithmetic_reduced_once pastGreatest).1 hpast
    have hexact : pastGreatest.exactInteger? = some (2 ^ 63 - 1) := by decide
    obtain rfl : (2 ^ 63 - 1 : Int) = z := Option.some.inj (hexact.symm.trans hz)
    have hgreatest := hunique (2 ^ 63 - 1) ⟨by decide, by decide, rfl⟩
    have hword : v = Int64.maxValue := Int64.toInt.inj (hgreatest.symm.trans rfl)
    rwa [hword] at hv
  · obtain ⟨v, hvalue, hv⟩ := ((arithmetic_reduced_once leastNegated).2.1 hleast).2.2 (by decide)
    have hword : v = Int64.minValue := Int64.toInt.inj (Option.some.inj hvalue).symm
    rwa [hword] at hv
  · exact (((arithmetic_reduced_once zeroDivisors).2.1 hzero).1 7).mpr ⟨_, rfl, rfl⟩
  · exact (arithmetic_reduced_once leastNegated).2.2 _ _ _ _ _ rfl rfl (by decide)

end MonkeyLang
