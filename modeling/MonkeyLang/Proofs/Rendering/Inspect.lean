import MonkeyLang.Proofs.Evaluation.Identity
import MonkeyLang.Proofs.Evaluation.Literals
import MonkeyLang.Proofs.Evaluation.OneByOne
import MonkeyLang.Proofs.Rendering.Spelled

namespace MonkeyLang

open Eval Grammar Lexer

def Closure.bare (closure : Closure) : Closure :=
  ⟨closure.parameters.map Identifier.withoutToken, closure.body.withoutTokens, 0⟩

namespace Value

mutual

/-- The value without tokens, identities and scopes. -/
def bare : Value → Value
  | array _ items => array 0 (allBare items)
  | returned value => returned value.bare
  | function _ closure => function 0 closure.bare
  | integer value => integer value
  | boolean value => boolean value
  | string text => string text
  | null => null
  | error e => error e
  | builtin f => builtin f

def allBare : List Value → List Value
  | [] => []
  | value :: values => value.bare :: allBare values

end

theorem tag_bare (value : Value) : value.bare.tag = value.tag := by
  cases value <;> simp [bare, tag]

theorem inspectAll_eq_map (values : List Value) : inspectAll values = values.map inspect := by
  induction values with
  | nil => rw [inspectAll, List.map_nil]
  | cons value values ih => rw [inspectAll, List.map_cons, ih]

mutual

theorem inspect_bare : ∀ value : Value, value.bare.inspect = value.inspect
  | .array _ items => by rw [bare, inspect_array, inspect_array, inspectAll_bare items]
  | .returned value => by rw [bare, inspect_returned, inspect_returned, inspect_bare value]
  | .function _ closure => by
    have hparameters := parameterText_mapToken (fun _ => Token.erased) closure.parameters
    rw [bare, inspect_function, inspect_function, Closure.text, Closure.text, Closure.bare,
      Block.withoutTokens_eq, Block.text_mapTokens, Identifier.withoutToken_eq, hparameters]
  | .integer _ | .boolean _ | .string _ | .null | .error _ | .builtin _ => by rw [bare]

theorem inspectAll_bare : ∀ values : List Value, inspectAll (allBare values) = inspectAll values
  | [] => by rw [allBare]
  | value :: values => by
    rw [allBare, inspectAll_cons, inspectAll_cons, inspect_bare value, inspectAll_bare values]

end

/-- Made of integers that have an opposite, booleans, functions and arrays alone. -/
def Readable (value : Value) : Prop :=
  ∀ part : Value, part.Inside value →
    match part with
    | integer a => a ≠ Int64.minValue
    | boolean _ | array .. | function .. => True
    | string _ | null | returned _ | error _ | builtin _ => False

theorem readable_integer {a : Int64} : (integer a).Readable ↔ a ≠ Int64.minValue := by
  constructor
  · exact fun h => h _ (.self _)
  · intro h part hi
    cases hi
    exact h

theorem readable_boolean (b : Bool) : (boolean b).Readable := by
  intro part hi
  cases hi
  trivial

theorem readable_function (identity : Nat) (closure : Closure) :
    (function identity closure).Readable := by
  intro part hi
  cases hi
  trivial

theorem readable_array {identity : Nat} {items : List Value} :
    (array identity items).Readable ↔ ∀ item ∈ items, item.Readable := by
  constructor
  · exact fun h item hm part hi => h part (.item hm hi)
  · intro h part hi
    cases hi with
    | self => trivial
    | item hm hi => exact h _ hm part hi

/-- A function is the value or stands inside it. -/
def HasFunction (value : Value) : Prop :=
  ∃ identity closure, (function identity closure).Inside value

theorem hasFunction_array {identity : Nat} {items : List Value} :
    (array identity items).HasFunction ↔ ∃ item ∈ items, item.HasFunction := by
  constructor
  · rintro ⟨i, closure, hi⟩
    cases hi with
    | item hm hi => exact ⟨_, hm, i, closure, hi⟩
  · rintro ⟨item, hm, i, closure, hi⟩
    exact ⟨i, closure, .item hm hi⟩

mutual

/-- Without functions nothing is lost but identities. -/
theorem content_of_bare : ∀ a b : Value, a.Readable → ¬a.HasFunction → b.bare = a.bare →
    b.content = a.content
  | .integer _, b, _, _, h | .boolean _, b, _, _, h => by
    cases b with
    | integer _ | boolean _ => exact h
    | _ => cases h
  | .array _ items, b, hr, hf, h => by
    cases b with
    | array _ others =>
      rw [bare, bare, array.injEq] at h
      rw [content, content]
      refine congrArg (array 0) (contents_of_bare items others (readable_array.mp hr) ?_ h.2)
      exact fun item hm hi => hf (hasFunction_array.mpr ⟨item, hm, hi⟩)
    | _ => simp [bare] at h
  | .function i closure, _, _, hf, _ => absurd ⟨i, closure, .self _⟩ hf
  | .string _, _, hr, _, _ | .null, _, hr, _, _ | .returned _, _, hr, _, _ | .error _, _, hr, _, _
  | .builtin _, _, hr, _, _ => (hr _ (.self _)).elim

theorem contents_of_bare : ∀ as bs : List Value, (∀ a ∈ as, a.Readable) →
    (∀ a ∈ as, ¬a.HasFunction) → allBare bs = allBare as → contents bs = contents as
  | [], bs, _, _, h => by
    cases bs with
    | nil => rfl
    | cons _ _ => simp [allBare] at h
  | a :: as, bs, hr, hf, h => by
    cases bs with
    | nil => simp [allBare] at h
    | cons b bs =>
      obtain ⟨hreadable, hothers⟩ := List.forall_mem_cons.mp hr
      obtain ⟨hfirst, hrest⟩ := List.forall_mem_cons.mp hf
      rw [allBare, allBare, List.cons.injEq] at h
      rw [contents, contents, content_of_bare a b hreadable hfirst h.1,
        contents_of_bare as bs hothers hrest h.2]

end

/-- In whatever scope and store it is evaluated, the expression comes to the value, up to tokens,
identities and scopes. -/
def ComesFrom (value : Value) (e : Expr) : Prop :=
  ∀ call scope store, ∃ result after,
    EStateM.run (evaluate call scope e) store = .ok result after ∧ result.bare = value.bare

end Value

theorem evaluateAll_comesFrom {values : List Value} {es : List Expr}
    (h : List.Forall₂ Value.ComesFrom values es) (call : Call) (scope : ScopeId) (store : Store) :
    ∃ results after, EStateM.run (evaluateAll call scope es) store = .ok results after ∧
      Value.allBare results = Value.allBare values := by
  induction h generalizing store with
  | nil => exact ⟨[], store, rfl, rfl⟩
  | @cons value e values es he _ ih =>
    obtain ⟨result, middle, hrun, hbare⟩ := he call scope store
    obtain ⟨results, after, hruns, hbares⟩ := ih middle
    refine ⟨result :: results, after, ?_, by rw [Value.allBare, hbare, hbares, ← Value.allBare]⟩
    rw [evaluateAll, run_bind_of_ok hrun, run_bind_of_ok hruns]
    rfl

namespace Value

theorem comesFrom_integer (t : Token) (a : Int64) : (integer a).ComesFrom (.integer t a) :=
  fun call scope store => ⟨integer a, store, by rw [evaluate]; rfl, rfl⟩

theorem comesFrom_boolean (t : Token) (b : Bool) : (boolean b).ComesFrom (.boolean t b) :=
  fun call scope store => ⟨boolean b, store, by rw [evaluate]; rfl, rfl⟩

theorem comesFrom_negation (o t : Token) (a : Int64) :
    (integer a).ComesFrom (.unary o .negate (.integer t (-a))) := by
  intro call scope store
  have hoperand : EStateM.run (evaluate call scope (.integer t (-a))) store =
      .ok (integer (-a)) store := by
    rw [evaluate]
    rfl
  refine ⟨integer (- -a), store, ?_, by rw [Int64.neg_neg]⟩
  rw [evaluate, run_bind_of_ok hoperand]
  rfl

theorem comesFrom_array (identity : Nat) {items : List Value} (t : Token) {es : List Expr}
    (h : List.Forall₂ ComesFrom items es) : (array identity items).ComesFrom (.array t es) := by
  intro call scope store
  obtain ⟨results, after, hruns, hbares⟩ := evaluateAll_comesFrom h call scope store
  refine ⟨(after.newArray results).1, (after.newArray results).2, ?_, ?_⟩
  · rw [evaluate, run_bind_of_ok hruns]
    rfl
  · rw [Store.newArray, bare, bare, hbares]

theorem comesFrom_function (identity : Nat) {closure : Closure} (t : Token)
    {names : List Identifier} {b : Block}
    (hnames : names.map Identifier.withoutToken = closure.parameters.map Identifier.withoutToken)
    (hb : b.withoutTokens = closure.body.withoutTokens) :
    (function identity closure).ComesFrom (.function t names b) := by
  intro call scope store
  refine ⟨(store.newFunction ⟨names, b, scope⟩).1, (store.newFunction ⟨names, b, scope⟩).2, ?_, ?_⟩
  · rw [evaluate]
    rfl
  · rw [Store.newFunction, bare, bare, Closure.bare, Closure.bare, hnames, hb]

/-- The digits behind the minus of a negative integer are those of its opposite. -/
theorem repr_negative {a : Int64} (hneg : a.toInt < 0) (hne : a ≠ Int64.minValue) :
    0 ≤ (-a).toInt ∧ a.toInt.repr.toList = '-' :: (-a).toInt.repr.toList := by
  have hle := a.le_toInt
  have hleast : a.toInt ≠ -2 ^ 63 := by
    rw [← Int64.toInt_minValue, ne_eq, Int64.toInt_inj]
    exact hne
  have hopposite : (-a).toInt = -a.toInt := by
    rw [Int64.toInt_neg]
    exact Int.bmod_eq_of_le (by omega) (by omega)
  obtain ⟨n, hn⟩ := Int.eq_negSucc_of_lt_zero hneg
  have hrepr : (Int.negSucc n).repr = "-" ++ (-Int.negSucc n).repr := rfl
  rw [hopposite, hn]
  exact ⟨by omega, by simp only [hrepr, String.toList_append, String.reduceToList, List.cons_append,
    List.nil_append]⟩

theorem spells_negative {a : Int64} (hneg : a.toInt < 0) (hne : a ≠ Int64.minValue) :
    Spells a.toInt.repr (ReadFor ComesFrom (integer a)) := by
  obtain ⟨hle, hrepr⟩ := repr_negative hneg hne
  have hopens := Expr.text_opens (.integer Token.erased (-a)) hle
  intro rest hrest
  rw [hrepr]
  refine Scans.mark .minus (by decide) (hopens.head rest) fun o ho => ?_
  refine (spells_integer hle rest hrest).mono ?_
  intro ts h
  obtain ⟨t, hd⟩ := h
  have hminus : (o.kind, PrefixOp.negate) ∈ prefixOperators := by
    rw [ho]
    decide
  exact ⟨_, (Derives.unary hminus hd.loosen).at_level (by decide), comesFrom_negation o t a⟩

theorem inspect_opens : ∀ value : Value, value.Readable → Opens value.inspect
  | .integer a, h => by
    by_cases hneg : a.toInt < 0
    · exact ⟨'-', _, (repr_negative hneg (readable_integer.mp h)).2, by decide⟩
    · exact Expr.text_opens (.integer Token.erased a) (Int.not_lt.mp hneg)
  | .boolean b, _ => by
    change Opens (if b then "true" else "false")
    cases b <;> simp [Opens]
  | .array .., _ => by simp [Opens, inspect_array]
  | .function .., _ => by simp [Opens, inspect_function, Closure.text]
  | .string _, h | .null, h | .returned _, h | .error _, h | .builtin _, h => (h _ (.self _)).elim

mutual

/-- The text of a readable value is read as an expression that comes to it. -/
theorem spells_inspect : ∀ value : Value, value.Readable → value.WellFormed →
    Spells value.inspect (ReadFor ComesFrom value)
  | .integer a, h, _ => by
    by_cases hneg : a.toInt < 0
    · exact spells_negative hneg (readable_integer.mp h)
    · intro rest hrest
      refine (spells_integer (Int.not_lt.mp hneg) rest hrest).mono ?_
      intro ts hts
      obtain ⟨t, hd⟩ := hts
      exact ⟨_, hd.loosest, comesFrom_integer t a⟩
  | .boolean b, _, _ => fun rest hrest => by
    refine (spells_boolean b rest hrest).mono ?_
    intro ts h
    obtain ⟨t, hd⟩ := h
    exact ⟨_, hd.loosest, comesFrom_boolean t b⟩
  | .array identity items, h, hf => fun rest hrest => by
    have hreadable := readable_array.mp h
    have hspells := spells_inspectAll items hreadable (wellFormed_array.mp hf)
    have hopens := fun item hm => inspect_opens item (hreadable item hm)
    rw [inspect_array, inspectAll_eq_map]
    refine (spells_bracketed hopens hspells rest hrest).mono ?_
    intro ts h
    obtain ⟨t, es, hd, hes⟩ := h
    exact ⟨_, hd.loosest, comesFrom_array identity t hes⟩
  | .function identity closure, _, hf => fun rest hrest => by
    have hclosure := wellFormed_function.mp hf
    have hbody := closure.body.spells hclosure.body
    refine (spells_function hclosure.parameters hbody rest hrest).mono ?_
    intro ts h
    obtain ⟨t, names, b, hd, hnames, hb⟩ := h
    exact ⟨_, hd.loosest, comesFrom_function identity t hnames hb⟩
  | .string _, h, _ | .null, h, _ | .returned _, h, _ | .error _, h, _ | .builtin _, h, _ =>
    (h _ (.self _)).elim

theorem spells_inspectAll : ∀ values : List Value, (∀ value ∈ values, value.Readable) →
    (∀ value ∈ values, value.WellFormed) →
    ∀ value ∈ values, Spells value.inspect (ReadFor ComesFrom value)
  | [], _, _ => List.forall_mem_nil _
  | value :: values, h, hf => by
    obtain ⟨hfirst, hrest⟩ := List.forall_mem_cons.mp h
    obtain ⟨hwellFormed, hothers⟩ := List.forall_mem_cons.mp hf
    exact List.forall_mem_cons.mpr
      ⟨spells_inspect value hfirst hwellFormed, spells_inspectAll values hrest hothers⟩

end

/-- The text of a readable value is a program of one expression, which comes to the value. -/
theorem reading_of_inspect {value : Value} (h : value.Readable) (hf : value.WellFormed) :
    (Reading.ofSource value.inspect).errors = [] ∧ ∃ t e,
      (Reading.ofSource value.inspect).program = [.expression t e] ∧ value.ComesFrom e := by
  have hspells : Spells value.inspect fun ts => ∃ ss, Derives False ts (.statements ss) ∧
      ∃ t e, ss = [.expression t e] ∧ value.ComesFrom e := by
    intro rest hrest
    refine (spells_inspect value h hf rest hrest).mono ?_
    intro ts hts
    obtain ⟨e, hd, he⟩ := hts
    obtain ⟨u, us, rfl, -⟩ := hd.beginsWith
    have hstatements : Derives False (u :: us ++ []) (.statements [.expression u e]) :=
      .unterminated (.expression hd) (by simp) .noStatements
    rw [List.append_nil] at hstatements
    exact ⟨_, hstatements, u, e, rfl, he⟩
  exact reading_of_spelled hspells

theorem function_of_bare {identity : Nat} {closure : Closure} {result : Value}
    (h : result.bare = (function identity closure).bare) :
    ∃ other again, result = function other again ∧
      again.parameters.map Identifier.name = closure.parameters.map Identifier.name ∧
      again.body.withoutTokens = closure.body.withoutTokens := by
  cases result with
  | function other again =>
    simp only [bare, Closure.bare, function.injEq, true_and, Closure.mk.injEq, and_true] at h
    have hnames := congrArg (List.map Identifier.name) h.1
    simp only [List.map_map] at hnames
    exact ⟨other, again, rfl, hnames, h.2⟩
  | _ => simp [bare] at h

end Value

theorem Program.run_single {limit : Nat} {scope : ScopeId} {store after : Store} {t : Token}
    {e : Expr} {value : Value}
    (h : EStateM.run (evaluate (invoke limit) scope e) store = .ok value after) :
    Program.run limit [.expression t e] scope store = (.value value, after) := by
  rw [← Eval.run] at h
  rw [Program.run, runProgram_single h]
  rfl

/-- The text of a value reads back. If a run of a parsed program comes to a value made of integers
that have an opposite, booleans, functions and arrays alone, its text is free of errors and a
program of one expression. In a fresh environment this comes to a value of the same type and text,
equal to the first if that has no function inside, and in any case the same up to tokens, identities
and scopes: a function has the same parameters and body. -/
theorem inspect_reads_back {value : Value} (hp : value.Produced) (hr : value.Readable)
    (limit : Nat) :
    (Reading.ofSource value.inspect).errors = [] ∧
      (∃ t e, (Reading.ofSource value.inspect).program = [.expression t e]) ∧
      ∃ result after,
        (Reading.ofSource value.inspect).program.run limit Store.fresh.1 Store.fresh.2 =
          (.value result, after) ∧
        result.tag = value.tag ∧ result.inspect = value.inspect ∧
        (¬value.HasFunction → result.equal value = true) ∧ result.bare = value.bare ∧
        ∀ identity closure, value = .function identity closure →
          ∃ other again, result = .function other again ∧
            again.parameters.map Identifier.name = closure.parameters.map Identifier.name ∧
            again.body.withoutTokens = closure.body.withoutTokens := by
  obtain ⟨herrors, t, e, hprogram, he⟩ := Value.reading_of_inspect hr hp.wellFormed
  obtain ⟨result, after, hrun, hbare⟩ := he (invoke limit) Store.fresh.1 Store.fresh.2
  rw [hprogram]
  refine ⟨herrors, ⟨t, e, rfl⟩, result, after, Program.run_single hrun, ?_, ?_, ?_, hbare, ?_⟩
  · rw [← Value.tag_bare, hbare, Value.tag_bare]
  · rw [← Value.inspect_bare, hbare, Value.inspect_bare]
  · intro hnone
    exact (Value.equal_iff result value).mpr (Value.content_of_bare value result hr hnone hbare)
  · rintro identity closure rfl
    exact Value.function_of_bare hbare

/-- A negative integer comes back through the negation of its opposite, and a function through its
literal, also inside arrays. -/
theorem inspect_reads_back_nested : ∃ value : Value,
    ((Reading.ofSource "let f = fn(x) { return -x; }; [f(7), [f, true]]").program.run 1
      Store.fresh.1 Store.fresh.2).1 = .value value ∧
    value.Produced ∧ value.Readable ∧ value.inspect = "[-7, [fn(x) { return (-x); }, true]]" ∧
    (Reading.ofSource value.inspect).errors = [] ∧
    ∃ result after, (Reading.ofSource value.inspect).program.run 0 Store.fresh.1 Store.fresh.2 =
        (.value result, after) ∧ result.inspect = value.inspect ∧ result.bare = value.bare := by
  obtain ⟨i, j, k, closure, hanswer, htext⟩ : ∃ i j k closure,
      ((Reading.ofSource "let f = fn(x) { return -x; }; [f(7), [f, true]]").program.run 1
        Store.fresh.1 Store.fresh.2).1 =
          .value (.array i [.integer (-7), .array j [.function k closure, .boolean true]]) ∧
      (Value.array i [.integer (-7), .array j [.function k closure, .boolean true]]).inspect =
        "[-7, [fn(x) { return (-x); }, true]]" :=
    ⟨_, _, _, _, rfl, by decide +kernel⟩
  have hproduced := Value.produced_of_run hanswer rfl
  have hinteger : Value.Readable (.integer (-7)) := Value.readable_integer.mpr (by decide)
  have hreadable : Value.Readable
      (.array i [.integer (-7), .array j [.function k closure, .boolean true]]) := by
    simp only [Value.readable_array, List.forall_mem_cons]
    exact ⟨hinteger, ⟨Value.readable_function k closure, Value.readable_boolean true,
      List.forall_mem_nil _⟩, List.forall_mem_nil _⟩
  obtain ⟨herrors, -, result, after, hrun, -, hinspect, -, hbare, -⟩ :=
    inspect_reads_back hproduced hreadable 0
  exact ⟨_, hanswer, hproduced, hreadable, htext, herrors, result, after, hrun, hinspect, hbare⟩

end MonkeyLang
