import MonkeyLang.Proofs.Parsing.Calls
import MonkeyLang.Proofs.Parsing.Course
import MonkeyLang.Proofs.Parsing.Reading

namespace MonkeyLang

mutual

/-- The statements in the blocks of an expression, each before those within it. -/
def Expr.within : Expr → List Stmt
  | .name _ | .integer _ _ | .boolean _ _ | .string _ _ => []
  | .array _ items => Expr.withinAll items
  | .unary _ _ right => right.within
  | .binary _ left _ right => left.within ++ right.within
  | .conditional _ condition consequence none => condition.within ++ consequence.within
  | .conditional _ condition consequence (some alternative) =>
    condition.within ++ consequence.within ++ alternative.within
  | .function _ _ body => body.within
  | .call _ callee arguments => callee.within ++ Expr.withinAll arguments
  | .index _ left position => left.within ++ position.within

def Expr.withinAll : List Expr → List Stmt
  | [] => []
  | e :: es => e.within ++ Expr.withinAll es

def Stmt.within : Stmt → List Stmt
  | .letName _ _ value => value.within
  | .returnValue _ value => value.within
  | .expression _ value => value.within
  | .block body => body.within

/-- The statements at any depth, each before those within it. -/
def Stmt.atAnyDepth : List Stmt → List Stmt
  | [] => []
  | s :: ss => s :: (s.within ++ Stmt.atAnyDepth ss)

def Block.within : Block → List Stmt
  | .mk _ statements => Stmt.atAnyDepth statements

end

namespace Parse

/-- Within a call errors are recorded by the calls for the statements of its own blocks, and behind
them by the call itself just if it drops its statement: then there is one. A statement returned
holds the statements that those calls have kept. -/
inductive Call.Proper : Call → Prop
  | returned {statement : Stmt} {nested : List Call} (inner : ∀ call ∈ nested, call.Proper)
      (within : statement.within = Call.keptOf nested) :
      Proper ⟨some statement, nested.flatMap Call.recorded, nested⟩
  | dropped {nested : List Call} (inner : ∀ call ∈ nested, call.Proper) (own : SyntaxError) :
      Proper ⟨none, nested.flatMap Call.recorded ++ [own], nested⟩

namespace Call

variable {call : Call} {calls : List Call}

theorem Proper.all (h : call.Proper) : ∀ c ∈ call.all, c.Proper := by
  induction h with
  | returned inner within ih =>
    intro c hc
    obtain rfl | ⟨c', hc', hc⟩ := eq_or_nested hc
    · exact .returned inner within
    · exact ih c' hc' c hc
  | dropped inner own ih =>
    intro c hc
    obtain rfl | ⟨c', hc', hc⟩ := eq_or_nested hc
    · exact .dropped inner own
    · exact ih c' hc' c hc

theorem proper_allOf (h : ∀ c ∈ calls, c.Proper) : ∀ c ∈ allOf calls, c.Proper := by
  intro c hc
  rw [allOf_eq] at hc
  obtain ⟨c', hc', hc⟩ := List.mem_flatMap.mp hc
  exact (h c' hc').all c hc

/-- The errors that a call has recorded itself. -/
theorem Proper.own (h : call.Proper) : ∃ own,
    call.recorded = call.nested.flatMap recorded ++ own ∧
      own.length = if call.result = none then 1 else 0 := by
  cases h with
  | returned inner within => exact ⟨[], (List.append_nil _).symm, rfl⟩
  | dropped inner own => exact ⟨[own], rfl, rfl⟩

/-- The calls that drop their statement. -/
def drops (calls : List Call) : Nat := calls.countP fun c => c.result.isNone

theorem drops_allOf (h : ∀ c ∈ calls, drops c.all = c.recorded.length) :
    drops (allOf calls) = (calls.flatMap recorded).length := by
  rw [allOf_eq, drops, List.countP_flatMap, List.length_flatMap]
  exact congrArg List.sum (List.map_congr_left h)

theorem Proper.drops_all (h : call.Proper) : drops call.all = call.recorded.length := by
  induction h with
  | returned inner within ih =>
    rw [Call.all, drops, List.countP_cons]
    exact drops_allOf ih
  | dropped inner own ih =>
    rw [Call.all, drops, List.countP_cons, recorded, List.length_append]
    exact congrArg (· + 1) (drops_allOf ih)

end Call

end Parse

namespace Parser

/-- A brace opens at the current token or behind it. -/
def MayNest (p : Parser) : Prop := ∃ t ∈ p.stream, t.kind = .leftBrace

theorem stream_abandon (p : Parser) :
    stream { p with tokens := abandon p.tokens } <:+ p.stream := by
  obtain ⟨ts, hts⟩ := abandon_suffix p.tokens
  exact ⟨ts, by rw [stream, stream, ← List.append_assoc, hts]⟩

theorem MayNest.of_suffix {p q : Parser} (h : q.MayNest) (hs : q.stream <:+ p.stream) :
    p.MayNest := by
  obtain ⟨t, ht, hk⟩ := h
  exact ⟨t, hs.mem ht, hk⟩

end Parser

namespace Parse

open MonkeyLang.Parser

variable {α β : Type} {free : Prop} {p q r : Parser} {calls calls' : List Call}
  {own : List SyntaxError}

/-- On the way from `p` to `q` these calls for a statement have returned, and these errors have been
recorded outside of them. There are calls only where statements are `free` to stand, or within
braces. -/
structure Made (free : Prop) (p q : Parser) (calls : List Call) (own : List SyntaxError) :
    Prop where
  proper : ∀ call ∈ calls, call.Proper
  errors : q.errors = p.errors ++ calls.flatMap Call.recorded ++ own
  ahead : q.stream <:+ p.stream
  placed : calls ≠ [] → free ∨ p.MayNest

theorem Made.refl (p : Parser) : Made free p p [] [] :=
  ⟨nofun, by simp, List.suffix_refl _, nofun⟩

theorem Made.trans (h : Made free p q calls []) (k : Made free q r calls' own) :
    Made free p r (calls ++ calls') own where
  proper call hcall := (List.mem_append.mp hcall).elim (h.proper call) (k.proper call)
  errors := by rw [k.errors, h.errors]; simp
  ahead := k.ahead.trans h.ahead
  placed hne := by
    cases calls with
    | nil => exact (k.placed hne).imp_right fun hq => hq.of_suffix h.ahead
    | cons call calls => exact h.placed (List.cons_ne_nil _ _)

theorem Made.weaken {free' : Prop} (h : Made free p q calls own)
    (hp : calls ≠ [] → free ∨ p.MayNest → free' ∨ p.MayNest) : Made free' p q calls own :=
  { h with placed := fun hne => hp hne (h.placed hne) }

/-- A syntax error on the way from `p` to `q` is one error outside of the calls. -/
def Stopped (free : Prop) (p q : Parser) (calls : List Call) (s : Stop) : Prop :=
  s = .syntaxError → ∃ e, Made free p q calls [e]

theorem Stopped.behind {s : Stop} (k : Stopped free q r calls' s) (h : Made free p q calls []) :
    Stopped free p r (calls ++ calls') s := by
  intro hs
  obtain ⟨e, hmade⟩ := k hs
  exact ⟨e, h.trans hmade⟩

theorem Stopped.weaken {free' : Prop} {s : Stop} (h : Stopped free p q calls s)
    (hp : calls ≠ [] → free ∨ p.MayNest → free' ∨ p.MayNest) : Stopped free' p q calls s := by
  intro hs
  obtain ⟨e, hmade⟩ := h hs
  exact ⟨e, hmade.weaken hp⟩

theorem stopped_depth : Stopped free p q calls .depth := by
  intro hs
  cases hs

theorem stopped_record (p : Parser) (cause : SyntaxError.Cause) (token : Token) :
    Stopped free p (p.record cause token) [] .syntaxError := fun _ =>
  ⟨⟨cause, token.span⟩, nofun, by simp [Parser.record], List.suffix_refl _, nofun⟩

theorem made_advance (p : Parser) : Made free p p.advance [] [] :=
  ⟨nofun, by simp [Parser.advance], p.stream_advance, nofun⟩

theorem made_recover (p : Parser) :
    Made free p { p with tokens := Parser.abandon p.tokens } [] [] :=
  ⟨nofun, by simp, p.stream_abandon, nofun⟩

/-- The watched `x'` runs as `x` does, which makes no call, and records nothing, or else records one
error and fails. -/
structure Plain (x' : Watch α) (x : Parse α) : Prop where
  lift : x' = Watch.lift x
  ends : ∀ p, Ends x p (fun _ q => Made False p q [] []) fun s q => Stopped False p q [] s

theorem Plain.bind {x' : Watch α} {x : Parse α} {f' : α → Watch β} {f : α → Parse β}
    (hx : Plain x' x) (hf : ∀ a, Plain (f' a) (f a)) : Plain (x' >>= f') (x >>= f) where
  lift := by rw [hx.lift, Watch.lift_bind, funext fun a => (hf a).lift]
  ends p := by
    refine ends_bind.2 ((hx.ends p).mono (fun a q hq => ?_) fun _ _ hs => hs)
    exact ((hf a).ends q).mono (fun _ _ hr => hq.trans hr) fun _ _ hs => hs.behind hq

theorem Plain.ite {c : Prop} [Decidable c] {x' y' : Watch α} {x y : Parse α} (hx : Plain x' x)
    (hy : Plain y' y) : Plain (if c then x' else y') (if c then x else y) := by
  split
  · exact hx
  · exact hy

theorem plain_pure (a : α) : Plain (pure a) (pure a) := ⟨rfl, Made.refl⟩

theorem plain_current : Plain current current := ⟨rfl, Made.refl⟩

theorem plain_next : Plain next next := ⟨rfl, Made.refl⟩

theorem plain_advance : Plain advance advance := ⟨rfl, made_advance⟩

theorem plain_recover : Plain recover recover := ⟨rfl, made_recover⟩

theorem plain_depth : Plain (throw .depth : Watch α) (throw .depth) := ⟨rfl, fun _ => stopped_depth⟩

theorem plain_fail (cause : SyntaxError.Cause) (token : Token) :
    Plain (fail cause token : Watch α) (fail cause token) :=
  ⟨rfl, fun p => stopped_record p cause token⟩

theorem plain_accept (kind : Token.Kind) : Plain (accept kind) (accept kind) := by
  unfold accept
  exact plain_next.bind fun token => .ite (plain_advance.bind fun _ => plain_pure _) (plain_pure _)

theorem plain_demand (kind : Token.Kind) : Plain (demand kind) (demand kind) := by
  unfold demand
  exact plain_next.bind fun token => .ite plain_advance (plain_fail _ _)

theorem plain_integer (token : Token) : Plain (integer token) (integer token) := by
  unfold integer
  exact .ite (plain_pure _) (plain_fail _ _)

theorem plain_parameters (n : Nat) : Plain (parameters n) (parameters n) := by
  induction n with
  | zero => exact plain_depth
  | succ n ih =>
    rw [parameters, parameters, Body.parameters, Body.parameters]
    refine (plain_demand _).bind fun _ => plain_current.bind fun token => ?_
    refine (plain_accept _).bind fun more => ?_
    cases more with
    | true => exact ih.bind fun names => plain_pure _
    | false => exact (plain_demand _).bind fun _ => plain_pure _

/-- The watched `x'` runs as `x` does, and what the calls that it notes have kept is told by `R` of
the outcome. -/
def Watches (free : Prop) (R : α → List Stmt → Prop) (x' : Watch α) (x : Parse α) : Prop :=
  ∀ w : Watched, Ends x w.parser
    (fun a q => ∃ calls, x'.run w = .ok a ⟨q, w.calls ++ calls⟩ ∧
      Made free w.parser q calls [] ∧ R a (Call.keptOf calls))
    fun s q => ∃ calls, x'.run w = .error s ⟨q, w.calls ++ calls⟩ ∧
      Stopped free w.parser q calls s

section
variable {R : α → List Stmt → Prop} {S : β → List Stmt → Prop} {x' : Watch α} {x : Parse α}
  {f' : α → Watch β} {f : α → Parse β}

theorem Watches.mono {free' : Prop} {R' : α → List Stmt → Prop} (h : Watches free R x' x)
    (hfree : free → free') (hR : ∀ a kept, R a kept → R' a kept) : Watches free' R' x' x := by
  intro w
  refine (h w).mono (fun a q hq => ?_) fun s q hq => ?_
  · obtain ⟨calls, hrun, hmade, ha⟩ := hq
    exact ⟨calls, hrun, hmade.weaken fun _ => Or.imp_left hfree, hR _ _ ha⟩
  · obtain ⟨calls, hrun, hstopped⟩ := hq
    exact ⟨calls, hrun, hstopped.weaken fun _ => Or.imp_left hfree⟩

theorem Plain.watches (hx : Plain x' x) (hR : ∀ p, Ends x p (fun a _ => R a []) fun _ _ => True) :
    Watches free R x' x := by
  intro w
  rw [hx.lift]
  have hends := (hx.ends w.parser).and (hR w.parser)
  unfold Ends at hends ⊢
  cases hr : x.run w.parser with
  | ok a q =>
    rw [hr] at hends
    obtain ⟨hmade, ha⟩ := hends
    refine ⟨[], ?_, hmade.weaken nofun, by rwa [Call.keptOf]⟩
    rw [Watch.lift_of_ok hr, List.append_nil]
  | error s q =>
    rw [hr] at hends
    refine ⟨[], ?_, hends.1.weaken nofun⟩
    rw [Watch.lift_of_error hr, List.append_nil]

theorem watches_pure {a : α} (h : R a []) : Watches free R (pure a) (pure a) :=
  (plain_pure a).watches fun _ => h

theorem watches_depth : Watches free R (throw .depth) (throw .depth) :=
  plain_depth.watches fun _ => trivial

theorem watches_fail {cause : SyntaxError.Cause} {token : Token} :
    Watches free R (fail cause token) (fail cause token) :=
  (plain_fail _ _).watches fun _ => ends_fail.2 trivial

theorem Watches.bind (hx : Watches free R x' x)
    (hf : ∀ a kept, R a kept → Watches free (fun b more => S b (kept ++ more)) (f' a) (f a)) :
    Watches free S (x' >>= f') (x >>= f) := by
  intro w
  refine ends_bind.2 ((hx w).mono (fun a q hq => ?_) fun s q hq => ?_)
  · obtain ⟨calls, hrun, hmade, ha⟩ := hq
    have hbehind : (x' >>= f').run w = (f' a).run ⟨q, w.calls ++ calls⟩ := by
      rw [EStateM.run_bind, hrun]
    refine (hf a _ ha ⟨q, w.calls ++ calls⟩).mono (fun b r hr => ?_) fun s r hr => ?_
    · obtain ⟨calls', hrun', hmade', hb⟩ := hr
      refine ⟨calls ++ calls', ?_, hmade.trans hmade', by rwa [Call.keptOf_append]⟩
      rw [hbehind, hrun', List.append_assoc]
    · obtain ⟨calls', hrun', hstopped⟩ := hr
      refine ⟨calls ++ calls', ?_, hstopped.behind hmade⟩
      rw [hbehind, hrun', List.append_assoc]
  · obtain ⟨calls, hrun, hstopped⟩ := hq
    exact ⟨calls, by rw [EStateM.run_bind, hrun], hstopped⟩

theorem Watches.step (hx : Plain x' x) (hf : ∀ a, Watches free S (f' a) (f a)) :
    Watches free S (x' >>= f') (x >>= f) := by
  have hnone : Watches free (fun _ (kept : List Stmt) => kept = []) x' x :=
    hx.watches fun p => (ends_somehow x p).mono (fun _ _ _ => rfl) fun _ _ h => h
  refine hnone.bind fun a kept hkept => ?_
  subst hkept
  exact hf a

theorem Watches.ite {c : Prop} [Decidable c] {y' : Watch α} {y : Parse α}
    (hx : c → Watches free R x' x) (hy : ¬c → Watches free R y' y) :
    Watches free R (if c then x' else y') (if c then x else y) := by
  split
  · exact hx ‹_›
  · exact hy ‹_›

/-- What is read within braces is read where a brace opens. -/
theorem Watches.braces (hx : Watches True R x' x)
    (hf : ∀ a kept, R a kept → Watches False (fun b more => S b (kept ++ more)) (f' a) (f a)) :
    Watches False S (demand .leftBrace >>= fun _ => x' >>= f')
      (demand .leftBrace >>= fun _ => x >>= f) := by
  have hinside : Watches True S (x' >>= f') (x >>= f) :=
    hx.bind fun a kept ha => (hf a kept ha).mono False.elim fun _ _ h => h
  have hfree := Watches.step (plain_demand .leftBrace) fun _ => hinside
  intro w
  by_cases hnest : w.parser.MayNest
  · refine (hfree w).mono (fun b q hq => ?_) fun s q hq => ?_
    · obtain ⟨calls, hrun, hmade, hb⟩ := hq
      exact ⟨calls, hrun, hmade.weaken fun _ _ => .inr hnest, hb⟩
    · obtain ⟨calls, hrun, hstopped⟩ := hq
      exact ⟨calls, hrun, hstopped.weaken fun _ _ => .inr hnest⟩
  · have hnext : w.parser.next.kind ≠ .leftBrace := fun hk =>
      hnest ⟨_, w.parser.next_mem_stream, hk⟩
    have hdemand : Watches False (fun _ _ => True) (demand .leftBrace) (demand .leftBrace) :=
      (plain_demand _).watches fun p => ends_somehow _ p
    have hrefused : Ends (demand .leftBrace) w.parser (fun _ _ => False) fun _ _ => True :=
      ends_demand.2 ⟨hnext, fun _ => trivial⟩
    refine ends_bind.2 (((hdemand w).and hrefused).mono (fun _ _ h => h.2.elim) fun s q hq => ?_)
    obtain ⟨⟨calls, hrun, hstopped⟩, -⟩ := hq
    exact ⟨calls, by rw [EStateM.run_bind, hrun], hstopped⟩

/-- A call that returns is a call made, with the errors that were recorded in it. -/
theorem Made.note {w : Watched} {result : Option Stmt} (h : Made False w.parser q calls own)
    (hp : Call.Proper ⟨result, calls.flatMap Call.recorded ++ own, calls⟩) :
    ∃ call, w.note result ⟨q, calls⟩ = ⟨q, w.calls ++ [call]⟩ ∧
      Made True w.parser q [call] [] ∧
      call = ⟨result, calls.flatMap Call.recorded ++ own, calls⟩ := by
  have hrecorded : q.errors.drop w.parser.errors.length =
      calls.flatMap Call.recorded ++ own := by
    rw [h.errors, List.append_assoc, List.drop_left]
  refine ⟨_, rfl, ⟨?_, ?_, h.ahead, fun _ => .inl trivial⟩, by rw [hrecorded]⟩
  · rw [hrecorded]
    exact fun call hcall => List.mem_singleton.mp hcall ▸ hp
  · rw [hrecorded, h.errors]
    simp [Call.recorded]

/-- A call for a statement is one of the calls made, and what it keeps is the statement with those
within it. -/
theorem Watches.attempt {x' : Watch Stmt} {x : Parse Stmt}
    (hx : Watches False (fun s kept => s.within = kept) x' x) :
    Watches True (fun result kept => Stmt.atAnyDepth result.toList = kept) (Attempts.attempt x')
      (Attempts.attempt x) := by
  intro w
  refine ends_attempt.2 ((hx ⟨w.parser, []⟩).mono (fun s q hq => ?_) fun s q hq => ⟨?_, ?_⟩)
  · obtain ⟨nested, hrun, hmade, hwithin⟩ := hq
    have hproper := Call.Proper.returned hmade.proper hwithin
    rw [← List.append_nil (nested.flatMap _)] at hproper
    obtain ⟨call, hnote, hcall, rfl⟩ := Made.note (w := w) hmade hproper
    refine ⟨_, (Watch.attempt_of_ok hrun).trans (congrArg _ hnote), hcall, ?_⟩
    simp [Stmt.atAnyDepth, Call.keptOf, Call.kept, hwithin]
  · intro hs
    obtain ⟨nested, hrun, hstopped⟩ := hq
    obtain ⟨e, hmade⟩ := hstopped hs
    rw [hs] at hrun
    have hproper := Call.Proper.dropped hmade.proper e
    obtain ⟨call, hnote, hcall, rfl⟩ := Made.note (w := w) hmade hproper
    refine ⟨_, (Watch.attempt_of_syntaxError hrun).trans (congrArg _ hnote), hcall, ?_⟩
    simp [Stmt.atAnyDepth, Call.keptOf, Call.kept]
  · intro hs
    obtain ⟨nested, hrun, -⟩ := hq
    rw [hs] at hrun
    refine ⟨[], ?_, stopped_depth⟩
    rw [List.append_nil]
    exact Watch.attempt_of_depth hrun

end

mutual

theorem watches_expression : ∀ n least, Watches False (fun e kept => e.within = kept)
    (expression n least) (expression n least)
  | 0, _ => watches_depth
  | n + 1, least => by
    rw [expression, expression, Body.expression, Body.expression]
    refine (watches_operand n).bind fun left kept hleft => ?_
    subst hleft
    exact watches_extend n least left

theorem watches_operand : ∀ n, Watches False (fun e kept => e.within = kept)
    (operand n) (operand n)
  | 0 => watches_depth
  | n + 1 => by
    rw [operand, operand, Body.operand, Body.operand]
    refine Watches.step plain_current fun token => ?_
    cases hr : Prefix.ofKind? token.kind with
    | none => exact watches_fail
    | some reader =>
      cases reader with
      | name | string | boolean => exact watches_pure (by rw [Expr.within])
      | integer =>
        refine (plain_integer token).watches fun p => ?_
        unfold integer
        exact ends_ite.2 ⟨fun _ => ends_pure.2 (by rw [Expr.within]), fun _ => ends_fail.2 trivial⟩
      | operator =>
        obtain ⟨op, hop⟩ := Prefix.operator_iff.mp hr
        rw [hop]
        refine Watches.step plain_advance fun _ => ?_
        refine (watches_expression n _).bind fun right kept hright => ?_
        exact watches_pure (by rw [Expr.within, hright, List.append_nil])
      | group =>
        refine Watches.step plain_advance fun _ => ?_
        refine (watches_expression n _).bind fun inner kept hinner => ?_
        refine Watches.step (plain_demand _) fun _ => ?_
        exact watches_pure (by rw [hinner, List.append_nil])
      | conditional =>
        refine Watches.step (plain_demand _) fun _ => Watches.step plain_advance fun _ => ?_
        refine (watches_expression n _).bind fun condition kept hcondition => ?_
        refine Watches.step (plain_demand _) fun _ => ?_
        refine (watches_block n).braces fun consequence kept' hconsequence => ?_
        refine Watches.step (plain_accept _) fun more => ?_
        cases more with
        | true =>
          refine (watches_block n).braces fun alternative kept'' halternative => ?_
          exact watches_pure (by simp [Expr.within, hcondition, hconsequence, halternative])
        | false => exact watches_pure (by simp [Expr.within, hcondition, hconsequence])
      | function =>
        refine Watches.step (plain_demand _) fun _ => ?_
        have hbody : ∀ names, Watches False (fun e kept => Expr.within e = kept)
            (do
              demand .leftBrace
              return Expr.function token names (← block n))
            (do
              demand .leftBrace
              return Expr.function token names (← block n)) := by
          intro names
          refine (watches_block n).braces fun body kept hbody => ?_
          exact watches_pure (by rw [Expr.within, hbody, List.append_nil])
        refine Watches.step (plain_accept _) fun none => ?_
        cases none with
        | true => exact hbody []
        | false => exact Watches.step (plain_parameters n) hbody
      | array =>
        refine (watches_items n _).bind fun es kept hes => ?_
        exact watches_pure (by rw [Expr.within, hes, List.append_nil])

theorem watches_extend : ∀ n least left, Watches False
    (fun e kept => e.within = left.within ++ kept) (extend n least left)
    (extend n least left)
  | 0, _, _ => watches_depth
  | n + 1, least, left => by
    rw [extend, extend, Body.extend, Body.extend]
    refine Watches.step plain_next fun token => ?_
    have hstay : Watches False (fun e kept => Expr.within e = left.within ++ kept)
        (pure left) (pure left) := watches_pure (List.append_nil _).symm
    have hon : ∀ e more, Expr.within e = left.within ++ more →
        Watches False (fun e' kept => Expr.within e' = left.within ++ (more ++ kept))
          (extend n least e) (extend n least e) := by
      intro e more he
      refine (watches_extend n least e).mono id fun e' kept he' => ?_
      rw [he', he, List.append_assoc]
    refine Watches.ite (fun hl => ?_) fun _ => hstay
    obtain ⟨reader, hr⟩ := Infix.reader_of_lt hl.2
    rw [hr]
    cases reader with
    | operator =>
      obtain ⟨op, hop⟩ := Infix.operator_iff.mp hr
      rw [hop]
      refine Watches.step plain_advance fun _ => Watches.step plain_advance fun _ => ?_
      refine (watches_expression n _).bind fun right kept hright => ?_
      exact hon _ kept (by rw [Expr.within, hright])
    | call =>
      refine Watches.step plain_advance fun _ => ?_
      refine (watches_items n _).bind fun es kept hes => ?_
      exact hon _ kept (by rw [Expr.within, hes])
    | index =>
      refine Watches.step plain_advance fun _ => Watches.step plain_advance fun _ => ?_
      refine (watches_expression n _).bind fun position kept hposition => ?_
      refine Watches.step (plain_demand _) fun _ => ?_
      exact hon _ kept (by rw [Expr.within, hposition])

theorem watches_items : ∀ n closing, Watches False (fun es kept => Expr.withinAll es = kept)
    (items n closing) (items n closing)
  | 0, _ => watches_depth
  | n + 1, closing => by
    rw [items, items, Body.items, Body.items]
    refine Watches.step (plain_accept _) fun none => ?_
    cases none with
    | true => exact watches_pure (by rw [Expr.withinAll])
    | false =>
      refine Watches.step plain_advance fun _ => ?_
      refine (watches_expression n _).bind fun first kept hfirst => ?_
      refine (watches_moreItems n _).bind fun es kept' hes => ?_
      exact watches_pure (by rw [Expr.withinAll, hfirst, hes, List.append_nil])

theorem watches_moreItems : ∀ n closing, Watches False (fun es kept => Expr.withinAll es = kept)
    (moreItems n closing) (moreItems n closing)
  | 0, _ => watches_depth
  | n + 1, closing => by
    rw [moreItems, moreItems, Body.moreItems, Body.moreItems]
    refine Watches.step (plain_accept _) fun more => ?_
    cases more with
    | true =>
      refine Watches.step plain_advance fun _ => ?_
      refine (watches_expression n _).bind fun first kept hfirst => ?_
      refine (watches_moreItems n _).bind fun es kept' hes => ?_
      exact watches_pure (by rw [Expr.withinAll, hfirst, hes, List.append_nil])
    | false =>
      exact Watches.step (plain_demand _) fun _ => watches_pure (by rw [Expr.withinAll])

theorem watches_statement : ∀ n, Watches False (fun s kept => s.within = kept)
    (statement n) (statement n)
  | 0 => watches_depth
  | n + 1 => by
    rw [statement, statement, Body.statement, Body.statement]
    refine Watches.step plain_current fun token => ?_
    have hvalue : ∀ f : Expr → Stmt, (∀ e, (f e).within = e.within) →
        Watches False (fun s kept => Stmt.within s = kept)
          (do
            let value ← expression n .lowest
            let _ ← accept .semicolon
            return f value)
          (do
            let value ← expression n .lowest
            let _ ← accept .semicolon
            return f value) := by
      intro f hf
      refine (watches_expression n _).bind fun value kept hvalue => ?_
      refine Watches.step (plain_accept _) fun _ => ?_
      exact watches_pure (by rw [hf, hvalue, List.append_nil])
    cases token.kind with
    | letWord =>
      refine Watches.step (plain_demand _) fun _ => Watches.step plain_current fun name => ?_
      refine Watches.step (plain_demand _) fun _ => Watches.step plain_advance fun _ => ?_
      exact hvalue (.letName token ⟨name, name.literal⟩) fun e => by rw [Stmt.within]
    | returnWord =>
      refine Watches.step plain_advance fun _ => ?_
      exact hvalue (.returnValue token) fun e => by rw [Stmt.within]
    | _ => exact hvalue (.expression token) fun e => by rw [Stmt.within]

theorem watches_block : ∀ n, Watches True (fun b kept => b.within = kept)
    (block n) (block n)
  | 0 => watches_depth
  | n + 1 => by
    rw [block, block, Body.block, Body.block]
    refine Watches.step plain_current fun token => Watches.step plain_advance fun _ => ?_
    refine (watches_statements n).bind fun ss kept hss => ?_
    exact watches_pure (by rw [Block.within, hss, List.append_nil])

theorem watches_statements : ∀ n, Watches True (fun ss kept => Stmt.atAnyDepth ss = kept)
    (statements n) (statements n)
  | 0 => watches_depth
  | n + 1 => by
    rw [statements, statements, Body.statements, Body.statements]
    refine Watches.step plain_current fun token => ?_
    have hattempt : Watches True (fun ss kept => Stmt.atAnyDepth ss = kept)
        (do
          match ← Attempts.attempt (statement n) with
          | some first =>
            advance
            return first :: (← statements n)
          | none =>
            recover
            if (← current).kind = .rightBrace then
              return []
            else
              advance
              statements n)
        (do
          match ← Attempts.attempt (statement n) with
          | some first =>
            advance
            return first :: (← statements n)
          | none =>
            recover
            if (← current).kind = .rightBrace then
              return []
            else
              advance
              statements n) := by
      refine (watches_statement n).attempt.bind fun result kept hresult => ?_
      subst hresult
      cases result with
      | some first =>
        refine Watches.step plain_advance fun _ => ?_
        refine (watches_statements n).bind fun ss kept hss => ?_
        exact watches_pure (by simp [Stmt.atAnyDepth, hss])
      | none =>
        refine Watches.step plain_recover fun _ => Watches.step plain_current fun token => ?_
        refine Watches.ite (fun _ => watches_pure (by simp [Stmt.atAnyDepth])) fun _ => ?_
        refine Watches.step plain_advance fun _ => ?_
        exact (watches_statements n).mono id fun ss kept hss => by simp [Stmt.atAnyDepth, hss]
    cases token.kind with
    | rightBrace | endOfInput => exact watches_pure (by rw [Stmt.atAnyDepth])
    | _ => exact hattempt

end

theorem watches_program (n : Nat) : Watches True (fun prog kept => Stmt.atAnyDepth prog = kept)
    (program n) (program n) := by
  induction n with
  | zero => exact watches_depth
  | succ n ih =>
    rw [program, program, Body.program, Body.program]
    refine Watches.step plain_current fun token => ?_
    refine Watches.ite (fun _ => watches_pure (by rw [Stmt.atAnyDepth])) fun _ => ?_
    refine (watches_statement n).attempt.bind fun result kept hresult => ?_
    subst hresult
    cases result with
    | some first =>
      refine Watches.step plain_advance fun _ => ih.bind fun ss kept hss => ?_
      exact watches_pure (by simp [Stmt.atAnyDepth, hss])
    | none =>
      refine Watches.step plain_recover fun _ => Watches.step plain_advance fun _ => ?_
      exact ih.mono id fun ss kept hss => by simp [Stmt.atAnyDepth, hss]

end Parse

open Parse

/-- Each syntax error of a text drops one statement. Of the calls for a statement that reading the
text makes, in the program and in blocks at any depth, one that drops it has recorded one error
beside those of the calls within it, and one that returns it none. So as many drop it as there are
errors; what they have kept is the tree, and without an error that is what each call returned. -/
theorem errors_drop_statements (source : String) :
    let start := Parser.ofLexer (Lexer.ofString source)
    let reading := Reading.ofSource source
    ∃ calls after,
      (program start.limit : Watch Program).run ⟨start, []⟩ = .ok reading.program ⟨after, calls⟩ ∧
      after.errors = reading.errors ∧
      (∀ call ∈ Call.allOf calls, ∃ own,
        call.recorded = call.nested.flatMap Call.recorded ++ own ∧
          own.length = if call.result = none then 1 else 0) ∧
      Call.drops (Call.allOf calls) = reading.errors.length ∧
      Call.keptOf calls = Stmt.atAnyDepth reading.program ∧
      (reading.errors = [] →
        (Call.allOf calls).map Call.result = (Stmt.atAnyDepth reading.program).map some) := by
  intro start reading
  obtain ⟨q, hrun, herrors⟩ := reading_run_limit source
  obtain ⟨calls, hwatched, hmade, hkept⟩ := (watches_program _ ⟨start, []⟩).of_ok hrun
  have hrecorded : calls.flatMap Call.recorded = reading.errors := by
    rw [← herrors, hmade.errors, List.append_nil]
    rfl
  have hdrops : Call.drops (Call.allOf calls) = reading.errors.length := by
    rw [← hrecorded]
    exact Call.drops_allOf fun call hcall => (hmade.proper call hcall).drops_all
  refine ⟨calls, q, hwatched, herrors, ?_, hdrops, hkept.symm, fun hclean => ?_⟩
  · exact fun call hcall => (Call.proper_allOf hmade.proper call hcall).own
  · rw [hkept]
    refine Call.map_result_allOf calls fun call hcall hnone => ?_
    rw [hclean] at hdrops
    have hreturned := List.countP_eq_zero.mp hdrops call hcall
    rw [hnone] at hreturned
    exact hreturned rfl

/-- A statement is returned although one in its block is dropped. -/
example : (match (program 99 : Watch Program).run
      ⟨Parser.ofLexer (Lexer.ofString "f(fn() { let 1; x }); let"), []⟩ with
    | .ok _ after => (Call.allOf after.calls).map fun call =>
        (call.result.isSome, call.recorded.length)
    | .error _ _ => []) = [(true, 1), (false, 1), (true, 0), (false, 1)] := by
  decide +kernel

end MonkeyLang
