import MonkeyLang.Proofs.Parsing.Awaited

namespace MonkeyLang

open Grammar

/-- Where reading sets out: the stage at which it does, the tokens ahead and the errors recorded
before. -/
structure Course where
  start : Stage
  tokens : List Token
  errors : List SyntaxError

namespace Parser

def stream (p : Parser) : List Token := p.tokens ++ [p.endMark]

/-- No error is recorded on the course, and the tokens from the current one on are met as by a
statement that begins behind `complete` tokens and of which so much is awaited. -/
structure Awaits (course : Course) (complete : Nat) (awaited : List Awaited) (p : Parser) :
    Prop where
  clean : p.errors = course.errors
  sound : p.Sound course.errors.length
  scanned : ∃ us, course.tokens.drop complete = us ++ p.stream ∧
    scan course.start course.tokens = scan ⟨complete, us.length, awaited⟩ p.stream ∧
    (p.tokens ≠ [] → opened us = closed us + awaited.count .statements)

/-- The first error on the course is at the first token that is refused. -/
def Refused (course : Course) (complete : Nat) (p : Parser) : Prop :=
  ∃ before cause t, scan course.start course.tokens = .refused complete before cause ∧
    course.tokens[before]? = some t ∧ course.errors ++ [⟨cause, t.span⟩] <+: p.errors

def Follows (course : Course) (complete : Nat) (awaited : List Awaited) (p : Parser) : Prop :=
  p.Awaits course complete awaited ∨ p.Refused course complete

variable {course : Course} {complete : Nat} {a : Awaited} {awaited rest more : List Awaited}
  {p q : Parser}

/-- Later errors do not change the first. -/
theorem Refused.of_errors (h : p.Refused course complete) (he : p.errors <+: q.errors) :
    q.Refused course complete := by
  obtain ⟨before, cause, t, hscan, ht, hfirst⟩ := h
  exact ⟨before, cause, t, hscan, ht, hfirst.trans he⟩

theorem Refused.errors_ne (h : p.Refused course complete) : p.errors ≠ course.errors := by
  obtain ⟨_, _, _, -, -, hfirst⟩ := h
  intro he
  have hlength := hfirst.length_le
  rw [he, List.length_append, List.length_singleton] at hlength
  exact Nat.not_succ_le_self _ hlength

theorem Refused.record (h : p.Refused course complete) (cause : SyntaxError.Cause) (t : Token) :
    (p.record cause t).Refused course complete := h.of_errors (List.prefix_append _ _)

/-- Where tokens are left, the current one is the first of them. -/
theorem Awaits.stream_cons (h : p.Awaits course complete awaited)
    (hk : p.current.kind ≠ .endOfInput) :
    p.tokens = p.current :: p.advance.tokens ∧ p.stream = p.current :: p.advance.stream := by
  cases ht : p.tokens with
  | nil => exact absurd (by simp [current, ht, h.sound.endMark]) hk
  | cons t ts => simp [current, stream, Parser.advance, ht]

theorem Awaits.end_of_tokens (h : p.Awaits course complete awaited)
    (hk : p.current.kind = .endOfInput) : p.tokens = [] := h.sound.tokens_eq_nil hk

/-- The stream goes on with the current token, even at the end. -/
theorem stream_current (p : Parser) : ∃ ts, p.stream = p.current :: ts := by
  unfold stream current
  cases p.tokens with
  | nil => exact ⟨[], rfl⟩
  | cons t ts => exact ⟨_, rfl⟩

theorem current_mem_stream (p : Parser) : p.current ∈ p.stream := by
  obtain ⟨ts, hts⟩ := p.stream_current
  rw [hts]
  exact List.mem_cons_self

theorem stream_advance (p : Parser) : p.advance.stream <:+ p.stream := by
  obtain ⟨tokens, endMark, errors⟩ := p
  cases tokens with
  | nil => exact List.suffix_refl _
  | cons t ts => exact List.suffix_cons _ _

theorem next_mem_stream (p : Parser) : p.next ∈ p.stream :=
  p.stream_advance.mem p.advance.current_mem_stream

namespace Follows

theorem take (h : p.Follows course complete (a :: rest)) (hm : a.meet p.current = .take more) :
    p.advance.Follows course complete (more ++ rest) := by
  obtain h | h := h
  · have htaken := meet_take hm
    obtain ⟨htokens, hstream⟩ := h.stream_cons htaken.inside
    obtain ⟨us, hus, hscan, hbraces⟩ := h.scanned
    have hbraces := hbraces (by simp [htokens])
    refine .inl ⟨h.clean, h.sound.advance, us ++ [p.current], ?_, ?_, fun _ => ?_⟩
    · rw [hus, hstream, List.append_assoc]
      rfl
    · rw [hscan, hstream, scan_meet hm, List.length_append]
      rfl
    · have hblocks := htaken.braces
      rw [← List.singleton_append, List.count_append] at hbraces
      rw [opened_append, closed_append, List.count_append]
      omega
  · exact .inr h

theorem pass (h : p.Follows course complete (a :: rest)) (hm : a.meet p.current = .pass) :
    p.Follows course complete rest := by
  obtain h | h := h
  · obtain ⟨us, hus, hscan, hbraces⟩ := h.scanned
    obtain ⟨ts, hts⟩ := p.stream_current
    refine .inl ⟨h.clean, h.sound, us, hus, ?_, fun hne => ?_⟩
    · rw [hscan, hts, scan_meet_pass hm]
    · have hk : p.current.kind ≠ .endOfInput := fun hk => hne (h.end_of_tokens hk)
      have hpass : react [a] p.current = .pass := by rw [react, hm]; rfl
      have hnone := List.count_eq_zero.mpr (react_pass hpass hk)
      rw [hbraces hne, ← List.singleton_append, List.count_append, hnone, Nat.zero_add]
  · exact .inr h

theorem refuse {cause : SyntaxError.Cause} (h : p.Follows course complete (a :: rest))
    (hm : a.meet p.current = .refuse cause) :
    (p.record cause p.current).Refused course complete := by
  obtain h | h := h
  · obtain ⟨us, hus, hscan, -⟩ := h.scanned
    obtain ⟨ts, hts⟩ := p.stream_current
    refine ⟨complete + us.length, cause, p.current, ?_, ?_, ?_⟩
    · rw [hscan, hts, scan_refuses (by rw [react, hm])]
    · rw [← List.getElem?_drop, hus, hts]
      simp
    · rw [← h.clean]
      exact List.prefix_refl _
  · exact h.record cause p.current

/-- What is awaited may be told in another way. -/
theorem exchange (h : p.Follows course complete awaited)
    (hr : react rest p.current = react awaited p.current)
    (hc : rest.count .statements = awaited.count .statements) :
    p.Follows course complete rest := by
  obtain h | h := h
  · obtain ⟨us, hus, hscan, hbraces⟩ := h.scanned
    obtain ⟨ts, hts⟩ := p.stream_current
    refine .inl ⟨h.clean, h.sound, us, hus, ?_, ?_⟩
    · rw [hscan, hts, scan_of_react hr]
    · rwa [hc]
  · exact .inr h

/-- Nothing is left behind the end. -/
theorem stay (h : p.Follows course complete awaited) (hk : p.current.kind = .endOfInput) :
    p.advance.Follows course complete awaited := by
  obtain h | h := h
  · have hp : p.advance = p := by
      have hnil := h.end_of_tokens hk
      obtain ⟨tokens, endMark, errors⟩ := p
      obtain rfl : tokens = [] := hnil
      rfl
    rw [hp]
    exact .inl h
  · exact .inr h

end Follows

end Parser

namespace Parse

open MonkeyLang.Parser

variable {α β : Type} {course : Course} {complete : Nat} {p : Parser}

/-- The run takes what is awaited of it, so that `rest` is awaited then, or it meets the first
error. -/
def Runs (course : Course) (complete : Nat) (rest : List Awaited) (x : Parse α) (p : Parser) :
    Prop :=
  Ends x p (fun _ q => q.advance.Follows course complete rest) fun s q =>
    s = .syntaxError → q.Refused course complete

section
variable {rest more : List Awaited} {a : Awaited}

theorem Runs.bind {x : Parse α} {f : α → Parse β} {between : List Awaited}
    (hx : Runs course complete between x p)
    (hf : ∀ a q, q.advance.Follows course complete between → Runs course complete rest (f a) q) :
    Runs course complete rest (x >>= f) p :=
  ends_bind.2 (hx.mono (fun a q hq => hf a q hq) fun _ _ hs => hs)

/-- A run that is given up at its limit on recursion tells nothing. -/
theorem runs_depth : Runs course complete rest (throw .depth : Parse α) p := by
  intro h
  cases h

/-- After an attempt, errors apart, more is awaited, and otherwise the first error is met. -/
theorem Runs.attempt {x : Parse α} {f : Option α → Parse β} {between : List Awaited}
    (hx : Runs course complete between x p)
    (hs : ∀ a q, q.advance.Follows course complete between →
      Runs course complete rest (f (some a)) q)
    (hn : ∀ q, q.Refused course complete → Runs course complete rest (f none) q) :
    Runs course complete rest (attempt x >>= f) p := by
  refine ends_bind.2 (ends_attempt.2 (hx.mono (fun a q hq => hs a q hq) fun s q hr => ⟨?_, ?_⟩))
  · exact fun h => hn q (hr h)
  · rintro rfl
    simp

theorem runs_recover {f : Unit → Parse β}
    (h : Runs course complete rest (f ()) { p with tokens := Parser.abandon p.tokens }) :
    Runs course complete rest (recover >>= f) p := h

theorem runs_current {f : Token → Parse β} (h : Runs course complete rest (f p.current) p) :
    Runs course complete rest (current >>= f) p := h

theorem runs_next {f : Token → Parse β} (h : Runs course complete rest (f p.next) p) :
    Runs course complete rest (next >>= f) p := h

theorem runs_advance {f : Unit → Parse β} (h : Runs course complete rest (f ()) p.advance) :
    Runs course complete rest (advance >>= f) p := h

theorem runs_fail {cause : SyntaxError.Cause} {t : Token}
    (h : (p.record cause t).Refused course complete) :
    Runs course complete rest (fail cause t : Parse α) p := fun _ => h

theorem runs_demand {kind : Token.Kind} (h : p.advance.Follows course complete (a :: rest))
    (ha : ∀ t, a.meet t = demanded kind more t) :
    Runs course complete (more ++ rest) (demand kind) p := by
  refine ends_demand.2 ⟨fun hk => h.take ?_, fun hk _ => ?_⟩
  · rw [ha]
    exact if_pos hk
  · have hrefused : a.meet p.advance.current = .refuse (.unexpected kind p.next.kind) := by
      rw [ha]
      exact if_neg hk
    exact (h.refuse hrefused).of_errors (List.prefix_refl _)

/-- What is demanded by itself. -/
theorem runs_mark {m : Mark} (h : p.advance.Follows course complete (.mark m :: rest)) :
    Runs course complete rest (demand m.kind) p := runs_demand h fun _ => rfl

theorem runs_brace (h : p.advance.Follows course complete (.block :: rest)) :
    Runs course complete (.statements :: rest) (demand .leftBrace) p :=
  runs_demand h fun _ => rfl

/-- The next token may be taken. -/
theorem runs_accept {kind : Token.Kind} {f : Bool → Parse β}
    (ht : p.next.kind = kind → Runs course complete rest (f true) p.advance)
    (hf : p.next.kind ≠ kind → Runs course complete rest (f false) p) :
    Runs course complete rest (accept kind >>= f) p := ends_bind.2 (ends_accept.2 ⟨ht, hf⟩)

theorem runs_semicolon {s : Stmt} (h : p.advance.Follows course complete (.semicolon :: rest)) :
    Runs course complete rest (accept .semicolon >>= fun _ => pure s) p :=
  runs_accept (fun hk => h.take (if_pos hk)) fun hk => h.pass (if_neg hk)

theorem runs_integer (h : p.Follows course complete (.operand :: rest))
    (hk : p.current.kind = .integer) : Runs course complete rest (integer p.current) p := by
  unfold integer
  have hmeet : Awaited.operand.meet p.current = if number p.current < Nat.pow 2 63 then .take []
      else .refuse (.integerTooLarge p.current.literal) := by
    simp only [Awaited.meet, beginOperand, hk]
  exact ends_ite.2 ⟨fun hn => h.take (hmeet.trans (if_pos hn)),
    fun hn _ => h.refuse (hmeet.trans (if_neg hn))⟩

theorem runs_parameters (n : Nat) (p : Parser)
    (h : p.advance.Follows course complete (.mark .name :: .moreParameters :: rest)) :
    Runs course complete rest (parameters n) p := by
  induction n generalizing p with
  | zero => exact runs_depth
  | succ n ih =>
    rw [parameters, Body.parameters]
    refine Runs.bind (runs_mark h) fun _ q h => ?_
    refine runs_current (runs_accept (fun hk => ?_) fun hk => ?_)
    · have hcomma : Awaited.moreParameters.meet q.advance.current =
          .take [.mark .name, .moreParameters] := if_pos hk
      exact (ih q.advance (h.take hcomma)).bind fun _ _ h => h
    · have hclose := h.exchange (react_moreParameters hk rest) rfl
      exact Runs.bind (runs_mark hclose) fun _ _ h => h

end

-- The induction is on the limit of recursion. What `rest` is changes from call to call: it is all
-- that the callers still await, so that a construct is done where just `rest` is left.

mutual

theorem runs_expression : ∀ n least p rest,
    p.Follows course complete (.expression least :: rest) →
      Runs course complete rest (expression n least) p
  | 0, _, _, _, _ => runs_depth
  | n + 1, least, p, rest, h => by
    rw [expression, Body.expression]
    have hoperand := h.exchange (react_expression least p.current rest) rfl
    exact (runs_operand n p _ hoperand).bind fun left q h => runs_extend n least left q rest h
termination_by structural n => n

theorem runs_operand : ∀ n p rest, p.Follows course complete (.operand :: rest) →
    Runs course complete rest (operand n) p
  | 0, _, _, _ => runs_depth
  | n + 1, p, rest, h => by
    rw [operand, Body.operand]
    apply runs_current
    have hmeet : Awaited.operand.meet p.current = beginOperand p.current := rfl
    rw [beginOperand] at hmeet
    cases hk : p.current.kind with
    | name | string | trueWord | falseWord =>
      simp only [hk] at hmeet
      exact h.take hmeet
    | integer => exact runs_integer h hk
    | bang | minus =>
      simp only [hk] at hmeet
      exact runs_advance ((runs_expression n _ _ _ (h.take hmeet)).bind fun _ _ h => h)
    | leftParen =>
      simp only [hk] at hmeet
      refine runs_advance ((runs_expression n _ _ _ (h.take hmeet)).bind fun _ q h => ?_)
      exact (runs_mark h).bind fun _ _ h => h
    | leftBracket =>
      simp only [hk] at hmeet
      exact (runs_items n .rightBracket p _ (h.take hmeet)).bind fun _ _ h => h
    | ifWord =>
      simp only [hk] at hmeet
      refine (runs_mark (h.take hmeet)).bind fun _ q h => ?_
      refine runs_advance ((runs_expression n _ _ _ h).bind fun _ q h => ?_)
      refine (runs_mark h).bind fun _ q h => ?_
      refine (runs_brace h).bind fun _ q h => ?_
      refine (runs_block n q _ h).bind fun _ q h => ?_
      refine runs_accept (fun hk => ?_) fun hk => h.pass (if_neg hk)
      refine (runs_brace (h.take (if_pos hk))).bind fun _ q h => ?_
      exact (runs_block n q _ h).bind fun _ _ h => h
    | fnWord =>
      simp only [hk] at hmeet
      refine (runs_mark (h.take hmeet)).bind fun _ q h => ?_
      have hbody : ∀ names (q : Parser), q.advance.Follows course complete (.block :: rest) →
          Runs course complete rest
            (do
              Parse.demand .leftBrace
              return Expr.function p.current names (← Parse.block n)) q := by
        intro names q h
        exact (runs_brace h).bind fun _ q h => (runs_block n q _ h).bind fun _ _ h => h
      refine runs_accept (fun hk => ?_) fun hk => ?_
      · exact Runs.bind (x := pure []) (h.take (if_pos hk)) hbody
      · exact (runs_parameters n q (h.exchange (react_parameters hk _) rfl)).bind hbody
    | _ =>
      simp only [hk] at hmeet
      exact runs_fail (h.refuse hmeet)
termination_by structural n => n

theorem runs_extend : ∀ n least left p rest,
    p.advance.Follows course complete (.extension least :: rest) →
      Runs course complete rest (extend n least left) p
  | 0, _, _, _, _, _ => runs_depth
  | n + 1, least, left, p, rest, h => by
    rw [extend, Body.extend]
    apply runs_next
    have hmeet : (Awaited.extension least).meet p.advance.current = goOn least p.next := rfl
    rw [goOn] at hmeet
    split
    · next hl =>
      rw [if_pos (goesOn_iff.mp hl)] at hmeet
      cases hk : p.next.kind with
      | leftParen =>
        simp only [hk] at hmeet
        refine runs_advance ((runs_items n .rightParen _ _ (h.take hmeet)).bind fun _ q h => ?_)
        exact runs_extend n least _ q rest h
      | leftBracket =>
        simp only [hk] at hmeet
        refine runs_advance (runs_advance ?_)
        refine (runs_expression n _ _ _ (h.take hmeet)).bind fun _ q h => ?_
        exact (runs_mark h).bind fun _ q h => runs_extend n least _ q rest h
      | _ =>
        simp only [hk, InfixOp.ofKind?] at hmeet
        first
        | exact h.pass hmeet
        | refine runs_advance (runs_advance ?_)
          refine (runs_expression n _ _ _ (h.take hmeet)).bind fun _ q h => ?_
          exact runs_extend n least _ q rest h
    · next hl => exact h.pass (hmeet.trans (if_neg (mt goesOn_iff.mpr hl)))
termination_by structural n => n

theorem runs_items : ∀ n (closing : Closer) p rest,
    p.advance.Follows course complete (.items closing :: rest) →
      Runs course complete rest (items n closing.kind) p
  | 0, _, _, _, _ => runs_depth
  | n + 1, closing, p, rest, h => by
    rw [items, Body.items]
    refine runs_accept (fun hk => h.take (if_pos hk)) fun hk => runs_advance ?_
    have hfirst := h.exchange (react_items hk rest) rfl
    refine (runs_expression n _ _ _ hfirst).bind fun _ q h => ?_
    exact (runs_moreItems n closing q rest h).bind fun _ _ h => h
termination_by structural n => n

theorem runs_moreItems : ∀ n (closing : Closer) p rest,
    p.advance.Follows course complete (.moreItems closing :: rest) →
      Runs course complete rest (moreItems n closing.kind) p
  | 0, _, _, _, _ => runs_depth
  | n + 1, closing, p, rest, h => by
    rw [moreItems, Body.moreItems]
    refine runs_accept (fun hk => runs_advance ?_) fun hk => ?_
    · refine (runs_expression n _ _ _ (h.take (if_pos hk))).bind fun _ q h => ?_
      exact (runs_moreItems n closing q rest h).bind fun _ _ h => h
    · exact (runs_mark (h.exchange (react_moreItems hk rest) rfl)).bind fun _ _ h => h
termination_by structural n => n

theorem runs_statement : ∀ n p rest, p.Follows course complete (.statement :: rest) →
    Runs course complete rest (statement n) p
  | 0, _, _, _ => runs_depth
  | n + 1, p, rest, h => by
    rw [statement, Body.statement]
    apply runs_current
    have hmeet : Awaited.statement.meet p.current = beginStatement p.current := rfl
    rw [beginStatement] at hmeet
    split
    · next hk =>
      simp only [hk] at hmeet
      refine (runs_mark (h.take hmeet)).bind fun _ q h => runs_current ?_
      refine (runs_mark h).bind fun _ q h => runs_advance ?_
      exact (runs_expression n _ _ _ h).bind fun _ q h => runs_semicolon h
    · next hk =>
      simp only [hk] at hmeet
      refine runs_advance ?_
      exact (runs_expression n _ _ _ (h.take hmeet)).bind fun _ q h => runs_semicolon h
    · next hlet hreturn =>
      have hvalue := h.exchange (react_statement ⟨hlet, hreturn⟩ rest) rfl
      exact (runs_expression n _ _ _ hvalue).bind fun _ q h => runs_semicolon h
termination_by structural n => n

theorem runs_block : ∀ n p rest, p.advance.Follows course complete (.statements :: rest) →
    Runs course complete rest (block n) p
  | 0, _, _, _ => runs_depth
  | n + 1, p, rest, h => by
    rw [block, Body.block]
    exact runs_current (runs_advance ((runs_statements n _ _ h).bind fun _ _ h => h))
termination_by structural n => n

theorem runs_statements : ∀ n p rest, p.Follows course complete (.statements :: rest) →
    Runs course complete rest (statements n) p
  | 0, _, _, _ => runs_depth
  | n + 1, p, rest, h => by
    rw [statements, Body.statements]
    apply runs_current
    split
    · next hk =>
      have hclose : Awaited.statements.meet p.current = .take [] := by rw [Awaited.meet, hk]
      exact h.take hclose
    · next hk =>
      have hend : Awaited.statements.meet p.current = .pass := by rw [Awaited.meet, hk]
      exact (h.pass hend).stay hk
    · next hclose hend =>
      have hfirst := h.exchange (react_statements ⟨hclose, hend⟩ rest) rfl
      refine (runs_statement n p _ hfirst).attempt (fun first q h => ?_) fun q hq => ?_
      · exact runs_advance ((runs_statements n _ _ h).bind fun _ _ h => h)
      · -- Behind the first error all that matters is that it stays the first.
        apply runs_recover
        apply runs_current
        split
        · exact .inr hq
        · exact runs_advance (runs_statements n _ _ (.inr hq))
termination_by structural n => n

end

end Parse

end MonkeyLang
