import MonkeyLang.Proofs.Parsing.FirstError

namespace MonkeyLang

open Grammar

namespace SyntaxError

/-- The cause tells of this token. -/
def Cause.Tells : Cause → Token → Prop
  | .unexpected expected actual, t => t.kind = actual ∧ actual ≠ expected
  | .noOperand found, t => t.kind = found
  | .integerTooLarge digits, t => t.kind = .integer ∧ t.literal = digits ∧ Nat.pow 2 63 ≤ number t

/-- The error is at this token and tells of it. -/
structure At (error : SyntaxError) (t : Token) : Prop where
  span : error.span = t.span
  cause : error.cause.Tells t

end SyntaxError

namespace Parse

/-- A fact about a parser and the token that it faces which lasts as the parser advances and as it
records an error at this token. -/
structure Lasting (I : Parser → Prop) : Prop where
  advance : ∀ {p}, I p → I p.advance
  record : ∀ {p cause}, I p → cause.Tells p.current → I (p.record cause p.current)

/-- However the run ends, the fact holds of the token behind. -/
def Carries {α : Type} (I : Parser → Prop) (x : Parse α) (p : Parser) : Prop :=
  Ends x p (fun _ q => I q.advance) fun s q => s = .syntaxError → I q.advance

section
variable {α β : Type} {I : Parser → Prop} {p : Parser}

theorem Carries.bind {x : Parse α} {f : α → Parse β} (hx : Carries I x p)
    (hf : ∀ a q, I q.advance → Carries I (f a) q) : Carries I (x >>= f) p :=
  ends_bind.2 (hx.mono (fun a q hq => hf a q hq) fun _ _ hs => hs)

theorem carries_current {f : Token → Parse β} (h : Carries I (f p.current) p) :
    Carries I (current >>= f) p := h

theorem carries_next {f : Token → Parse β} (h : Carries I (f p.next) p) :
    Carries I (next >>= f) p := h

theorem carries_advance {f : Unit → Parse β} (h : Carries I (f ()) p.advance) :
    Carries I (advance >>= f) p := h

theorem carries_depth : Carries I (throw .depth : Parse α) p := by
  intro h
  cases h

/-- After a statement, read or not, the fact holds of the token behind. -/
theorem Carries.attempt {x : Parse α} {f : Option α → Parse β} (hx : Carries I x p)
    (hf : ∀ result q, I q.advance → Carries I (f result) q) : Carries I (attempt x >>= f) p := by
  refine ends_bind.2 (ends_attempt.2 (hx.mono (fun a q hq => hf (some a) q hq) fun s q hq => ?_))
  refine ⟨fun hs => hf none q (hq hs), ?_⟩
  rintro rfl hs
  cases hs

variable (l : Lasting I)
include l

/-- What is given up is passed token by token. -/
theorem Lasting.abandon : ∀ (tokens : List Token) (p : Parser), p.tokens = tokens → I p.advance →
    I (Parser.advance { p with tokens := Parser.abandon tokens })
  | [], p, ht, h => by
    have hstay : Parser.abandon [] = p.tokens := ht.symm
    rwa [hstay]
  | [token], p, ht, h => by
    have hstay : Parser.abandon [token] = p.tokens := ht.symm
    rwa [hstay]
  | token :: next :: rest, p, ht, h => by
    rw [Parser.abandon]
    split
    · rwa [← ht]
    · have htokens : p.advance.tokens = next :: rest := by simp [Parser.advance, ht]
      exact abandon (next :: rest) p.advance htokens (l.advance h)

theorem carries_recover {f : Unit → Parse β} (h : I p.advance)
    (hf : ∀ q, I q.advance → Carries I (f ()) q) : Carries I (recover >>= f) p :=
  hf _ (l.abandon p.tokens p rfl h)

theorem carries_demand (h : I p.advance) (kind : Token.Kind) : Carries I (demand kind) p := by
  refine ends_demand.2 ⟨fun _ => l.advance h, fun hk _ => ?_⟩
  have htells : (SyntaxError.Cause.unexpected kind p.next.kind).Tells p.advance.current :=
    ⟨rfl, hk⟩
  exact l.record h htells

theorem carries_accept (h : I p.advance) (kind : Token.Kind) : Carries I (accept kind) p :=
  ends_accept.2 ⟨fun _ => l.advance h, fun _ => h⟩

theorem carries_fail {cause : SyntaxError.Cause} (h : I p) (hc : cause.Tells p.current) :
    Carries I (fail cause p.current : Parse α) p := fun _ => l.advance (l.record h hc)

theorem carries_integer (h : I p) (hk : p.current.kind = .integer) :
    Carries I (integer p.current) p := by
  unfold integer
  refine ends_ite.2 ⟨fun _ => l.advance h, fun hn => ?_⟩
  exact carries_fail l h ⟨hk, rfl, Nat.le_of_not_lt hn⟩

theorem carries_parameters (n : Nat) (p : Parser) (h : I p.advance) :
    Carries I (parameters n) p := by
  induction n generalizing p with
  | zero => exact carries_depth
  | succ n ih =>
    rw [parameters, Body.parameters]
    refine (carries_demand l h _).bind fun _ q h => carries_current ?_
    refine (carries_accept l h _).bind fun more q h => ?_
    cases more with
    | true => exact (ih q h).bind fun _ _ h => h
    | false => exact (carries_demand l h _).bind fun _ _ h => h

end

-- What begins with its own token needs the fact of the current token, and what goes on behind
-- others needs it of the next.

mutual

theorem carries_expression {I : Parser → Prop} (l : Lasting I) : ∀ n least p, I p →
    Carries I (expression n least) p
  | 0, _, _, _ => carries_depth
  | n + 1, least, p, h => by
    rw [expression, Body.expression]
    exact (carries_operand l n p h).bind fun left q h => carries_extend l n least left q h

theorem carries_operand {I : Parser → Prop} (l : Lasting I) : ∀ n p, I p → Carries I (operand n) p
  | 0, _, _ => carries_depth
  | n + 1, p, h => by
    rw [operand, Body.operand]
    apply carries_current
    have hnext := l.advance h
    cases hr : Prefix.ofKind? p.current.kind with
    | none => exact carries_fail l h rfl
    | some reader =>
      cases reader with
      | name | string | boolean => exact hnext
      | integer => exact carries_integer l h (Prefix.integer_iff.mp hr)
      | operator =>
        obtain ⟨op, hop⟩ := Prefix.operator_iff.mp hr
        rw [hop]
        exact carries_advance ((carries_expression l n _ _ hnext).bind fun _ _ h => h)
      | group =>
        refine carries_advance ((carries_expression l n _ _ hnext).bind fun _ q h => ?_)
        exact (carries_demand l h _).bind fun _ _ h => h
      | conditional =>
        refine (carries_demand l hnext _).bind fun _ q h => carries_advance ?_
        refine (carries_expression l n _ _ h).bind fun _ q h => ?_
        refine (carries_demand l h _).bind fun _ q h => ?_
        refine (carries_demand l h _).bind fun _ q h => ?_
        refine (carries_block l n q h).bind fun _ q h => ?_
        refine (carries_accept l h _).bind fun more q h => ?_
        cases more with
        | true =>
          refine (carries_demand l h _).bind fun _ q h => ?_
          exact (carries_block l n q h).bind fun _ _ h => h
        | false => exact h
      | function =>
        refine (carries_demand l hnext _).bind fun _ q h => ?_
        have hbody : ∀ names (q : Parser), I q.advance → Carries I
            (do
              Parse.demand .leftBrace
              return Expr.function p.current names (← Parse.block n)) q := by
          intro names q h
          refine (carries_demand l h _).bind fun _ q h => ?_
          exact (carries_block l n q h).bind fun _ _ h => h
        refine (carries_accept l h _).bind fun none q h => ?_
        cases none with
        | true => exact Carries.bind (x := pure []) h hbody
        | false => exact (carries_parameters l n q h).bind hbody
      | array => exact (carries_items l n _ p hnext).bind fun _ _ h => h

theorem carries_extend {I : Parser → Prop} (l : Lasting I) : ∀ n least left p, I p.advance →
    Carries I (extend n least left) p
  | 0, _, _, _, _ => carries_depth
  | n + 1, least, left, p, h => by
    rw [extend, Body.extend]
    apply carries_next
    have hbehind := l.advance h
    split
    · next hl =>
      obtain ⟨reader, hr⟩ := Infix.reader_of_lt hl.2
      rw [hr]
      cases reader with
      | operator =>
        obtain ⟨op, hop⟩ := Infix.operator_iff.mp hr
        rw [hop]
        refine carries_advance (carries_advance ?_)
        refine (carries_expression l n _ _ hbehind).bind fun _ q h => ?_
        exact carries_extend l n _ _ q h
      | call =>
        refine carries_advance ((carries_items l n _ _ hbehind).bind fun _ q h => ?_)
        exact carries_extend l n _ _ q h
      | index =>
        refine carries_advance (carries_advance ?_)
        refine (carries_expression l n _ _ hbehind).bind fun _ q h => ?_
        exact (carries_demand l h _).bind fun _ q h => carries_extend l n _ _ q h
    · exact h

theorem carries_items {I : Parser → Prop} (l : Lasting I) : ∀ n closing p, I p.advance →
    Carries I (items n closing) p
  | 0, _, _, _ => carries_depth
  | n + 1, closing, p, h => by
    rw [items, Body.items]
    refine (carries_accept l h _).bind fun none q h => ?_
    cases none with
    | true => exact h
    | false =>
      refine carries_advance ((carries_expression l n _ _ h).bind fun _ q h => ?_)
      exact (carries_moreItems l n _ q h).bind fun _ _ h => h

theorem carries_moreItems {I : Parser → Prop} (l : Lasting I) : ∀ n closing p, I p.advance →
    Carries I (moreItems n closing) p
  | 0, _, _, _ => carries_depth
  | n + 1, closing, p, h => by
    rw [moreItems, Body.moreItems]
    refine (carries_accept l h _).bind fun more q h => ?_
    cases more with
    | true =>
      refine carries_advance ((carries_expression l n _ _ h).bind fun _ q h => ?_)
      exact (carries_moreItems l n _ q h).bind fun _ _ h => h
    | false => exact (carries_demand l h _).bind fun _ _ h => h

theorem carries_statement {I : Parser → Prop} (l : Lasting I) : ∀ n p, I p →
    Carries I (statement n) p
  | 0, _, _ => carries_depth
  | n + 1, p, h => by
    rw [statement, Body.statement]
    apply carries_current
    have hnext := l.advance h
    split
    · refine (carries_demand l hnext _).bind fun _ q h => carries_current ?_
      refine (carries_demand l h _).bind fun _ q h => carries_advance ?_
      refine (carries_expression l n _ _ h).bind fun _ q h => ?_
      exact (carries_accept l h _).bind fun _ _ h => h
    · refine carries_advance ((carries_expression l n _ _ hnext).bind fun _ q h => ?_)
      exact (carries_accept l h _).bind fun _ _ h => h
    · refine (carries_expression l n _ p h).bind fun _ q h => ?_
      exact (carries_accept l h _).bind fun _ _ h => h

theorem carries_block {I : Parser → Prop} (l : Lasting I) : ∀ n p, I p.advance →
    Carries I (block n) p
  | 0, _, _ => carries_depth
  | n + 1, p, h => by
    rw [block, Body.block]
    refine carries_current (carries_advance ?_)
    exact (carries_statements l n _ h).bind fun _ _ h => h

theorem carries_statements {I : Parser → Prop} (l : Lasting I) : ∀ n p, I p →
    Carries I (statements n) p
  | 0, _, _ => carries_depth
  | n + 1, p, h => by
    rw [statements, Body.statements]
    apply carries_current
    split
    · exact l.advance h
    · exact l.advance h
    · refine (carries_statement l n p h).attempt fun result q h => ?_
      cases result with
      | some first =>
        exact carries_advance ((carries_statements l n _ h).bind fun _ _ h => h)
      | none =>
        refine carries_recover l h fun q h => carries_current ?_
        split
        · exact h
        · exact carries_advance (carries_statements l n _ h)

end

theorem carries_program {I : Parser → Prop} (l : Lasting I) (n : Nat) (p : Parser) (h : I p) :
    Carries I (program n) p := by
  induction n generalizing p with
  | zero => exact carries_depth
  | succ n ih =>
    rw [program, Body.program]
    apply carries_current
    split
    · exact l.advance h
    · refine (carries_statement l n p h).attempt fun result q h => ?_
      cases result with
      | some first => exact carries_advance ((ih _ h).bind fun _ _ h => h)
      | none => exact carries_recover l h fun q h => carries_advance (ih _ h)

end Parse

namespace Parser

variable {stream : List Token} {p : Parser}

/-- The errors are at tokens of the stream, in order and none behind the token that the parser
faces. -/
structure Ordered (stream : List Token) (p : Parser) : Prop where
  ahead : p.stream <:+ stream
  told : ∀ e ∈ p.errors, ∃ t ∈ stream, e.At t
  sorted : p.errors.Pairwise fun e e' => e.span.start ≤ e'.span.start
  behind : ∀ e ∈ p.errors, e.span.start ≤ p.current.span.start

theorem Ordered.current_mem (h : p.Ordered stream) : p.current ∈ stream :=
  h.ahead.mem p.current_mem_stream

/-- The next token is behind the current one, or there is none. -/
theorem Ordered.advance_le (hs : stream.Pairwise fun t u => t.span.start ≤ u.span.start)
    (h : p.Ordered stream) : p.advance.stream <:+ p.stream ∧
      p.current.span.start ≤ p.advance.current.span.start := by
  refine ⟨p.stream_advance, ?_⟩
  have hsorted := hs.sublist h.ahead.sublist
  obtain ⟨tokens, endMark, errors⟩ := p
  cases tokens with
  | nil => exact Nat.le_refl _
  | cons t ts =>
    have hbehind := (List.pairwise_cons.mp hsorted).1
    exact hbehind _ (Parser.current_mem_stream ⟨ts, endMark, errors⟩)

theorem ordered_lasting (hs : stream.Pairwise fun t u => t.span.start ≤ u.span.start) :
    Parse.Lasting (Ordered stream) where
  advance {p} h := by
    obtain ⟨hsuffix, hle⟩ := h.advance_le hs
    exact ⟨hsuffix.trans h.ahead, h.told, h.sorted,
      fun e he => Nat.le_trans (h.behind e he) hle⟩
  record {p cause} h hc := by
    refine ⟨h.ahead, ?_, ?_, ?_⟩
    · intro e he
      obtain he | he := List.mem_append.mp he
      · exact h.told e he
      · obtain rfl := List.mem_singleton.mp he
        exact ⟨p.current, h.current_mem, rfl, hc⟩
    · refine List.pairwise_append.mpr ⟨h.sorted, List.pairwise_singleton _ _, ?_⟩
      intro e he e' he'
      obtain rfl := List.mem_singleton.mp he'
      exact h.behind e he
    · intro e he
      obtain he | he := List.mem_append.mp he
      · exact h.behind e he
      · obtain rfl := List.mem_singleton.mp he
        exact Nat.le_refl _

end Parser

open Parse Lexer

theorem endMark_start (source : String) :
    (ofString source).endMark.span.start = source.utf8ByteSize := by
  rw [utf8ByteSize_eq]
  simp [ofString, endMark, remaining, Token.endAt]

/-- The tokens of a text stand one behind the other, and the mark of the end behind them all. -/
theorem stream_ordered (source : String) :
    (Lexer.stream source).Pairwise fun t u => t.span.stop ≤ u.span.start := by
  have htiles := tokens_tile _ (Scanner.ofString_at source)
  refine List.pairwise_append.mpr ⟨htiles.ordered, List.pairwise_singleton _ _, ?_⟩
  intro t ht u hu
  obtain rfl := List.mem_singleton.mp hu
  rw [endMark_start]
  exact (htiles.stands t ht).stop_le

theorem stop_le_of_mem_stream {source : String} {t : Token} (h : t ∈ Lexer.stream source) :
    t.span.stop ≤ source.utf8ByteSize := by
  obtain h | h := List.mem_append.mp h
  · have htiles := tokens_tile _ (Scanner.ofString_at source)
    exact (htiles.stands t h).stop_le
  · obtain rfl := List.mem_singleton.mp h
    exact Nat.le_of_eq (endMark_start source)

/-- When a text has been read, the parser has recorded its errors at tokens of the text, in
order. -/
theorem reading_ordered (source : String) : ∃ p : Parser,
    p.errors = (Reading.ofSource source).errors ∧ p.Ordered (Lexer.stream source) := by
  obtain ⟨q, hrun, herrors⟩ := reading_run_limit source
  have hsorted : (Lexer.stream source).Pairwise fun t u => t.span.start ≤ u.span.start :=
    (stream_ordered source).imp fun h => Nat.le_trans (Nat.le_add_right _ _) h
  have hstart : (Parser.ofLexer (ofString source)).Ordered (Lexer.stream source) :=
    ⟨List.suffix_refl _, by simp [Parser.ofLexer], .nil, by simp [Parser.ofLexer]⟩
  have hlasting := Parser.ordered_lasting hsorted
  exact ⟨q.advance, herrors, (carries_program hlasting _ _ hstart).of_ok hrun⟩

/-- The syntax errors of a text are at its tokens, the end of it among them, and so within the text,
and they are recorded in the order of these tokens. -/
theorem errors_in_source_order (source : String) :
    (∀ e ∈ (Reading.ofSource source).errors, ∃ t ∈ Lexer.stream source, e.At t ∧
      e.span.stop ≤ source.utf8ByteSize) ∧
    (Reading.ofSource source).errors.Pairwise fun e e' => e.span.start ≤ e'.span.start := by
  obtain ⟨p, hsame, hordered⟩ := reading_ordered source
  rw [← hsame]
  refine ⟨fun e he => ?_, hordered.sorted⟩
  obtain ⟨t, ht, hat⟩ := hordered.told e he
  refine ⟨t, ht, hat, ?_⟩
  rw [hat.span]
  exact stop_le_of_mem_stream ht

end MonkeyLang
