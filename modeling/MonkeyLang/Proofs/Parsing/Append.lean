import Mathlib.Data.List.Infix
import MonkeyLang.Proofs.Lexing.Append
import MonkeyLang.Proofs.Parsing.Lockstep
import MonkeyLang.Proofs.Parsing.Reading

namespace MonkeyLang

open Grammar

/-- No more braces are closed than have been opened, and in the end as many. -/
structure BracesBalanced (ts : List Token) : Prop where
  front : ∀ front, front <+: ts → closed front ≤ opened front
  total : opened ts = closed ts

theorem BracesBalanced.behind {ts rest : List Token} (h : BracesBalanced ts) (hr : rest <:+ ts) :
    opened rest ≤ closed rest := by
  obtain ⟨front, rfl⟩ := hr
  have hfront := h.front front (List.prefix_append _ _)
  have htotal := h.total
  rw [opened_append, closed_append] at htotal
  omega

instance (ts : List Token) : Decidable (BracesBalanced ts) :=
  decidable_of_iff ((∀ front ∈ ts.inits, closed front ≤ opened front) ∧ opened ts = closed ts)
    ⟨fun h => ⟨fun front hf => h.1 front ((List.mem_inits _ _).mpr hf), h.2⟩,
      fun h => ⟨fun front hf => h.front front ((List.mem_inits _ _).mp hf), h.total⟩⟩

theorem EndsClosed.suffix {ts rest : List Token} (h : EndsClosed ts) (hr : rest <:+ ts) :
    EndsClosed rest := by
  intro t ht
  obtain ⟨front, rfl⟩ := hr
  apply h
  simp [List.getLast?_append, Option.mem_def.mp ht]

namespace Parse

/-- A statement of the program, or nothing where one is left out. -/
def statementOrNone (n : Nat) : Parse (Option Stmt) := do
  match ← attempt (statement n) with
  | some first => return some first
  | none => do
    recover
    return none

theorem program_succ (n : Nat) : (program (n + 1) : Parse Program) = do
    if (← current).kind = .endOfInput then
      return []
    else
      let first ← statementOrNone n
      advance
      return first.toList ++ (← program n) := by
  rw [program, Body.program]
  unfold statementOrNone
  congr
  funext token
  split
  · rfl
  · rw [bind_assoc]
    congr
    funext first
    cases first with
    | some first => rfl
    | none => simp

section
variable {f : Span → Span} {R : Nat → Parser → Parser → Prop}

theorem Lockstep.statementOrNone (L : Lockstep f R) (n m : Nat) {p q : Parser} (h : R 0 p q) :
    Together (statementOrNone n) (statementOrNone m) p q
      (fun s s' p' q' => s' = s.map (Stmt.mapSpans f) ∧ R 0 p' q') fun _ _ => False := by
  unfold Parse.statementOrNone
  refine (L.statement n m 0 p q h).attempt (fun s s' p' q' hs => ?_) fun p' q' h => ?_
  · obtain ⟨rfl, h, -⟩ := hs
    exact together_pure ⟨rfl, h⟩
  · exact together_recover (together_pure ⟨rfl, L.recover h⟩)

end

end Parse

namespace Parser

/-- The parser with the spans of its tokens and errors changed, and with other errors before. -/
def moved (f : Span → Span) (before : List SyntaxError) (p : Parser) : Parser :=
  ⟨p.tokens.map (Token.mapSpan f), p.endMark.mapSpan f,
    before ++ p.errors.map (SyntaxError.mapSpan f)⟩

variable (f : Span → Span) (before : List SyntaxError)

theorem current_moved (p : Parser) : (p.moved f before).current = p.current.mapSpan f := by
  unfold current moved
  cases p.tokens <;> rfl

theorem advance_moved (p : Parser) : (p.moved f before).advance = p.advance.moved f before := by
  unfold advance moved
  cases p.tokens <;> rfl

theorem record_moved (p : Parser) (cause : SyntaxError.Cause) (t : Token) :
    (p.moved f before).record cause (t.mapSpan f) = (p.record cause t).moved f before := by
  simp [moved, record, SyntaxError.mapSpan, Token.mapSpan]

/-- The place where a failed statement is given up. -/
def GivesUp (t next : Token) : Prop :=
  t.kind = .semicolon ∨ t.kind = .rightBrace ∨ next.kind = .rightBrace

theorem abandon_of_givesUp {t next : Token} (h : GivesUp t next) (rest : List Token) :
    abandon (t :: next :: rest) = t :: next :: rest := by
  rw [abandon]
  exact if_pos h

theorem abandon_of_not_givesUp {t next : Token} (h : ¬GivesUp t next) (rest : List Token) :
    abandon (t :: next :: rest) = abandon (next :: rest) := by
  rw [abandon]
  exact if_neg h

theorem abandon_map : ∀ ts : List Token,
    abandon (ts.map (Token.mapSpan f)) = (abandon ts).map (Token.mapSpan f)
  | [] => rfl
  | [_] => rfl
  | t :: u :: rest => by
    have ih := abandon_map (u :: rest)
    simp only [List.map_cons] at ih ⊢
    by_cases h : GivesUp t u
    · have h' : GivesUp (t.mapSpan f) (u.mapSpan f) := h
      rw [abandon_of_givesUp h, abandon_of_givesUp h', List.map_cons, List.map_cons]
    · have h' : ¬GivesUp (t.mapSpan f) (u.mapSpan f) := h
      rw [abandon_of_not_givesUp h, abandon_of_not_givesUp h', ih]

/-- Moved tokens are read alike everywhere. -/
theorem moved_lockstep : Parse.Lockstep f fun _ p q => q = p.moved f before where
  current := by
    rintro _ p _ rfl
    exact current_moved f before p
  pass := by
    rintro _ p _ rfl _
    exact advance_moved f before p
  enter := by
    rintro _ p _ rfl _
    exact advance_moved f before p
  leave := by
    rintro _ p _ rfl _
    exact advance_moved f before p
  weaken := id
  semicolon := by
    rintro _ p _ rfl _
    exact advance_moved f before p
  record := by
    rintro _ p _ rfl cause t
    exact record_moved f before p cause t
  recover := by
    rintro _ p _ rfl
    simp [moved, abandon_map]

end Parser

namespace Parse

open MonkeyLang.Parser

theorem program_moved (f : Span → Span) (before : List SyntaxError) : ∀ n m p,
    Together (program n) (program m) p (p.moved f before)
      (fun prog prog' p' q' => prog' = Stmt.mapAllSpans f prog ∧ q' = p'.moved f before)
      fun _ _ => False
  | 0, _, _ => together_of_depth rfl
  | _, 0, _ => together_of_depth_right rfl
  | n + 1, m + 1, p => by
    rw [program_succ, program_succ]
    apply together_current
    rw [current_moved, Token.mapSpan_kind]
    refine together_ite (fun _ => together_pure ⟨by rw [Stmt.mapAllSpans], rfl⟩) fun _ => ?_
    have hfirst := (moved_lockstep f before).statementOrNone n m rfl (p := p)
    refine hfirst.bind fun s s' p' q' hs => ?_
    obtain ⟨rfl, rfl⟩ := hs
    apply together_advance
    rw [advance_moved]
    refine (program_moved f before n m p'.advance).bind fun prog prog' p'' q'' hp => ?_
    obtain ⟨rfl, rfl⟩ := hp
    refine together_pure ⟨?_, rfl⟩
    cases s with
    | none => rfl
    | some s => simp [Stmt.mapAllSpans]

end Parse

namespace Parser

theorem abandon_ne_nil : ∀ {ts : List Token}, ts ≠ [] → abandon ts ≠ []
  | [], h => h
  | [_], h => h
  | t :: u :: rest, _ => by
    by_cases h : GivesUp t u
    · simp [abandon_of_givesUp h]
    · rw [abandon_of_not_givesUp h]
      exact abandon_ne_nil (List.cons_ne_nil u rest)

/-- A failed statement is given up before more tokens if a semicolon stands before them. -/
theorem abandon_append (behind : List Token) : ∀ {ts : List Token}, ts ≠ [] → EndsClosed ts →
    abandon (ts ++ behind) = abandon ts ++ behind
  | [], h, _ => absurd rfl h
  | [t], _, h => by
    have ht : t.kind = .semicolon := h t rfl
    cases behind with
    | nil => rfl
    | cons u rest => simp [abandon, ht]
  | t :: u :: rest, _, h => by
    have ih := abandon_append behind (List.cons_ne_nil u rest) h.tail
    simp only [List.cons_append] at ih ⊢
    by_cases h : GivesUp t u
    · rw [abandon_of_givesUp h, abandon_of_givesUp h, List.cons_append, List.cons_append]
    · rw [abandon_of_not_givesUp h, abandon_of_not_givesUp h, ih]

/-- No closing brace is skipped. -/
theorem closed_abandon : ∀ ts : List Token, closed (abandon ts) = closed ts
  | [] => rfl
  | [_] => rfl
  | t :: u :: rest => by
    by_cases h : GivesUp t u
    · rw [abandon_of_givesUp h]
    · have ht : t.kind ≠ .rightBrace := fun ht => h (.inr (.inl ht))
      rw [abandon_of_not_givesUp h, closed_abandon (u :: rest)]
      simp [closed, ht]

theorem opened_abandon_le (ts : List Token) : opened (abandon ts) ≤ opened ts :=
  (abandon_suffix ts).sublist.countP_le

/-- The second parser has the same tokens as the first and more behind them, and the first has as
many closing braces left as there are open blocks and opening braces. It cannot leave these blocks
before its last token, which is a semicolon. -/
structure Ahead (behind : List Token) (endMark : Token) (k : Nat) (p q : Parser) : Prop where
  same : q = ⟨p.tokens ++ behind, endMark, p.errors⟩
  mark : p.endMark.kind = .endOfInput
  nonempty : p.tokens ≠ []
  ends : EndsClosed p.tokens
  inside : ∀ t ∈ p.tokens, t.kind ≠ .endOfInput
  blocks : opened p.tokens + k ≤ closed p.tokens
  balanced : ∀ rest, rest <:+ p.tokens → opened rest ≤ closed rest

namespace Ahead

variable {behind : List Token} {endMark : Token} {k j : Nat} {p q : Parser}

theorem current (h : Ahead behind endMark k p q) : q.current = p.current := by
  obtain ⟨t, ts, hts⟩ := List.exists_cons_of_ne_nil h.nonempty
  simp [h.same, Parser.current, hts]

theorem current_kind (h : Ahead behind endMark k p q) : p.current.kind ≠ .endOfInput := by
  obtain ⟨t, ts, hts⟩ := List.exists_cons_of_ne_nil h.nonempty
  simpa [Parser.current, hts] using h.inside t (by simp [hts])

/-- Onto the next token of the first parser, if it has one. -/
theorem advance (h : Ahead behind endMark k p q) (hn : p.tokens.tail ≠ [])
    (hb : opened p.tokens.tail + j ≤ closed p.tokens.tail) :
    Ahead behind endMark j p.advance q.advance where
  same := by
    obtain ⟨t, ts, hts⟩ := List.exists_cons_of_ne_nil h.nonempty
    simp [h.same, Parser.advance, hts]
  mark := h.mark
  nonempty := hn
  ends := h.ends.suffix (List.tail_suffix _)
  inside := fun t ht => h.inside t (List.mem_of_mem_tail ht)
  blocks := hb
  balanced := fun rest hr => h.balanced rest (hr.trans (List.tail_suffix _))

/-- Only a semicolon is the last token. -/
theorem tail_ne_nil (h : Ahead behind endMark k p q) (hk : p.current.kind ≠ .semicolon) :
    p.tokens.tail ≠ [] := by
  obtain ⟨t, ts, hts⟩ := List.exists_cons_of_ne_nil h.nonempty
  rintro htail
  obtain rfl : ts = [] := by simpa [hts] using htail
  have ht : t.kind = .semicolon := h.ends t (by simp [hts])
  exact hk (by simpa [Parser.current, hts] using ht)

theorem opened_tail (h : Ahead behind endMark k p q) : opened p.tokens =
    opened p.tokens.tail + if p.current.kind = .leftBrace then 1 else 0 := by
  obtain ⟨t, ts, hts⟩ := List.exists_cons_of_ne_nil h.nonempty
  simp [Parser.current, hts, opened, List.countP_cons]

theorem closed_tail (h : Ahead behind endMark k p q) : closed p.tokens =
    closed p.tokens.tail + if p.current.kind = .rightBrace then 1 else 0 := by
  obtain ⟨t, ts, hts⟩ := List.exists_cons_of_ne_nil h.nonempty
  simp [Parser.current, hts, closed, List.countP_cons]

end Ahead

theorem ahead_lockstep (behind : List Token) (endMark : Token) :
    Parse.Lockstep id (Ahead behind endMark) where
  current h := h.current
  pass h hk := by
    have ho := h.opened_tail
    have hc := h.closed_tail
    have hb := h.blocks
    rw [if_neg hk.2] at hc
    exact h.advance (h.tail_ne_nil hk.1) (by omega)
  enter h hk := by
    have ho := h.opened_tail
    have hc := h.closed_tail
    have hb := h.blocks
    rw [if_pos hk] at ho
    rw [if_neg (by simp [hk])] at hc
    exact h.advance (h.tail_ne_nil (by simp [hk])) (by omega)
  leave {k p q} h hk := by
    have hc := h.closed_tail
    have ho := h.opened_tail
    have hb := h.blocks
    have hbrace : p.current.kind = .rightBrace := hk.resolve_right h.current_kind
    rw [if_pos hbrace] at hc
    rw [if_neg (by simp [hbrace])] at ho
    exact h.advance (h.tail_ne_nil (by simp [hbrace])) (by omega)
  weaken h := { h with blocks := Nat.le_of_succ_le h.blocks }
  semicolon {k p q} h hk := by
    have ho := h.opened_tail
    have hc := h.closed_tail
    have hb := h.blocks
    rw [if_neg (by simp [hk])] at ho hc
    have hn : p.tokens.tail ≠ [] := by
      intro htail
      have hnone : opened [] = 0 ∧ closed [] = 0 := ⟨rfl, rfl⟩
      rw [htail] at ho hc
      omega
    exact h.advance hn (by omega)
  record h cause t := { h with same := by simp [h.same, record] }
  recover {k p q} h :=
    { h with
      same := by simp [h.same, abandon_append behind h.nonempty h.ends]
      nonempty := abandon_ne_nil h.nonempty
      ends := h.ends.suffix (abandon_suffix _)
      inside := fun t ht => h.inside t ((abandon_suffix _).mem ht)
      blocks := by
        have ho := opened_abandon_le p.tokens
        have hc := closed_abandon p.tokens
        have hb := h.blocks
        change opened (abandon p.tokens) + k ≤ closed (abandon p.tokens)
        omega
      balanced := fun rest hr => h.balanced rest (hr.trans (abandon_suffix _)) }

end Parser

namespace Parse

open MonkeyLang.Parser

/-- The second program is that of the first and behind it one of the tokens behind. -/
def GoesOn (behind : List Token) (endMark : Token) (prog prog' : Program) (p q : Parser) : Prop :=
  ∃ n rest, (program n : Parse Program).run ⟨behind, endMark, p.errors⟩ = .ok rest q ∧
    prog' = prog ++ rest

variable {behind : List Token} {endMark : Token}

theorem program_of_no_tokens {p : Parser} (ht : p.tokens = [])
    (hm : p.endMark.kind = .endOfInput) (n : Nat) :
    (program (n + 1) : Parse Program).run p = .ok [] p := by
  have hcurrent : p.current.kind = .endOfInput := by simp [Parser.current, ht, hm]
  rw [program, Body.program, EStateM.run_bind]
  simp only [Parse.current, EStateM.run_bind, EStateM.run_get, EStateM.run_pure, hcurrent, if_true]

theorem program_at_end {p : Parser} (ht : p.tokens = []) (hm : p.endMark.kind = .endOfInput)
    (n m : Nat) : Together (program n) (program m) p ⟨behind, endMark, p.errors⟩
      (GoesOn behind endMark) fun _ _ => False := by
  cases n with
  | zero => exact together_of_depth rfl
  | succ n =>
    have hx := program_of_no_tokens ht hm n
    have hs := program_stops m ⟨behind, endMark, p.errors⟩
    cases hy : (program m : Parse Program).run ⟨behind, endMark, p.errors⟩ with
    | ok rest q =>
      unfold Together
      rw [hx, hy]
      exact ⟨m, rest, hy, rfl⟩
    | error s q =>
      obtain rfl := hs.of_error hy
      exact together_of_depth_right hy

/-- Whatever a program of these tokens reads and skips, it leaves the tokens behind them to a
program of their own. -/
theorem program_ahead : ∀ n m p q, Ahead behind endMark 0 p q →
    Together (program n) (program m) p q (GoesOn behind endMark) fun _ _ => False
  | 0, _, _, _, _ => together_of_depth rfl
  | _, 0, _, _, _ => together_of_depth_right rfl
  | n + 1, m + 1, p, q, h => by
    rw [program_succ, program_succ]
    apply together_current
    rw [h.current, if_neg h.current_kind, if_neg h.current_kind]
    have hfirst := (ahead_lockstep behind endMark).statementOrNone n m h
    refine hfirst.bind fun s s' p' q' hs => ?_
    obtain ⟨rfl, h⟩ := hs
    apply together_advance
    have hrest : Together (program n) (program m) p'.advance q'.advance (GoesOn behind endMark)
        fun _ _ => False := by
      by_cases htail : p'.tokens.tail = []
      · have hq : q'.advance = ⟨behind, endMark, p'.advance.errors⟩ := by
          obtain ⟨t, ts, hts⟩ := List.exists_cons_of_ne_nil h.nonempty
          simp [h.same, Parser.advance, hts] at htail ⊢
          exact htail
        have hdone : p'.advance.tokens = [] := htail
        rw [hq]
        exact program_at_end hdone h.mark n m
      · exact program_ahead n m _ _ (h.advance htail (h.balanced _ (List.tail_suffix _)))
    refine hrest.bind fun prog prog' p'' q'' hp => ?_
    obtain ⟨l, rest, hrun, rfl⟩ := hp
    have hs : s.map (Stmt.mapSpans id) = s := by
      cases s with
      | none => rfl
      | some s => simp [Stmt.mapSpans_id]
    exact together_pure ⟨l, rest, hrun, by rw [hs, List.append_assoc]⟩

theorem program_split (behind : List Token) (endMark : Token) {p : Parser}
    (hm : p.endMark.kind = .endOfInput) (hc : EndsClosed p.tokens)
    (hi : ∀ t ∈ p.tokens, t.kind ≠ .endOfInput) (hb : BracesBalanced p.tokens) (n m : Nat) :
    Together (program n) (program m) p ⟨p.tokens ++ behind, endMark, p.errors⟩
      (GoesOn behind endMark) fun _ _ => False := by
  by_cases ht : p.tokens = []
  · rw [ht, List.nil_append]
    exact program_at_end ht hm n m
  · apply program_ahead
    exact ⟨rfl, hm, ht, hc, hi, Nat.le_of_eq hb.total, fun rest h => hb.behind h⟩

end Parse

/-- Behind a text that ends outside all braces with a semicolon, or in blanks alone, reading goes on
as it would from the start, and what the text reads as does not change. -/
theorem reading_behind {a : String} (hc : EndsClosed (Lexer.ofString a).tokens)
    (hb : BracesBalanced (Lexer.ofString a).tokens) (b : String) :
    Reading.ofSource (a ++ b) = (Reading.ofSource a).append
      ((Reading.ofSource b).mapSpans (Span.shift (byteLength a.toList))) := by
  obtain ⟨f, hf⟩ : ∃ f, f = Span.shift (byteLength a.toList) := ⟨_, rfl⟩
  obtain ⟨n, p, hp, hpe⟩ := reading_run a
  obtain ⟨m, q, hq, hqe⟩ := reading_run b
  obtain ⟨l, r, hr, hre⟩ := reading_run (a ++ b)
  have hstart : Parser.ofLexer (Lexer.ofString (a ++ b)) =
      ⟨(Lexer.ofString a).tokens ++ (Lexer.ofString b).tokens.map (Token.mapSpan f),
        (Lexer.ofString b).endMark.mapSpan f, []⟩ := by
    rw [Parser.ofLexer, Lexer.tokens_append hc, Lexer.endMark_append, hf]
  rw [hstart] at hr
  have hinside : ∀ t ∈ (Lexer.ofString a).tokens, t.kind ≠ .endOfInput :=
    fun t ht => (Lexer.tokens_proper _ t ht).inside
  have hsplit := Parse.program_split ((Lexer.ofString b).tokens.map (Token.mapSpan f))
    ((Lexer.ofString b).endMark.mapSpan f) (p := Parser.ofLexer (Lexer.ofString a)) rfl hc hinside
    hb n l
  obtain ⟨j, rest, hrest, hprogram⟩ := hsplit.of_ok hp hr
  have hmoved : (Parser.ofLexer (Lexer.ofString b)).moved f p.errors =
      ⟨(Lexer.ofString b).tokens.map (Token.mapSpan f), (Lexer.ofString b).endMark.mapSpan f,
        p.errors⟩ := by
    simp [Parser.moved, Parser.ofLexer]
  rw [← hmoved] at hrest
  obtain ⟨rfl, rfl⟩ := (Parse.program_moved f p.errors m j _).of_ok hq hrest
  have herrors : (Reading.ofSource (a ++ b)).errors =
      (Reading.ofSource a).errors ++ (Reading.ofSource b).errors.map (SyntaxError.mapSpan f) := by
    rw [← hre, ← hpe, ← hqe]
    rfl
  rw [← hf]
  calc Reading.ofSource (a ++ b)
      = ⟨(Reading.ofSource (a ++ b)).program, (Reading.ofSource (a ++ b)).errors⟩ := rfl
    _ = _ := by rw [hprogram, herrors]; rfl

theorem reading_of_no_tokens {source : String} (h : (Lexer.ofString source).tokens = []) :
    Reading.ofSource source = ⟨[], []⟩ := by
  obtain ⟨n, q, hrun, herrors⟩ := reading_run source
  cases n with
  | zero => cases hrun
  | succ n =>
    have hdone := Parse.program_of_no_tokens (p := Parser.ofLexer (Lexer.ofString source)) h rfl n
    rw [hrun] at hdone
    obtain ⟨hprogram, rfl⟩ := EStateM.Result.ok.inj hdone
    calc Reading.ofSource source
        = ⟨(Reading.ofSource source).program, (Reading.ofSource source).errors⟩ := rfl
      _ = ⟨[], []⟩ := by rw [hprogram, ← herrors]; rfl

theorem Grammar.Derives.no_statements {ts : List Token}
    (h : Derives False ts (.statements [])) : ts = [] := by
  cases h with
  | noStatements => rfl
  | skip h _ => exact h.elim

/-- Without syntax errors there is nothing but statements. -/
theorem tokens_of_no_program {source : String} (he : (Reading.ofSource source).errors = [])
    (hp : (Reading.ofSource source).program = []) : (Lexer.ofString source).tokens = [] := by
  obtain ⟨ts, ⟨missing, -, rfl⟩, hd⟩ := reading_derives source
  rw [he, hp] at hd
  have hnil := (hd.mono (Nat.lt_irrefl 0)).no_statements
  exact (List.append_eq_nil_iff.mp hnil).1

/-- Reading is compositional at semicolons outside all braces, with syntax errors or without: no
defect on one side hides, changes or adds anything on the other. -/
theorem reading_append {a : String}
    (hlast : ∃ t, (Lexer.ofString a).tokens.getLast? = some t ∧ t.kind = .semicolon)
    (hb : BracesBalanced (Lexer.ofString a).tokens) (b : String) :
    (Reading.ofSource (a ++ b)).program = (Reading.ofSource a).program ++
        (Reading.ofSource b).program.mapSpans (Span.shift (byteLength a.toList)) ∧
      (Reading.ofSource (a ++ b)).errors = (Reading.ofSource a).errors ++
        (Reading.ofSource b).errors.map
          (SyntaxError.mapSpan (Span.shift (byteLength a.toList))) := by
  obtain ⟨last, hlast, hk⟩ := hlast
  have hc : EndsClosed (Lexer.ofString a).tokens := by
    intro t ht
    obtain rfl : last = t := Option.some.inj (hlast.symm.trans ht)
    exact hk
  rw [reading_behind hc hb b]
  exact ⟨rfl, rfl⟩

/-- A parameter that is no name, a `let` cut off by a brace and a block where an argument is
expected, before a text that ends within a call. -/
theorem reading_append_defective :
    (∃ t, (Lexer.ofString "let f = fn(1) { if (x) { let = } }; g({ y); };").tokens.getLast? =
        some t ∧ t.kind = .semicolon) ∧
      BracesBalanced (Lexer.ofString "let f = fn(1) { if (x) { let = } }; g({ y); };").tokens ∧
      (Reading.ofSource "let f = fn(1) { if (x) { let = } }; g({ y); };").errors ≠ [] ∧
      (Reading.ofSource ("let f = fn(1) { if (x) { let = } }; g({ y); };" ++ "h(2; k(3")).errors =
        (Reading.ofSource "let f = fn(1) { if (x) { let = } }; g({ y); };").errors ++
          (Reading.ofSource "h(2; k(3").errors.map (SyntaxError.mapSpan (Span.shift 46)) := by
  have hlast : ∃ t, (Lexer.ofString
      "let f = fn(1) { if (x) { let = } }; g({ y); };").tokens.getLast? = some t ∧
      t.kind = .semicolon := ⟨⟨.semicolon, ";", ⟨45, 1⟩⟩, by decide +kernel⟩
  have hb : BracesBalanced (Lexer.ofString
      "let f = fn(1) { if (x) { let = } }; g({ y); };").tokens := by decide +kernel
  have hlength : byteLength "let f = fn(1) { if (x) { let = } }; g({ y); };".toList = 46 := by
    decide +kernel
  have herrors := (reading_append hlast hb "h(2; k(3").2
  rw [hlength] at herrors
  exact ⟨hlast, hb, by decide +kernel, herrors⟩

end MonkeyLang
