import MonkeyLang.Proofs.Parsing.Append
import MonkeyLang.Proofs.Parsing.Course
import MonkeyLang.Proofs.Parsing.Supply

namespace MonkeyLang

open Grammar

/-- The statements that a program of these tokens is begun with before the first error. -/
def Parse.completed : Nat → Parser → List Stmt
  | 0, _ => []
  | n + 1, p =>
    if p.current.kind = .endOfInput then []
    else
      match (Parse.statement n : Parse Stmt).run p with
      | .ok first q => if q.errors = p.errors then first :: Parse.completed n q.advance else []
      | .error _ _ => []

/-- The statements that are read before the first syntax error. -/
def Reading.completed (source : String) : Program :=
  Parse.completed (Parser.ofLexer (Lexer.ofString source)).limit
    (Parser.ofLexer (Lexer.ofString source))

namespace Parser

variable {course : Course} {complete : Nat} {p q : Parser}

/-- The parser stands where a statement begins or the text ends. -/
structure Begins (course : Course) (before : Nat) (p : Parser) : Prop where
  clean : p.errors = course.errors
  sound : p.Sound course.errors.length
  here : course.tokens.drop before = p.stream
  scanned : ∃ complete begun awaited, complete + begun = before ∧
    react awaited p.current = .pass ∧
    scan course.start course.tokens = scan ⟨complete, begun, awaited⟩ p.stream

theorem begins_start {errors : List SyntaxError} (hm : p.endMark.kind = .endOfInput)
    (ht : ∀ t ∈ p.tokens, t.kind ≠ .endOfInput) (he : p.errors = errors) :
    p.Begins ⟨⟨0, 0, []⟩, p.stream, errors⟩ 0 where
  clean := he
  sound := ⟨hm, ht, by rw [he]⟩
  here := rfl
  scanned := ⟨0, 0, [], rfl, rfl, rfl⟩

/-- At the end everything has been taken. -/
theorem Begins.accepted {before : Nat} (h : p.Begins course before)
    (hk : p.current.kind = .endOfInput) : scan course.start course.tokens = .accepted := by
  obtain ⟨complete, begun, awaited, -, hpass, hscan⟩ := h.scanned
  obtain ⟨ts, hts⟩ := p.stream_current
  rw [hscan, hts, scan_ends hpass hk]

theorem Begins.accepted_of_tokens {before : Nat} (h : p.Begins course before)
    (ht : p.tokens = []) : scan course.start course.tokens = .accepted := by
  refine h.accepted ?_
  rw [current, ht]
  exact h.sound.endMark

theorem Begins.awaits {before : Nat} (h : p.Begins course before)
    (hk : p.current.kind ≠ .endOfInput) : p.Awaits course before [.statement] where
  clean := h.clean
  sound := h.sound
  scanned := by
    obtain ⟨complete, begun, awaited, rfl, hpass, hscan⟩ := h.scanned
    obtain ⟨ts, hts⟩ := p.stream_current
    refine ⟨[], h.here, ?_, fun _ => rfl⟩
    rw [hscan, hts, scan_next hpass hk]
    rfl

/-- Where a token is refused later, there are tokens left. -/
theorem Begins.tokens_ne_nil {before : Nat} (h : p.Begins course before)
    (hq : q.Refused course complete) : p.tokens ≠ [] := by
  intro hnil
  obtain ⟨_, _, _, hrefused, -⟩ := hq
  rw [h.accepted_of_tokens hnil] at hrefused
  cases hrefused

theorem Begins.tokens_eq {before : Nat} {us : List Token} (h : p.Begins course before)
    (hus : course.tokens.drop before = us ++ q.stream) : p.tokens = us ++ q.tokens := by
  have hstream : p.tokens ++ [p.endMark] = (us ++ q.tokens) ++ [q.endMark] := by
    rw [List.append_assoc]
    exact h.here.symm.trans hus
  exact (List.append_inj' hstream rfl).1

/-- Behind a statement the next one begins. -/
theorem Awaits.begins (h : p.Awaits course complete []) : ∃ us, course.tokens.drop complete =
    us ++ p.stream ∧ (p.tokens ≠ [] → opened us = closed us) ∧
      p.Begins course (complete + us.length) := by
  obtain ⟨us, hus, hscan, hbraces⟩ := h.scanned
  refine ⟨us, hus, hbraces, h.clean, h.sound, ?_, complete, us.length, [], rfl, rfl, hscan⟩
  rw [← List.drop_drop, hus, List.drop_left]

end Parser

namespace Grammar

/-- Where the braces balance, none are supplied. -/
theorem Completes.eq_of_balanced {us ts ws : List Token} (h : Completes (us ++ ws) (ts ++ ws))
    (hu : opened us = closed us) (ht : opened ts = closed ts) : us = ts := by
  obtain ⟨missing, hbrace, h⟩ := h
  have ho := congrArg opened h
  have hc := congrArg closed h
  simp only [opened_append, closed_append, opened_of_braces hbrace, closed_of_braces hbrace]
    at ho hc
  obtain rfl : missing = [] := List.eq_nil_of_length_eq_zero (by omega)
  rw [List.append_nil] at h
  exact List.append_cancel_right h

end Grammar

namespace Parse

open MonkeyLang.Parser

variable {course : Course} {complete : Nat} {p q : Parser}

theorem ends_self {α : Type} (x : Parse α) (p : Parser) :
    Ends x p (fun a q => x.run p = .ok a q) fun s q => x.run p = .error s q := by
  unfold Ends
  cases x.run p <;> rfl

theorem completed_end {n : Nat} (hk : p.current.kind = .endOfInput) : completed (n + 1) p = [] := by
  rw [completed, if_pos hk]

theorem completed_ok {n : Nat} {first : Stmt} (hk : p.current.kind ≠ .endOfInput)
    (hr : (statement n : Parse Stmt).run p = .ok first q) : completed (n + 1) p =
      if q.errors = p.errors then first :: completed n q.advance else [] := by
  rw [completed, if_neg hk, hr]

theorem completed_error {n : Nat} {s : Stop} (hk : p.current.kind ≠ .endOfInput)
    (hr : (statement n : Parse Stmt).run p = .error s q) : completed (n + 1) p = [] := by
  rw [completed, if_neg hk, hr]

/-- The statements completed are the first of the program. -/
theorem completed_front (n : Nat) (p : Parser) :
    Ends (program n) p (fun prog _ => completed n p <+: prog) fun _ _ => True := by
  induction n generalizing p with
  | zero => trivial
  | succ n ih =>
    rw [program, Body.program]
    refine ends_bind.2 (ends_current.2 ?_)
    split
    · next hk => exact completed_end hk ▸ List.nil_prefix
    · next hk =>
      refine ends_bind.2 (ends_attempt.2 ((ends_self (statement n) p).mono ?_ ?_))
      · intro first q hr
        refine ends_bind.2 (ends_advance.2 (ends_bind.2 ?_))
        refine (ih q.advance).mono (fun rest _ hrest => ?_) fun _ _ _ => trivial
        change completed (n + 1) p <+: first :: rest
        rw [completed_ok hk hr]
        split
        · exact List.cons_prefix_cons.mpr ⟨rfl, hrest⟩
        · exact List.nil_prefix
      · intro s q hr
        rw [completed_error hk hr]
        refine ⟨fun _ => ?_, fun _ => trivial⟩
        exact (ends_somehow _ q).mono (fun _ _ _ => List.nil_prefix) fun _ _ _ => trivial

/-- The tokens of the statements completed derive them, and behind them stands the statement with
the first error. -/
def Breaks (course : Course) (before : Nat) (n : Nat) (p q : Parser) : Prop :=
  ∃ us rest, p.tokens = us ++ rest ∧ Derives False us (.statements (completed n p)) ∧
    q.Refused course (before + us.length)

theorem Breaks.refused {before n : Nat} (h : Breaks course before n p q) :
    ∃ complete, q.Refused course complete := by
  obtain ⟨us, -, -, -, hq⟩ := h
  exact ⟨before + us.length, hq⟩

/-- A statement without errors stands before those completed behind it. -/
theorem breaks_behind {before n : Nat} {first : Stmt} {r : Parser} {us : List Token}
    (hk : p.current.kind ≠ .endOfInput) (hr : (statement n : Parse Stmt).run p = .ok first q)
    (hp : p.errors = course.errors) (hq : q.errors = course.errors)
    (hs : ReadsStatement course.errors.length p first q)
    (hus : p.tokens = us ++ q.advance.tokens) (hbraces : opened us = closed us)
    (h : Breaks course (before + us.length) n q.advance r) : Breaks course before (n + 1) p r := by
  obtain ⟨us', rest, hus', hd, hrefused⟩ := h
  have hbehind : Completes q.advance.tokens (us' ++ rest) := hus' ▸ completes_refl _
  have hnone : q.errors.length ≤ course.errors.length := by rw [hq]
  obtain ⟨ts, hts, hderives⟩ := hs.append hbehind hnone (hd.mono False.elim)
  have hfalse := hderives.mono (Nat.lt_irrefl _)
  have htokens : p.tokens = (us ++ us') ++ rest := by rw [hus, hus', List.append_assoc]
  have hbalanced : opened (us ++ us') = closed (us ++ us') := by
    rw [opened_append, closed_append, hbraces, hd.balanced]
  -- The grammar may supply closing braces at the end of the text, but here none are missing.
  rw [htokens] at hts
  obtain rfl := hts.eq_of_balanced hbalanced hfalse.balanced
  refine ⟨us ++ us', rest, htokens, ?_, ?_⟩
  · rw [completed_ok hk hr, if_pos (hq.trans hp.symm)]
    exact hfalse
  · rwa [List.length_append, ← Nat.add_assoc]

theorem program_refused (n : Nat) (h : p.Refused course complete) :
    Ends (program n) p (fun _ q => q.Refused course complete) fun _ _ => True :=
  Ends.mono (obeys_program reaches_discipline n p) (fun _ _ hq => h.of_errors hq.errors)
    fun _ _ _ => trivial

/-- Behind a first statement with the first error the program breaks at this statement. -/
theorem program_breaks (n : Nat) {before : Nat} (hc : completed (n + 1) p = [])
    (h : q.Refused course before) :
    Ends (program n) q (fun _ r => Breaks course before (n + 1) p r) fun _ _ => True := by
  refine (program_refused n h).mono (fun _ r hr => ?_) fun _ _ _ => trivial
  exact ⟨[], p.tokens, rfl, hc ▸ .noStatements, hr⟩

/-- Either the program is read without errors and all tokens are accepted, or it breaks at the first
token refused. -/
theorem program_course (n : Nat) (p : Parser) (before : Nat) (h : p.Begins course before) :
    Ends (program n) p (fun _ q =>
      scan course.start course.tokens = .accepted ∧ q.errors = course.errors ∨
        Breaks course before n p q) fun _ _ => True := by
  induction n generalizing p before with
  | zero => trivial
  | succ n ih =>
    rw [program, Body.program]
    refine ends_bind.2 (ends_current.2 ?_)
    split
    · next hk => exact .inl ⟨h.accepted hk, h.clean⟩
    · next hk =>
      have hruns := runs_statement n p [] (.inl (h.awaits hk))
      have hreads := (soundAt _ n).statement p h.sound
      refine ends_bind.2 (ends_attempt.2 (((hruns.and hreads).and (ends_self _ p)).mono ?_ ?_))
      · intro first q hq
        obtain ⟨⟨hfollows, hs⟩, hr⟩ := hq
        refine ends_bind.2 (ends_advance.2 (ends_bind.2 ?_))
        obtain hq | hq := hfollows
        · obtain ⟨us, hus, hbraces, hbegins⟩ := hq.begins
          refine (ih _ _ hbegins).mono (fun rest r hbehind => ?_) fun _ _ _ => trivial
          refine hbehind.imp id fun hbehind => ?_
          obtain ⟨_, hrefused⟩ := hbehind.refused
          have hbalanced := hbraces (hbegins.tokens_ne_nil hrefused)
          exact breaks_behind hk hr h.clean hq.clean hs (h.tokens_eq hus) hbalanced hbehind
        · -- The statement is read, but with the first error in a block of it.
          have hne : q.errors ≠ p.errors := fun he => hq.errors_ne (he.trans h.clean)
          have hnone : completed (n + 1) p = [] := by rw [completed_ok hk hr, if_neg hne]
          exact (program_breaks n hnone hq).mono (fun _ _ => .inr) fun _ _ _ => trivial
      · intro s q hq
        obtain ⟨⟨hrefused, -⟩, hr⟩ := hq
        refine ⟨fun hs => ?_, fun _ => trivial⟩
        have hnone : completed (n + 1) p = [] := completed_error hk hr
        have hrest : (Parser.advance { q with tokens := Parser.abandon q.tokens }).Refused course
            before := hrefused hs
        exact ends_bind.2 (ends_bind.2 ((program_breaks n hnone hrest).mono (fun _ _ => .inr)
          fun _ _ _ => trivial))

end Parse

/-- The tokens of a text and the mark of its end. -/
def Lexer.stream (source : String) : List Token :=
  (ofString source).tokens ++ [(ofString source).endMark]

open Parse Lexer

/-- The first error of the reading is at the token, behind so many tokens of complete statements and
others of the statement begun. -/
structure BreaksAt (source : String) (before : List Token) (t : Token) (complete : Nat)
    (cause : SyntaxError.Cause) : Prop where
  stands : before ++ [t] <+: Lexer.stream source
  refused : scan ⟨0, 0, []⟩ (Lexer.stream source) = .refused complete before.length cause
  error : (Reading.ofSource source).errors.head? = some ⟨cause, t.span⟩
  derived : Derives False (before.take complete) (.statements (Reading.completed source))

/-- The place of the first error, told by the tokens of the text. -/
theorem breaksAt_of_breaks {source : String} {q : Parser}
    (h : Breaks ⟨⟨0, 0, []⟩, Lexer.stream source, []⟩ 0
      (Parser.ofLexer (ofString source)).limit (Parser.ofLexer (ofString source)) q)
    (hq : q.errors = (Reading.ofSource source).errors) :
    ∃ before t complete cause, BreaksAt source before t complete cause := by
  obtain ⟨us, rest, hus, hd, n, cause, t, hscan, ht, later, hlater⟩ := h
  have ht : (Lexer.stream source)[n]? = some t := ht
  rw [Nat.zero_add] at hscan
  obtain ⟨hn, -⟩ := List.getElem?_eq_some_iff.mp ht
  have hlength : ((Lexer.stream source).take n).length = n :=
    List.length_take_of_le (Nat.le_of_lt hn)
  have htake : (Lexer.stream source).take (n + 1) = (Lexer.stream source).take n ++ [t] := by
    rw [List.take_add_one, ht]
    rfl
  have hfront : us <+: Lexer.stream source := by
    have hstream : Lexer.stream source = us ++ (rest ++ [(ofString source).endMark]) := by
      rw [← List.append_assoc]
      exact congrArg (· ++ [(ofString source).endMark]) hus
    exact ⟨_, hstream.symm⟩
  -- The tokens of complete statements are among those before the error.
  have hcomplete : ((Lexer.stream source).take n).take us.length = us := by
    rw [List.take_take, Nat.min_eq_left (le_of_refused hscan).2]
    exact (List.prefix_iff_eq_take.mp hfront).symm
  refine ⟨(Lexer.stream source).take n, t, us.length, cause, ?_, ?_, ?_, ?_⟩
  · rw [← htake]
    exact List.take_prefix _ _
  · rwa [hlength]
  · rw [← hq, ← hlater]
    rfl
  · rwa [hcomplete]

/-- A reading without errors accepts all tokens, and otherwise the first error is at the first token
refused. -/
theorem reading_course (source : String) :
    scan ⟨0, 0, []⟩ (Lexer.stream source) = .accepted ∧ (Reading.ofSource source).errors = [] ∨
      ∃ before t complete cause, BreaksAt source before t complete cause := by
  obtain ⟨q, hrun, herrors⟩ := reading_run_limit source
  have hinside : ∀ t ∈ (Parser.ofLexer (ofString source)).tokens, t.kind ≠ .endOfInput :=
    fun t ht => (tokens_proper _ t ht).inside
  have hbegins : (Parser.ofLexer (ofString source)).Begins
      ⟨⟨0, 0, []⟩, Lexer.stream source, []⟩ 0 := Parser.begins_start rfl hinside rfl
  obtain ⟨haccepted, hnone⟩ | hbreaks := (program_course _ _ _ hbegins).of_ok hrun
  · exact .inl ⟨haccepted, herrors ▸ hnone⟩
  · exact .inr (breaksAt_of_breaks hbreaks herrors)

/-- Tokens at other places derive the same statements, at these places. -/
theorem derives_moved {f : Span → Span} {ts : List Token} {ss ss' : List Stmt}
    (h : Derives False ts (.statements ss))
    (h' : Derives False (ts.map (Token.mapSpan f)) (.statements ss')) :
    ss' = Stmt.mapAllSpans f ss := by
  obtain ⟨p, hp⟩ : ∃ p : Parser, p = ⟨ts, Token.endAt 0, []⟩ := ⟨_, rfl⟩
  have hfaces : p.Faces [] ts := by
    subst hp
    exact ⟨rfl, rfl, completes_refl ts⟩
  have hfaces' : (p.moved f []).Faces [] (ts.map (Token.mapSpan f)) := by
    subst hp
    exact ⟨rfl, rfl, completes_refl _⟩
  obtain ⟨prog, q, hrun⟩ := program_run hfaces.endMark
  obtain ⟨prog', q', hrun'⟩ := program_run hfaces'.endMark
  obtain ⟨rfl, -⟩ := (accepts_program h hfaces _).of_ok hrun
  obtain ⟨rfl, -⟩ := (accepts_program h' hfaces' _).of_ok hrun'
  exact ((program_moved f [] _ _ p).of_ok hrun hrun').1

/-- Tokens with the same words are the same at other places. -/
theorem moved_of_words {ts us : List Token} (hw : us.map Token.word = ts.map Token.word)
    (hs : (ts.map Token.span).Nodup) : ∃ f : Span → Span, us = ts.map (Token.mapSpan f) := by
  have hlength : (us.map Token.span).length = (ts.map Token.span).length := by
    simpa using congrArg List.length hw
  obtain ⟨f, hf⟩ := exists_span_map hs hlength
  refine ⟨f, ?_⟩
  clear hs hlength
  induction ts generalizing us with
  | nil => simpa using hw
  | cons t ts ih =>
    cases us with
    | nil => cases hw
    | cons u us =>
      obtain ⟨hword, hwords⟩ := List.cons.inj hw
      obtain ⟨hspan, hspans⟩ := List.cons.inj hf
      obtain ⟨hkind, hliteral⟩ := Prod.mk.inj hword
      rw [List.map_cons, ← ih hwords hspans]
      obtain ⟨kind, literal, span⟩ := u
      obtain rfl : kind = t.kind := hkind
      obtain rfl : literal = t.literal := hliteral
      obtain rfl : f t.span = span := hspan
      rfl

theorem stream_nodup (source : String) : ((Lexer.stream source).map Token.span).Nodup := by
  have htiles := tokens_tile _ (Scanner.ofString_at source)
  have hlength : (ofString source).endMark.span.length = 0 := rfl
  have hmark := htiles.mark_nodup hlength
  unfold Lexer.stream
  rw [List.map_append, List.map_singleton]
  exact (List.perm_append_singleton _ _).nodup_iff.mpr hmark

theorem BreaksAt.not_accepted {source : String} {before : List Token} {t : Token} {complete : Nat}
    {cause : SyntaxError.Cause} (h : BreaksAt source before t complete cause) :
    scan ⟨0, 0, []⟩ (Lexer.stream source) ≠ .accepted := by
  rw [h.refused]
  simp

theorem completed_program (source : String) :
    Reading.completed source <+: (Reading.ofSource source).program := by
  obtain ⟨q, hrun, -⟩ := reading_run_limit source
  exact (completed_front _ _).of_ok hrun

theorem BreaksAt.errors_ne_nil {source : String} {before : List Token} {t : Token}
    {complete : Nat} {cause : SyntaxError.Cause} (h : BreaksAt source before t complete cause) :
    (Reading.ofSource source).errors ≠ [] := by
  intro hnone
  have hhead := h.error
  rw [hnone] at hhead
  cases hhead

theorem no_errors_of_accepted {source : String}
    (h : scan ⟨0, 0, []⟩ (Lexer.stream source) = .accepted) :
    (Reading.ofSource source).errors = [] := by
  obtain ⟨-, hnone⟩ | ⟨_, _, _, _, hbreak⟩ := reading_course source
  · exact hnone
  · exact absurd h hbreak.not_accepted

/-- Whether a text is accepted is in the words of its tokens. -/
theorem accepted_of_words {source : String} {ts : List Token}
    (hw : (Lexer.stream source).map Token.word = ts.map Token.word)
    (h : scan ⟨0, 0, []⟩ ts = .accepted) : scan ⟨0, 0, []⟩ (Lexer.stream source) = .accepted := by
  obtain ⟨haccepted, -⟩ | ⟨before, t, complete, cause, hbreak⟩ := reading_course source
  · exact haccepted
  · have hlt : before.length < (Lexer.stream source).length := by
      have hle := hbreak.stands.length_le
      rwa [List.length_append] at hle
    have hrefused := hbreak.refused
    rw [← List.append_nil (Lexer.stream source)] at hrefused
    have hts := scan_congr [] [] hw hrefused (by simpa using hlt)
    rw [List.append_nil, h] at hts
    cases hts

section
variable {source other : String} {before : List Token} {t : Token} {complete : Nat}
  {cause : SyntaxError.Cause}

/-- The tokens before the one refused are words of a text without errors. -/
theorem BreaksAt.viable (h : BreaksAt source before t complete cause) :
    ∃ viable, (Reading.ofSource viable).errors = [] ∧
      before.map Token.word <+: (ofString viable).tokens.map Token.word := by
  obtain ⟨behind, hs⟩ := h.stands
  rw [List.append_assoc, List.singleton_append] at hs
  have hfront : before <+: (ofString source).tokens := by
    refine List.prefix_of_prefix_length_le ⟨_, hs⟩ (List.prefix_append _ _) ?_
    have hlength := congrArg List.length hs
    simp [Lexer.stream] at hlength
    omega
  have hrefused := h.refused
  rw [← hs] at hrefused
  have hmark : (Token.endAt 0).kind = .endOfInput := rfl
  obtain ⟨hlegal, ws, hws, haccepted⟩ := scan_viable hmark hrefused (by simp) (by simp)
  have hspelled : ∀ u ∈ before ++ ws, u.Spelled := by
    intro u hu
    rcases List.mem_append.mp hu with hu | hu
    · exact tokens_spelled _ u (hfront.mem hu) (hlegal u hu)
    · exact hws u hu
  obtain ⟨viable, hviable⟩ := exists_source hspelled
  refine ⟨viable, no_errors_of_accepted (accepted_of_words ?_ haccepted), ?_⟩
  · unfold Lexer.stream
    rw [List.map_append, List.map_append, hviable]
    rfl
  · rw [hviable, List.map_append]
    exact List.prefix_append _ _

/-- Another text with the same words up to the token refused breaks at the same place. -/
theorem BreaksAt.elsewhere (h : BreaksAt source before t complete cause)
    (hw : (before ++ [t]).map Token.word <+: (Lexer.stream other).map Token.word) :
    ∃ before' t', BreaksAt other before' t' complete cause ∧
      (before' ++ [t']).map Token.word = (before ++ [t]).map Token.word := by
  obtain ⟨n, hn⟩ : ∃ n, n = (before ++ [t]).length := ⟨_, rfl⟩
  have hwords : (before ++ [t]).map Token.word = ((Lexer.stream other).take n).map Token.word := by
    rw [List.map_take, hn, ← List.length_map]
    exact List.prefix_iff_eq_take.mp hw
  obtain ⟨behind, hs⟩ := h.stands
  have hrefused := h.refused
  rw [← hs] at hrefused
  have hother := scan_congr behind ((Lexer.stream other).drop n) hwords hrefused (by simp)
  rw [List.take_append_drop] at hother
  obtain ⟨haccepted, -⟩ | ⟨before', t', complete', cause', hbreak⟩ := reading_course other
  · rw [hother] at haccepted
    cases haccepted
  · obtain ⟨rfl, hlength, rfl⟩ := Verdict.refused.inj (hother.symm.trans hbreak.refused)
    have htake : before' ++ [t'] = (Lexer.stream other).take n := by
      have hsame : n = (before' ++ [t']).length := by simp [hn, hlength]
      rw [hsame]
      exact List.prefix_iff_eq_take.mp hbreak.stands
    exact ⟨before', t', hbreak, by rw [htake, hwords]⟩

/-- Which statements are complete before the token refused is told by the tokens up to it. -/
theorem BreaksAt.same {before' : List Token} {t' : Token} {f : Span → Span}
    (h : BreaksAt source before t complete cause) (h' : BreaksAt other before' t' complete cause)
    (hf : before' ++ [t'] = (before ++ [t]).map (Token.mapSpan f)) :
    (Reading.ofSource other).errors.head? = some (SyntaxError.mapSpan f ⟨cause, t.span⟩) ∧
      Reading.completed other = (Reading.completed source).mapSpans f := by
  rw [List.map_append, List.map_singleton] at hf
  obtain ⟨rfl, ht⟩ := List.append_inj' hf rfl
  obtain rfl : t' = t.mapSpan f := by simpa using ht
  have hd := h'.derived
  rw [← List.map_take] at hd
  exact ⟨h'.error, derives_moved h.derived hd⟩

end

/-- The parser that records a first syntax error does so at the earliest token. The tokens before
it can go on to a text without errors, and with it they cannot. And whatever stands behind it, the first
error is the same, after the same complete statements. -/
theorem first_error_earliest {source : String} (h : (Reading.ofSource source).errors ≠ []) :
    ∃ n t e, (Lexer.stream source)[n]? = some t ∧
      (Reading.ofSource source).errors.head? = some e ∧ e.span = t.span ∧
      (∀ k u, (Lexer.stream source)[k]? = some u → u.span = e.span → k = n) ∧
      Reading.completed source <+: (Reading.ofSource source).program ∧
      (∃ viable, (Reading.ofSource viable).errors = [] ∧
        ((Lexer.stream source).take n).map Token.word <+:
          (ofString viable).tokens.map Token.word) ∧
      (∀ other, ((Lexer.stream source).take (n + 1)).map Token.word <+:
          (Lexer.stream other).map Token.word → (Reading.ofSource other).errors ≠ []) ∧
      ∀ other, ((Lexer.stream source).take (n + 1)).map Token.word <+:
          (Lexer.stream other).map Token.word →
        ∃ f : Span → Span,
          ((Lexer.stream source).take (n + 1)).map (Token.mapSpan f) <+: Lexer.stream other ∧
          (Reading.ofSource other).errors.head? = some (e.mapSpan f) ∧
          Reading.completed other = (Reading.completed source).mapSpans f := by
  obtain ⟨-, hnone⟩ | ⟨before, t, complete, cause, hbreak⟩ := reading_course source
  · exact absurd hnone h
  obtain ⟨n, hn⟩ : ∃ n, n = before.length := ⟨_, rfl⟩
  obtain ⟨behind, hs⟩ := hbreak.stands
  have hbefore : (Lexer.stream source).take n = before := by
    rw [← hs, hn, List.append_assoc, List.take_left]
  have hupto : (Lexer.stream source).take (n + 1) = before ++ [t] := by
    have hlength : n + 1 = (before ++ [t]).length := by simp [hn]
    rw [hlength]
    exact (List.prefix_iff_eq_take.mp hbreak.stands).symm
  have hplace : (Lexer.stream source)[n]? = some t := by
    rw [← hs, hn, List.append_assoc, List.getElem?_append_right (Nat.le_refl _)]
    simp
  have hnodup := stream_nodup source
  refine ⟨n, t, ⟨cause, t.span⟩, hplace, hbreak.error, rfl, ?_, completed_program source, ?_⟩
  · intro k u hk hspan
    obtain ⟨hlt, -⟩ := List.getElem?_eq_some_iff.mp hk
    refine (List.getElem?_inj (by rwa [List.length_map]) hnodup).mp ?_
    rw [List.getElem?_map, List.getElem?_map, hk, hplace]
    exact congrArg some hspan
  rw [hbefore, hupto]
  refine ⟨hbreak.viable, fun other hother => ?_, fun other hother => ?_⟩
  · obtain ⟨before', t', hbreak', -⟩ := hbreak.elsewhere hother
    exact hbreak'.errors_ne_nil
  · have hfront : ((before ++ [t]).map Token.span).Nodup := by
      rw [← hupto, List.map_take]
      exact hnodup.sublist (List.take_sublist _ _)
    obtain ⟨before', t', hbreak', hwords⟩ := hbreak.elsewhere hother
    obtain ⟨f, hf⟩ := moved_of_words hwords hfront
    obtain ⟨herror, hcompleted⟩ := hbreak.same hbreak' hf
    exact ⟨f, hf ▸ hbreak'.stands, herror, hcompleted⟩

/-- A call within a block breaks off at a semicolon, behind a complete statement. -/
theorem first_error_earliest_nested :
    (Reading.ofSource "let a = [1]; if (a) { f(2; 3 }").errors ≠ [] ∧
      (∃ viable, (Reading.ofSource viable).errors = [] ∧
        ((Lexer.stream "let a = [1]; if (a) { f(2; 3 }").take 15).map Token.word <+:
          (ofString viable).tokens.map Token.word) ∧
      ∀ other, ((Lexer.stream "let a = [1]; if (a) { f(2; 3 }").take 16).map Token.word <+:
          (Lexer.stream other).map Token.word →
        (∃ span, (Reading.ofSource other).errors.head? =
          some ⟨.unexpected .rightParen .semicolon, span⟩) ∧
        (Reading.completed other).length = 1 := by
  obtain ⟨source, hsource⟩ : ∃ source, source = "let a = [1]; if (a) { f(2; 3 }" := ⟨_, rfl⟩
  have herrors : (Reading.ofSource source).errors ≠ [] := by
    subst hsource
    decide +kernel
  have hhead : (Reading.ofSource source).errors.head? =
      some ⟨.unexpected .rightParen .semicolon, ⟨25, 1⟩⟩ := by
    subst hsource
    decide +kernel
  have hplace : (Lexer.stream source)[15]? = some ⟨.semicolon, ";", ⟨25, 1⟩⟩ := by
    subst hsource
    decide +kernel
  have hcompleted : (Reading.completed source).length = 1 := by
    subst hsource
    decide +kernel
  rw [← hsource]
  obtain ⟨n, t, e, -, he, -, hunique, -, hviable, -, hsame⟩ := first_error_earliest herrors
  obtain rfl := Option.some.inj (he.symm.trans hhead)
  obtain rfl := hunique 15 _ hplace rfl
  refine ⟨herrors, hviable, fun other hother => ?_⟩
  obtain ⟨f, -, herror, hstatements⟩ := hsame other hother
  obtain ⟨first, hfirst⟩ := List.length_eq_one_iff.mp hcompleted
  rw [hstatements, hfirst]
  exact ⟨⟨_, herror⟩, rfl⟩

end MonkeyLang
