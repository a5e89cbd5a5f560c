import MonkeyLang.Proofs.Lexing.Tokens
import MonkeyLang.Proofs.Parsing.Complete

namespace MonkeyLang

namespace Parse

theorem ends_somehow {α : Type} (x : Parse α) (p : Parser) :
    Ends x p (fun _ _ => True) fun _ _ => True := by
  unfold Ends
  cases x.run p <;> trivial

/-- Syntax errors of statements do not leave the program. -/
theorem program_stops (n : Nat) : ∀ p,
    Ends (program n) p (fun _ _ => True) fun s _ => s = .depth := by
  induction n with
  | zero => exact fun _ => rfl
  | succ n ih =>
    intro p
    rw [program, Body.program]
    refine ends_bind.2 (ends_current.2 ?_)
    split
    · trivial
    · refine ends_bind.2 (ends_attempt.2 ((ends_somehow _ p).mono ?_ ?_))
      · exact fun s q _ => ends_bind.2 (ends_bind.2 ((ih _).mono (fun _ _ h => h) fun _ _ h => h))
      · exact fun s q _ => ⟨fun _ => ends_bind.2 (ends_bind.2 (ih _)), fun _ => rfl⟩

end Parse

open Parse MonkeyLang.Parser Grammar

/-- The limit does not stop the run of a parser. -/
theorem program_run {p : Parser} (hm : p.endMark.kind = .endOfInput) :
    ∃ prog q, (program p.limit : Parse Program).run p = .ok prog q := by
  have hleft : p.Left p.tokens.length := ⟨hm, Nat.le_refl _⟩
  have hfinish := (finishes_program p.limit _ _ hleft (by unfold Parser.limit; omega)).and
    (program_stops _ _)
  cases hr : (program p.limit : Parse Program).run p with
  | ok prog q => exact ⟨prog, q, rfl⟩
  | error s q =>
    obtain ⟨⟨hs, -⟩, hd⟩ := hfinish.of_error hr
    exact absurd (hs.symm.trans hd) (by decide)

/-- The run of the parser on a source, which the limit does not stop. -/
theorem reading_run_limit (source : String) : ∃ q,
    (program (Parser.ofLexer (Lexer.ofString source)).limit : Parse Program).run
        (Parser.ofLexer (Lexer.ofString source)) = .ok (Reading.ofSource source).program q ∧
      q.errors = (Reading.ofSource source).errors := by
  obtain ⟨prog, q, hr⟩ := program_run (p := Parser.ofLexer (Lexer.ofString source)) rfl
  have hread : (Parser.ofLexer (Lexer.ofString source)).readProgram = (prog, q) := by
    unfold readProgram
    rw [EStateM.run] at hr
    rw [hr]
  refine ⟨q, ?_, ?_⟩
  · simp [Reading.ofSource, hread, hr]
  · simp [Reading.ofSource, hread]

theorem reading_run (source : String) : ∃ n q,
    (program n : Parse Program).run (Parser.ofLexer (Lexer.ofString source)) =
      .ok (Reading.ofSource source).program q ∧ q.errors = (Reading.ofSource source).errors :=
  ⟨_, reading_run_limit source⟩

namespace Grammar

def opened (ts : List Token) : Nat := ts.countP fun t => t.kind = .leftBrace

def closed (ts : List Token) : Nat := ts.countP fun t => t.kind = .rightBrace

theorem opened_append (ts us : List Token) : opened (ts ++ us) = opened ts + opened us :=
  List.countP_append

theorem closed_append (ts us : List Token) : closed (ts ++ us) = closed ts + closed us :=
  List.countP_append

theorem opened_of_braces {ts : List Token} (h : ∀ t ∈ ts, t.kind = .rightBrace) :
    opened ts = 0 := by
  refine List.countP_eq_zero.mpr fun t ht => ?_
  simp [h t ht]

theorem closed_of_braces {ts : List Token} (h : ∀ t ∈ ts, t.kind = .rightBrace) :
    closed ts = ts.length := by
  refine List.countP_eq_length.mpr fun t ht => ?_
  simp [h t ht]

theorem Derives.balanced {ts : List Token} {phrase : Phrase} (h : Derives False ts phrase) :
    opened ts = closed ts := by
  unfold opened closed
  induction h with
  | name ht => simp [ht]
  | integer ht hn => simp [ht]
  | string ht => simp [ht]
  | boolean ht =>
    simp only [truthWords, List.mem_cons, Prod.mk.injEq, List.not_mem_nil, or_false] at ht
    rcases ht with ⟨ht, -⟩ | ⟨ht, -⟩ <;> simp [ht]
  | group hl _ hr ih => simp [hl, hr, ih]
  | array hl _ hr ih => simp [hl, hr, ih]
  | conditional hi hl _ hr _ ihe ihb => simp [hi, hl, hr, ihe, ihb]
  | alternative hi hl _ hr _ hw _ ihe ihb iha => simp [hi, hl, hr, hw, ihe, ihb, iha]
  | function hf hl _ hr _ ihn ihb => simp [hf, hl, hr, ihn, ihb]
  | call _ hl _ hr ihe ihes => simp [hl, hr, ihe, ihes]
  | index _ hl _ hr ihe ihi => simp [hl, hr, ihe, ihi]
  | unary ht _ ih =>
    simp only [prefixOperators, List.mem_cons, Prod.mk.injEq, List.not_mem_nil, or_false] at ht
    rcases ht with ⟨ht, -⟩ | ⟨ht, -⟩ <;> simp [ht, ih]
  | @binary _ t _ _ _ _ _ ht _ _ iha ihb =>
    have hop := (ofKind_of_mem ht).1
    have hl : t.kind ≠ .leftBrace := fun h => by simp [h, InfixOp.ofKind?] at hop
    have hr : t.kind ≠ .rightBrace := fun h => by simp [h, InfixOp.ofKind?] at hop
    simp [hl, hr, iha, ihb]
  | loosen _ ih => exact ih
  | noItems => rfl
  | lastItem _ ih => exact ih
  | moreItems _ hc _ ihe ihes => simp [hc, ihe, ihes]
  | noParameters => rfl
  | lastParameter ht => simp [ht]
  | moreParameters ht hc _ ih => simp [ht, hc, ih]
  | block hl _ hr ih => simp [hl, hr, ih]
  | letName ht hx ha _ ih => simp [ht, hx, ha, ih]
  | returnValue ht _ ih => simp [ht, ih]
  | expression _ ih => exact ih
  | noStatements => rfl
  | terminated _ ht _ ihs ihss => simp [ht, ihs, ihss]
  | unterminated _ hu _ ihs ihss => simp [ihs, ihss]
  | skip h _ _ => exact h.elim

/-- The tokens derive the program once so many closing braces are supplied at their end. -/
def Missing (count : Nat) (tokens : List Token) (program : Program) : Prop :=
  ∃ missing : List Token, missing.length = count ∧ (∀ t ∈ missing, t.kind = .rightBrace) ∧
    Derives False (tokens ++ missing) (.statements program)

/-- As many braces are missing as have been opened and not closed. -/
theorem Missing.count {count : Nat} {tokens : List Token} {program : Program}
    (h : Missing count tokens program) : opened tokens = closed tokens + count := by
  obtain ⟨missing, hlen, hbrace, hd⟩ := h
  have hb := hd.balanced
  rw [opened_append, closed_append, opened_of_braces hbrace, closed_of_braces hbrace, hlen] at hb
  exact hb

end Grammar

/-- With errors or without, what has been read is derived, where stretches may be left out before
statements if there are errors. -/
theorem reading_derives (source : String) : ∃ ts,
    Completes (Lexer.ofString source).tokens ts ∧
      Derives (0 < (Reading.ofSource source).errors.length) ts
        (.statements (Reading.ofSource source).program) := by
  obtain ⟨n, q, hrun, herrors⟩ := reading_run source
  have hsound : (Parser.ofLexer (Lexer.ofString source)).Sound 0 :=
    ⟨rfl, fun t ht => (Lexer.tokens_proper _ t ht).inside, Nat.le_refl 0⟩
  have h := (sound_program n _ hsound).of_ok hrun
  rw [herrors] at h
  exact h

/-- What the grammar derives is read without errors. -/
theorem reading_of_derives {source : String} {ts : List Token} {prog : Program}
    (hts : Completes (Lexer.ofString source).tokens ts) (h : Derives False ts (.statements prog)) :
    Reading.ofSource source = ⟨prog, []⟩ := by
  obtain ⟨n, q, hrun, herrors⟩ := reading_run source
  have hfaces : (Parser.ofLexer (Lexer.ofString source)).Faces [] ts := ⟨rfl, rfl, hts⟩
  obtain ⟨hprog, hq⟩ := (accepts_program h hfaces n).of_ok hrun
  rw [← hprog, ← hq, herrors]

/-- The parser accepts just what the grammar derives, and gives the one tree there is. -/
theorem reading_accepts_grammar (source : String) :
    ((Reading.ofSource source).errors = [] ↔
      ∃ count program, Missing count (Lexer.ofString source).tokens program) ∧
    ((Reading.ofSource source).errors = [] →
      ∃ count, Missing count (Lexer.ofString source).tokens (Reading.ofSource source).program) ∧
    ∀ count program, Missing count (Lexer.ofString source).tokens program →
      program = (Reading.ofSource source).program ∧
        ∀ count' program', Missing count' (Lexer.ofString source).tokens program' →
          count' = count := by
  have hsound : (Reading.ofSource source).errors = [] →
      ∃ count, Missing count (Lexer.ofString source).tokens (Reading.ofSource source).program := by
    intro he
    obtain ⟨ts, ⟨missing, hbrace, rfl⟩, hd⟩ := reading_derives source
    exact ⟨_, missing, rfl, hbrace, hd.mono (by simp [he])⟩
  have hcomplete : ∀ count program, Missing count (Lexer.ofString source).tokens program →
      Reading.ofSource source = ⟨program, []⟩ := by
    intro count program h
    obtain ⟨missing, -, hbrace, hd⟩ := h
    exact reading_of_derives ⟨missing, hbrace, rfl⟩ hd
  refine ⟨⟨fun he => ?_, ?_⟩, hsound, fun count program hm => ⟨?_, ?_⟩⟩
  · obtain ⟨count, hm⟩ := hsound he
    exact ⟨count, _, hm⟩
  · rintro ⟨count, program, hm⟩
    rw [hcomplete count program hm]
  · rw [hcomplete count program hm]
  · intro count' program' hm'
    have h := hm.count
    have h' := hm'.count
    omega

end MonkeyLang
