import MonkeyLang.Proofs.Parsing.Grammar
import MonkeyLang.Proofs.Parsing.Limit

namespace MonkeyLang

namespace Grammar

/-- The tokens `ts` are `us` with closing braces supplied that are missing at the end. -/
def Completes (us ts : List Token) : Prop :=
  ∃ missing : List Token, (∀ t ∈ missing, t.kind = .rightBrace) ∧ us ++ missing = ts

variable {us vs ws ts ss : List Token} {t : Token}

theorem completes_refl (us : List Token) : Completes us us := ⟨[], by simp, by simp⟩

theorem completes_of_eq (h : ts ++ vs = us) : Completes us (ts ++ vs) := ⟨[], by simp, by simp [h]⟩

theorem completes_brace (ht : t.kind = .rightBrace) : Completes [] [t] := ⟨[t], by simp [ht], rfl⟩

theorem Completes.append (h : Completes us (ts ++ vs)) (k : Completes vs (ss ++ ws)) :
    Completes us (ts ++ ss ++ ws) := by
  obtain ⟨b, hb, h⟩ := h
  obtain ⟨c, hc, k⟩ := k
  refine ⟨b ++ c, ?_, ?_⟩
  · intro t ht
    rcases List.mem_append.mp ht with ht | ht
    · exact hb t ht
    · exact hc t ht
  · rw [← List.append_assoc, h, List.append_assoc, k, List.append_assoc]

/-- The first token is there, unless it is a closing brace. -/
theorem Completes.cons (h : Completes us (t :: ts)) :
    (∃ rest, us = t :: rest ∧ Completes rest ts) ∨
      (us = [] ∧ t.kind = .rightBrace ∧ Completes [] ts) := by
  obtain ⟨b, hb, h⟩ := h
  cases us with
  | nil =>
    subst h
    exact .inr ⟨rfl, hb t (by simp), ts, fun u hu => hb u (by simp [hu]), rfl⟩
  | cons u us =>
    injection h with hu h
    subst hu
    exact .inl ⟨us, rfl, b, hb, h⟩

theorem mem_operators {kind : Token.Kind} {op : InfixOp} (h : InfixOp.ofKind? kind = some op) :
    (kind, op) ∈ operators (Strength.ofKind kind).rank ∧ (Strength.ofKind kind).rank ≤ 5 := by
  cases kind <;> cases h <;> decide

theorem ofKind_of_mem {kind : Token.Kind} {op : InfixOp} {k : Nat} (h : (kind, op) ∈ operators k) :
    InfixOp.ofKind? kind = some op ∧ (Strength.ofKind kind).rank = k ∧ 1 ≤ k ∧ k ≤ 5 := by
  have hall : ∀ j ≤ 5, ∀ pair ∈ operators j, InfixOp.ofKind? pair.1 = some pair.2 ∧
      (Strength.ofKind pair.1).rank = j ∧ 1 ≤ j := by decide
  by_cases hk : k ≤ 5
  · obtain ⟨ho, hr, h1⟩ := hall k hk _ h
    exact ⟨ho, hr, h1, hk⟩
  · obtain ⟨j, rfl⟩ : ∃ j, k = j + 6 := ⟨k - 6, by omega⟩
    simp [operators] at h

theorem rank_of_none {kind : Token.Kind} (h : InfixOp.ofKind? kind = none) :
    kind = .leftParen ∨ kind = .leftBracket ∨ (Strength.ofKind kind).rank = 0 := by
  revert h
  cases kind <;> decide

/-- Tokens that do not go on with an expression have the lowest strength. -/
theorem continues_iff {kind : Token.Kind} :
    Continues kind ↔ 0 < (Strength.ofKind kind).rank := by
  constructor
  · rintro (rfl | rfl | ⟨level, op, h⟩)
    · decide
    · decide
    · have hk := ofKind_of_mem h
      omega
  · intro h
    cases ho : InfixOp.ofKind? kind with
    | some op => exact .inr (.inr ⟨_, op, (mem_operators ho).1⟩)
    | none =>
      rcases rank_of_none ho with hk | hk | hk
      · exact .inl hk
      · exact .inr (.inl hk)
      · omega

/-- How far a token reaches back: not past its own level of operators, and calls and indexing take
only what has no prefix operator. -/
def reach (kind : Token.Kind) : Nat := min (Strength.ofKind kind).rank 7

theorem reach_le (kind : Token.Kind) : reach kind ≤ 7 := Nat.min_le_right _ _

end Grammar

namespace Parser

open Grammar

/-- The parser has recorded at least `errors` errors, and it is the mark behind its tokens that
stands for the end. -/
structure Sound (errors : Nat) (p : Parser) : Prop where
  endMark : p.endMark.kind = .endOfInput
  tokens : ∀ t ∈ p.tokens, t.kind ≠ .endOfInput
  errors_le : errors ≤ p.errors.length

theorem Sound.reach {errors : Nat} {p q : Parser} (h : p.Sound errors) (k : p.Reaches q) :
    q.Sound errors :=
  ⟨k.endMark ▸ h.endMark, fun t ht => h.tokens t (k.tokens.mem ht),
    Nat.le_trans h.errors_le k.errors.length_le⟩

theorem Reaches.le {p q : Parser} (h : p.Reaches q) : p.errors.length ≤ q.errors.length :=
  h.errors.length_le

theorem Sound.advance {errors : Nat} {p : Parser} (h : p.Sound errors) : p.advance.Sound errors :=
  h.reach (reaches_advance p)

/-- Unless it stands at the end, the parser takes its current token when it advances. -/
theorem Sound.completes {errors : Nat} {p : Parser} (h : p.Sound errors)
    (hc : p.current.kind ≠ .endOfInput) : Completes p.tokens ([p.current] ++ p.advance.tokens) := by
  cases ht : p.tokens with
  | nil => simp [current, ht, h.endMark] at hc
  | cons t rest => simpa [current, Parser.advance, ht] using completes_refl (t :: rest)

theorem Sound.tokens_eq_nil {errors : Nat} {p : Parser} (h : p.Sound errors)
    (hc : p.current.kind = .endOfInput) : p.tokens = [] := by
  cases ht : p.tokens with
  | nil => rfl
  | cons t rest => exact absurd (by simpa [current, ht] using hc) (h.tokens t (by simp [ht]))

theorem Sound.completes_next {errors : Nat} {p : Parser} (h : p.Sound errors)
    (hc : p.next.kind ≠ .endOfInput) :
    Completes p.advance.tokens ([p.next] ++ p.advance.advance.tokens) := h.advance.completes hc

end Parser

namespace Parse

open Grammar MonkeyLang.Parser

variable {α β : Type} {p : Parser} {errors : Nat}

/-- If the run ends well, then with `ok`. -/
def WhenOk (x : Parse α) (p : Parser) (ok : α → Parser → Prop) : Prop :=
  Ends x p ok fun _ _ => True

/-- The run obeys the discipline of all runs, and if it ends well, then with `ok`. -/
def Yields (x : Parse α) (p : Parser) (ok : α → Parser → Prop) : Prop :=
  Ends x p (fun a q => p.Reaches q ∧ ok a q) fun s q => s = .syntaxError → p.Fails q

section
variable {ok : β → Parser → Prop}

theorem WhenOk.yields {x : Parse β} (h : WhenOk x p ok) (hx : Obeys Reaches Fails p x p) :
    Yields x p ok :=
  (hx.and h).mono (fun _ _ hq => hq) fun _ _ hs => hs.1

theorem Yields.bind {x : Parse α} {f : α → Parse β} {ok' : α → Parser → Prop}
    (hx : Yields x p ok') (hf : ∀ a q, p.Reaches q → ok' a q → WhenOk (f a) q ok) :
    WhenOk (x >>= f) p ok :=
  ends_bind.2 (hx.mono (fun a q hq => hf a q hq.1 hq.2) fun _ _ _ => trivial)

theorem WhenOk.current {f : Token → Parse β} (h : WhenOk (f p.current) p ok) :
    WhenOk (current >>= f) p ok := h

theorem WhenOk.next {f : Token → Parse β} (h : WhenOk (f p.next) p ok) :
    WhenOk (next >>= f) p ok := h

theorem WhenOk.advance {f : Unit → Parse β} (h : WhenOk (f ()) p.advance ok) :
    WhenOk (advance >>= f) p ok := h

theorem WhenOk.demand {kind : Token.Kind} {f : Unit → Parse β}
    (h : p.next.kind = kind → WhenOk (f ()) p.advance ok) : WhenOk (demand kind >>= f) p ok :=
  ends_bind.2 (ends_demand.2 ⟨h, fun _ => trivial⟩)

theorem WhenOk.accept {kind : Token.Kind} {f : Bool → Parse β}
    (ht : p.next.kind = kind → WhenOk (f true) p.advance ok)
    (hf : p.next.kind ≠ kind → WhenOk (f false) p ok) : WhenOk (accept kind >>= f) p ok :=
  ends_bind.2 (ends_accept.2 ⟨ht, hf⟩)

end

theorem Yields.attempt {x : Parse α} {f : Option α → Parse β} {ok : β → Parser → Prop}
    {ok' : α → Parser → Prop} (hx : Yields x p ok')
    (hs : ∀ a q, p.Reaches q → ok' a q → WhenOk (f (some a)) q ok)
    (hn : ∀ q, p.Fails q → WhenOk (f none) q ok) : WhenOk (attempt x >>= f) p ok :=
  ends_bind.2 (ends_attempt.2 (hx.mono (fun a q hq => hs a q hq.1 hq.2)
    fun _ q hq => ⟨fun h => hn q (hq h), fun _ => trivial⟩))

theorem WhenOk.recover {f : Unit → Parse β} {ok : β → Parser → Prop}
    (h : WhenOk (f ()) { p with tokens := Parser.abandon p.tokens } ok) :
    WhenOk (recover >>= f) p ok := h

/-- The tokens from `p` up to those behind `q` derive the phrase; none are left out if there are no
more than so many errors. -/
def Reads (errors : Nat) (p : Parser) (phrase : Phrase) (q : Parser) : Prop :=
  ∃ ts, Completes p.tokens (ts ++ q.advance.tokens) ∧ Derives (errors < q.errors.length) ts phrase

/-- An operand reaches as far as a token behind it can go on with it. -/
def ReadsOperand (errors : Nat) (p : Parser) (e : Expr) (q : Parser) : Prop :=
  ∃ level, 6 ≤ level ∧ reach q.next.kind ≤ level ∧ Reads errors p (.expression level e) q

/-- An expression ends before a token that does not bind tighter than `least`. -/
def ReadsExpression (errors : Nat) (least : Strength) (p : Parser) (e : Expr) (q : Parser) :
    Prop :=
  (Strength.ofKind q.next.kind).rank ≤ least.rank ∧
    Reads errors p (.expression (min (least.rank + 1) 6) e) q

theorem Reads.primary {e : Expr} {q : Parser} (h : Reads errors p (.expression 7 e) q) :
    ReadsOperand errors p e q := ⟨7, by omega, reach_le _, h⟩

/-- A token that is an operand of its own. -/
theorem reads_token {phrase : Phrase} (hp : p.Sound errors) (hc : p.current.kind ≠ .endOfInput)
    (h : Derives (errors < p.errors.length) [p.current] phrase) : Reads errors p phrase p :=
  ⟨[p.current], hp.completes hc, h⟩

theorem sound_integer (hp : p.Sound errors) (hk : p.current.kind = .integer) :
    WhenOk (integer p.current) p (fun e q => ReadsOperand errors p e q) := by
  unfold integer
  refine ends_ite.2 ⟨fun hn => ?_, fun _ => trivial⟩
  exact (reads_token hp (by simp [hk]) (.integer hk (Nat.le_sub_one_of_lt hn))).primary

/-- The tokens up to a closing one derive the phrase. -/
def ReadsUpTo (errors : Nat) (closing : Token.Kind) (p : Parser) (phrase : Phrase) (q : Parser) :
    Prop :=
  ∃ ts r, Completes p.tokens (ts ++ [r] ++ q.advance.tokens) ∧ r.kind = closing ∧
    Derives (errors < q.errors.length) ts phrase

/-- A statement ends with a semicolon or before a token that does not go on with it. -/
def ReadsStatement (errors : Nat) (p : Parser) (s : Stmt) (q : Parser) : Prop :=
  Reads errors p (.core s) q ∧ ¬Continues q.next.kind ∨
    ReadsUpTo errors .semicolon p (.core s) q

/-- What was derived before more errors were recorded is still derived. -/
theorem derives_le {m k : Nat} {ts : List Token} {phrase : Phrase} (h : m ≤ k)
    (hd : Derives (errors < m) ts phrase) : Derives (errors < k) ts phrase :=
  hd.mono fun hl => Nat.lt_of_lt_of_le hl h

/-- An expression begins with the token that the parser stands on. -/
theorem Reads.current {k : Nat} {e : Expr} {q : Parser}
    (h : Reads errors p (.expression k e) q) : ∃ ts, Completes p.tokens
      (p.current :: ts ++ q.advance.tokens) ∧
      Derives (errors < q.errors.length) (p.current :: ts) (.expression k e) := by
  obtain ⟨ts, hts, he⟩ := h
  obtain ⟨t, us, rfl, ht⟩ := he.beginsWith
  rcases hts.cons with ⟨rest, hp, -⟩ | ⟨-, hk, -⟩
  · have hc : p.current = t := by simp [Parser.current, hp]
    rw [hc]
    exact ⟨us, hts, he⟩
  · simp [hk, openers] at ht

theorem reads_end {s : Stmt} {q : Parser} (hq : q.Sound errors)
    (h : Reads errors p (.core s) q) (hn : (Strength.ofKind q.next.kind).rank ≤ 0) :
    WhenOk (accept .semicolon >>= fun _ => pure s) q (ReadsStatement errors p) := by
  obtain ⟨ts, hts, hs⟩ := h
  refine WhenOk.accept (fun hk => .inr ⟨ts, q.next, ?_, hk, hs⟩) fun _ => .inl ⟨⟨ts, hts, hs⟩, ?_⟩
  · exact hts.append (hq.completes_next (by simp [hk]))
  · rw [continues_iff]
    omega

/-- A statement in front of others. -/
theorem ReadsStatement.append {s : Stmt} {ss : List Stmt} {q : Parser} {us ws : List Token}
    {m : Nat} (h : ReadsStatement errors p s q) (hus : Completes q.advance.tokens (us ++ ws))
    (hm : q.errors.length ≤ m) (hss : Derives (errors < m) us (.statements ss)) :
    ∃ ts, Completes p.tokens (ts ++ ws) ∧ Derives (errors < m) ts (.statements (s :: ss)) := by
  rcases h with ⟨⟨ts, hts, hs⟩, hn⟩ | ⟨ts, r, hts, hr, hs⟩
  · refine ⟨ts ++ us, hts.append hus, .unterminated (derives_le hm hs) ?_ hss⟩
    intro u hu
    cases us with
    | nil => simp at hu
    | cons v vs =>
      obtain rfl : v = u := by simpa using hu
      rcases hus.cons with ⟨rest, hq, -⟩ | ⟨-, hk, -⟩
      · have hv : q.next = v := by
          change q.advance.tokens.headD q.endMark = v
          simp [hq]
        rwa [← hv]
      · simp [hk, continues_iff, Strength.ofKind, Strength.rank]
  · refine ⟨ts ++ r :: us, ?_, .terminated (derives_le hm hs) hr hss⟩
    simpa using hts.append hus

theorem sound_parameters : ∀ n p, p.Sound errors →
    WhenOk (parameters n) p fun names q => names ≠ [] ∧
      ReadsUpTo errors .rightParen p.advance (.parameters names) q
  | 0, _, _ => trivial
  | n + 1, p, hp => by
    rw [parameters, Body.parameters]
    refine WhenOk.demand fun hk => WhenOk.current (WhenOk.accept (fun hc => ?_) fun _ => ?_)
    · have ht := hp.completes_next (by simp [hk])
      have hcomma := hp.advance.completes_next (by simp [hc])
      refine ((sound_parameters n _ hp.advance.advance).yields (obeys_parameters
        reaches_discipline n _)).bind ?_
      intro names q hq h
      obtain ⟨hn, us, r, hus, hr, hd⟩ := h
      obtain ⟨x, xs, rfl⟩ := List.exists_cons_of_ne_nil hn
      refine ⟨by simp, _, r, ?_, hr, .moreParameters hk hc hd⟩
      exact ht.append (hcomma.append hus)
    · refine WhenOk.demand fun hr => ⟨by simp, _, p.advance.next, ?_, hr, .lastParameter hk⟩
      exact (hp.completes_next (by simp [hk])).append (hp.advance.completes_next (by simp [hr]))

/-- What is read with so much recursion left is derived. -/
structure SoundAt (errors n : Nat) : Prop where
  expression : ∀ least p, p.Sound errors →
    WhenOk (Parse.expression n least) p (ReadsExpression errors least p)
  operand : ∀ p, p.Sound errors → WhenOk (Parse.operand n) p (ReadsOperand errors p)
  extend : ∀ least left p p₀ level, p.Sound errors →
    Reads errors p₀ (.expression level left) p → reach p.next.kind ≤ level →
    min (least.rank + 1) 6 ≤ level →
    WhenOk (Parse.extend n least left) p (ReadsExpression errors least p₀)
  items : ∀ closing p, p.Sound errors → closing ≠ .endOfInput →
    WhenOk (Parse.items n closing) p fun es q =>
      ReadsUpTo errors closing p.advance (.items es) q
  moreItems : ∀ closing p p₀ e, p.Sound errors → closing ≠ .endOfInput →
    Reads errors p₀ (.expression 1 e) p →
    WhenOk (Parse.moreItems n closing) p fun es q =>
      ReadsUpTo errors closing p₀ (.items (e :: es)) q
  statement : ∀ p, p.Sound errors → WhenOk (Parse.statement n) p (ReadsStatement errors p)
  block : ∀ p, p.Sound errors → p.current.kind = .leftBrace →
    WhenOk (Parse.block n) p fun b q => Reads errors p (.block b) q
  statements : ∀ p, p.Sound errors →
    WhenOk (Parse.statements n) p fun ss q => ReadsUpTo errors .rightBrace p (.statements ss) q

section
variable {n : Nat} (s : SoundAt errors n) {ok : β → Parser → Prop}
include s

theorem WhenOk.expression {least : Strength} {f : Expr → Parse β} (hp : p.Sound errors)
    (hf : ∀ e q, p.Reaches q → ReadsExpression errors least p e q → WhenOk (f e) q ok) :
    WhenOk (expression n least >>= f) p ok :=
  ((s.expression least p hp).yields (obeys_expression reaches_discipline n least p)).bind hf

theorem WhenOk.items {closing : Token.Kind} {f : List Expr → Parse β} (hp : p.Sound errors)
    (hc : closing ≠ .endOfInput)
    (hf : ∀ es q, p.Reaches q → ReadsUpTo errors closing p.advance (.items es) q →
      WhenOk (f es) q ok) : WhenOk (items n closing >>= f) p ok :=
  ((s.items closing p hp hc).yields (obeys_items reaches_discipline n closing p)).bind hf

theorem WhenOk.moreItems {closing : Token.Kind} {p₀ : Parser} {e : Expr}
    {f : List Expr → Parse β} (hp : p.Sound errors) (hc : closing ≠ .endOfInput)
    (he : Reads errors p₀ (.expression 1 e) p)
    (hf : ∀ es q, p.Reaches q → ReadsUpTo errors closing p₀ (.items (e :: es)) q →
      WhenOk (f es) q ok) : WhenOk (moreItems n closing >>= f) p ok :=
  ((s.moreItems closing p p₀ e hp hc he).yields
    (obeys_moreItems reaches_discipline n closing p)).bind hf

/-- A block that is demanded. -/
theorem sound_braces {f : Block → Parse β} (hp : p.Sound errors)
    (hf : ∀ b q, p.advance.Reaches q → Reads errors p.advance (.block b) q →
      WhenOk (f b) q ok) :
    WhenOk (demand .leftBrace >>= fun _ => block n >>= f) p ok :=
  WhenOk.demand fun hb =>
    ((s.block _ hp.advance hb).yields (obeys_block reaches_discipline n _)).bind hf

theorem WhenOk.statements {f : List Stmt → Parse β} (hp : p.Sound errors)
    (hf : ∀ ss q, p.Reaches q → ReadsUpTo errors .rightBrace p (.statements ss) q →
      WhenOk (f ss) q ok) : WhenOk (statements n >>= f) p ok :=
  ((s.statements p hp).yields (obeys_statements reaches_discipline n p)).bind hf

end

section
variable {n : Nat} (s : SoundAt errors n) (hp : p.Sound errors)
include s hp

theorem sound_expression (least : Strength) :
    WhenOk (expression (n + 1) least) p (ReadsExpression errors least p) := by
  rw [expression, Body.expression]
  have hoperand := (s.operand p hp).yields (obeys_operand reaches_discipline n p)
  refine hoperand.bind ?_
  intro left q hq h
  obtain ⟨level, h6, hreach, hleft⟩ := h
  exact s.extend least left q p level (hp.reach hq) hleft hreach (by omega)

theorem sound_unary {op : PrefixOp} (hk : (p.current.kind, op) ∈ prefixOperators) :
    WhenOk (operand (n + 1)) p (ReadsOperand errors p) := by
  have hend : p.current.kind ≠ .endOfInput := fun h => by simp [h, prefixOperators] at hk
  have hread : ∀ e q, p.advance.Reaches q → ReadsExpression errors .unary p.advance e q →
      ReadsOperand errors p (.unary p.current op e) q := by
    intro e q _ h
    obtain ⟨hn, ts, hts, he⟩ := h
    have hreach : reach q.next.kind ≤ 6 := Nat.le_trans (Nat.min_le_left _ _) hn
    exact ⟨6, Nat.le_refl 6, hreach, _, (hp.completes hend).append hts, .unary hk he⟩
  simp only [prefixOperators, List.mem_cons, Prod.mk.injEq, List.not_mem_nil, or_false] at hk
  rw [operand, Body.operand]
  apply WhenOk.current
  rcases hk with ⟨hk, rfl⟩ | ⟨hk, rfl⟩
  · simp only [hk]
    exact WhenOk.advance (WhenOk.expression s hp.advance hread)
  · simp only [hk]
    exact WhenOk.advance (WhenOk.expression s hp.advance hread)

theorem sound_group (hk : p.current.kind = .leftParen) :
    WhenOk (operand (n + 1)) p (ReadsOperand errors p) := by
  rw [operand, Body.operand]
  apply WhenOk.current
  simp only [hk]
  refine WhenOk.advance (WhenOk.expression s hp.advance ?_)
  intro e q hq h
  obtain ⟨_, ts, hts, he⟩ := h
  apply WhenOk.demand
  intro hr
  have hopen := hp.completes (by simp [hk])
  have hclose := (hp.advance.reach hq).completes_next (by simp [hr])
  exact Reads.primary ⟨_, hopen.append (hts.append hclose), .group hk he hr⟩

theorem sound_array (hk : p.current.kind = .leftBracket) :
    WhenOk (operand (n + 1)) p (ReadsOperand errors p) := by
  rw [operand, Body.operand]
  apply WhenOk.current
  simp only [hk]
  refine WhenOk.items s hp (by simp) ?_
  intro es q _ h
  obtain ⟨ts, r, hts, hr, hes⟩ := h
  have hopen := hp.completes (by simp [hk])
  exact Reads.primary ⟨_, hopen.append hts, .array hk hes hr⟩

theorem sound_conditional (hk : p.current.kind = .ifWord) :
    WhenOk (operand (n + 1)) p (ReadsOperand errors p) := by
  rw [operand, Body.operand]
  apply WhenOk.current
  simp only [hk]
  refine WhenOk.demand fun hl => WhenOk.advance (WhenOk.expression s hp.advance.advance ?_)
  intro e q hq h
  obtain ⟨_, ts, hts, he⟩ := h
  have hq := hp.advance.advance.reach hq
  refine WhenOk.demand fun hr => sound_braces s hq.advance ?_
  intro b u hu h
  obtain ⟨us, hus, hb⟩ := h
  have hs := hq.advance.advance.reach hu
  have hif := hp.completes (by simp [hk])
  have hopen := hp.completes_next (by simp [hl])
  have hclose := hq.completes_next (by simp [hr])
  refine WhenOk.accept (fun hw => sound_braces s hs.advance ?_) fun _ => ?_
  · intro a v hv h
    obtain ⟨vs, hvs, ha⟩ := h
    have helse := hs.completes_next (by simp [hw])
    have he' := derives_le (Nat.le_trans hu.le hv.le) he
    refine Reads.primary ⟨_, ?_, .alternative hk hl he' hr (derives_le hv.le hb) hw ha⟩
    exact hif.append (hopen.append (hts.append (hclose.append (hus.append (helse.append hvs)))))
  · refine Reads.primary ⟨_, ?_, .conditional hk hl (derives_le hu.le he) hr hb⟩
    exact hif.append (hopen.append (hts.append (hclose.append hus)))

theorem sound_function (hk : p.current.kind = .fnWord) :
    WhenOk (operand (n + 1)) p (ReadsOperand errors p) := by
  rw [operand, Body.operand]
  apply WhenOk.current
  simp only [hk]
  apply WhenOk.demand
  intro hl
  have hfn := hp.completes (by simp [hk])
  have hopen := hp.completes_next (by simp [hl])
  refine WhenOk.accept (fun hr => sound_braces s hp.advance.advance ?_) fun _ => ?_
  · intro b q _ h
    obtain ⟨us, hus, hb⟩ := h
    have hclose := hp.advance.completes_next (by simp [hr])
    refine Reads.primary ⟨_, ?_, .function hk hl .noParameters hr hb⟩
    exact hfn.append (hopen.append (hclose.append hus))
  · have hnames := (sound_parameters n _ hp.advance).yields
      (obeys_parameters reaches_discipline n _)
    refine hnames.bind ?_
    intro names q hq h
    obtain ⟨_, ts, r, hts, hr, hn⟩ := h
    refine sound_braces s (hp.advance.reach hq) ?_
    intro b u hu h
    obtain ⟨us, hus, hb⟩ := h
    have hle : q.errors.length ≤ u.errors.length := hu.le
    refine Reads.primary ⟨_, ?_, .function hk hl (derives_le hle hn) hr hb⟩
    simpa using hfn.append (hopen.append (hts.append hus))

theorem sound_operand : WhenOk (operand (n + 1)) p (ReadsOperand errors p) := by
  cases hk : p.current.kind with
  | bang =>
    have hop : (p.current.kind, PrefixOp.not) ∈ prefixOperators := by simp [hk, prefixOperators]
    exact sound_unary s hp hop
  | minus =>
    have hop : (p.current.kind, PrefixOp.negate) ∈ prefixOperators := by
      simp [hk, prefixOperators]
    exact sound_unary s hp hop
  | leftParen => exact sound_group s hp hk
  | leftBracket => exact sound_array s hp hk
  | ifWord => exact sound_conditional s hp hk
  | fnWord => exact sound_function s hp hk
  | name =>
    rw [operand, Body.operand]
    apply WhenOk.current
    simp only [hk]
    exact (reads_token hp (by simp [hk]) (.name hk)).primary
  | integer =>
    rw [operand, Body.operand]
    apply WhenOk.current
    simp only [hk]
    exact sound_integer hp hk
  | string =>
    rw [operand, Body.operand]
    apply WhenOk.current
    simp only [hk]
    exact (reads_token hp (by simp [hk]) (.string hk)).primary
  | trueWord =>
    rw [operand, Body.operand]
    apply WhenOk.current
    simp only [hk]
    exact (reads_token hp (by simp [hk]) (.boolean (by simp [hk, truthWords]))).primary
  | falseWord =>
    rw [operand, Body.operand]
    apply WhenOk.current
    simp only [hk]
    exact (reads_token hp (by simp [hk]) (.boolean (by simp [hk, truthWords]))).primary
  | _ =>
    -- No operand begins with any of these.
    rw [operand, Body.operand]
    apply WhenOk.current
    simp only [hk]
    trivial

end

section
variable {n level : Nat} (s : SoundAt errors n) (hp : p.Sound errors) {least : Strength}
  {left : Expr} {p₀ : Parser} (hleft : Reads errors p₀ (.expression level left) p)
  (hreach : reach p.next.kind ≤ level)
include s hp hleft hreach

theorem sound_call (hlt : least < Strength.ofKind p.next.kind) (hk : p.next.kind = .leftParen) :
    WhenOk (extend (n + 1) least left) p (ReadsExpression errors least p₀) := by
  obtain ⟨ts, hts, hleft⟩ := hleft
  have h7 : 7 ≤ level := by rwa [hk] at hreach
  have hopen := hp.completes_next (by simp [hk])
  rw [extend, Body.extend]
  apply WhenOk.next
  rw [if_pos (goesOn_iff.mpr hlt)]
  simp only [hk]
  refine WhenOk.advance (WhenOk.items s hp.advance (by simp) ?_)
  intro es q hq h
  obtain ⟨us, r, hus, hr, hes⟩ := h
  have hcallee := derives_le hq.le (hleft.at_level h7)
  have hcall : Reads errors p₀ (.expression 7 (.call p.next left es)) q :=
    ⟨_, hts.append (hopen.append hus), .call hcallee hk hes hr⟩
  exact s.extend _ _ q p₀ 7 (hp.advance.reach hq) hcall (reach_le _) (by omega)

theorem sound_index (hlt : least < Strength.ofKind p.next.kind)
    (hk : p.next.kind = .leftBracket) :
    WhenOk (extend (n + 1) least left) p (ReadsExpression errors least p₀) := by
  obtain ⟨ts, hts, hleft⟩ := hleft
  have h7 : 7 ≤ level := by rwa [hk] at hreach
  have hopen := hp.completes_next (by simp [hk])
  rw [extend, Body.extend]
  apply WhenOk.next
  rw [if_pos (goesOn_iff.mpr hlt)]
  simp only [hk]
  refine WhenOk.advance (WhenOk.advance (WhenOk.expression s hp.advance.advance ?_))
  intro i q hq h
  obtain ⟨_, us, hus, hi⟩ := h
  have hq' := hp.advance.advance.reach hq
  apply WhenOk.demand
  intro hr
  have hindexed := derives_le hq.le (hleft.at_level h7)
  have hclose := hq'.completes_next (by simp [hr])
  have hindex : Reads errors p₀ (.expression 7 (.index p.next left i)) q.advance :=
    ⟨_, hts.append (hopen.append (hus.append hclose)), .index hindexed hk hi hr⟩
  exact s.extend _ _ q.advance p₀ 7 hq'.advance hindex (reach_le _) (by omega)

theorem sound_binary {op : InfixOp} (hlt : least < Strength.ofKind p.next.kind)
    (hop : InfixOp.ofKind? p.next.kind = some op) :
    WhenOk (extend (n + 1) least left) p (ReadsExpression errors least p₀) := by
  obtain ⟨ts, hts, hleft⟩ := hleft
  obtain ⟨hmem, h5⟩ := mem_operators hop
  have hnext := hp.completes_next fun h => by simp [h, InfixOp.ofKind?] at hop
  have hrank : (Strength.ofKind p.next.kind).rank ≤ level := by
    unfold reach at hreach
    omega
  rw [extend, Body.extend]
  apply WhenOk.next
  rw [if_pos (goesOn_iff.mpr hlt), Infix.operator_iff.mpr ⟨op, hop⟩, hop]
  refine WhenOk.advance (WhenOk.advance (WhenOk.expression s hp.advance.advance ?_))
  intro b q hq h
  obtain ⟨hn, us, hus, hb⟩ := h
  rw [Nat.min_eq_left (by omega)] at hb
  have hoperand := derives_le hq.le (hleft.at_level hrank)
  have hbinary : Reads errors p₀ (.expression _ (.binary p.next left op b)) q :=
    ⟨_, hts.append (hnext.append hus), .binary hmem hoperand hb⟩
  refine s.extend _ _ q p₀ _ (hp.advance.advance.reach hq) hbinary ?_ ?_
  · exact Nat.le_trans (Nat.min_le_left _ _) hn
  · exact Nat.le_trans (Nat.min_le_left _ _) hlt

theorem sound_extend (hlevel : min (least.rank + 1) 6 ≤ level) :
    WhenOk (extend (n + 1) least left) p (ReadsExpression errors least p₀) := by
  by_cases hlt : least < Strength.ofKind p.next.kind
  · cases hop : InfixOp.ofKind? p.next.kind with
    | some op => exact sound_binary s hp hleft hreach hlt hop
    | none =>
      rcases rank_of_none hop with hk | hk | hk
      · exact sound_call s hp hleft hreach hlt hk
      · exact sound_index s hp hleft hreach hlt hk
      · exact absurd hlt (by rw [Strength.lt_iff]; omega)
  · obtain ⟨ts, hts, hleft⟩ := hleft
    rw [extend, Body.extend]
    apply WhenOk.next
    rw [if_neg (mt goesOn_iff.mp hlt)]
    exact ⟨Nat.le_of_not_lt hlt, ts, hts, hleft.at_level hlevel⟩

end

section
variable {n : Nat} (s : SoundAt errors n) (hp : p.Sound errors)
include s hp

theorem sound_items {closing : Token.Kind} (hc : closing ≠ .endOfInput) :
    WhenOk (items (n + 1) closing) p fun es q =>
      ReadsUpTo errors closing p.advance (.items es) q := by
  rw [items, Body.items]
  refine WhenOk.accept (fun hk => ?_) fun _ => ?_
  · exact ⟨[], p.next, hp.completes_next (hk ▸ hc), hk, .noItems⟩
  · refine WhenOk.advance (WhenOk.expression s hp.advance ?_)
    intro e q hq h
    exact WhenOk.moreItems s (hp.advance.reach hq) hc h.2 fun es u _ hes => hes

theorem sound_moreItems {closing : Token.Kind} {p₀ : Parser} {e : Expr}
    (hc : closing ≠ .endOfInput) (he : Reads errors p₀ (.expression 1 e) p) :
    WhenOk (moreItems (n + 1) closing) p fun es q =>
      ReadsUpTo errors closing p₀ (.items (e :: es)) q := by
  obtain ⟨ts, hts, he⟩ := he
  rw [moreItems, Body.moreItems]
  refine WhenOk.accept (fun hk => ?_) fun _ => WhenOk.demand fun hk => ?_
  · refine WhenOk.advance (WhenOk.expression s hp.advance.advance ?_)
    intro f q hq h
    refine WhenOk.moreItems s (hp.advance.advance.reach hq) hc h.2 ?_
    intro es u hu h
    obtain ⟨us, r, hus, hr, hes⟩ := h
    have hcomma := hp.completes_next (by simp [hk])
    have he' := derives_le (Nat.le_trans hq.le hu.le) he
    refine ⟨_, r, ?_, hr, .moreItems he' hk hes⟩
    simpa using hts.append (hcomma.append hus)
  · have hclose := hp.completes_next (hk ▸ hc)
    exact ⟨ts, p.next, hts.append hclose, hk, .lastItem he⟩

theorem sound_letName (hk : p.current.kind = .letWord) :
    WhenOk (statement (n + 1)) p (ReadsStatement errors p) := by
  rw [statement, Body.statement]
  apply WhenOk.current
  simp only [hk]
  refine WhenOk.demand fun hx => WhenOk.current (WhenOk.demand fun ha => WhenOk.advance ?_)
  have hlet := hp.completes (by simp [hk])
  have hname := hp.completes_next (by simp [hx])
  have hassign := hp.advance.completes_next (by simp [ha])
  have hp' := hp.advance.advance.advance
  refine WhenOk.expression s hp' ?_
  intro e q hq h
  obtain ⟨hn, ts, hts, he⟩ := h
  refine reads_end (hp'.reach hq) ⟨_, ?_, .letName hk hx ha he⟩ hn
  exact hlet.append (hname.append (hassign.append hts))

theorem sound_returnValue (hk : p.current.kind = .returnWord) :
    WhenOk (statement (n + 1)) p (ReadsStatement errors p) := by
  rw [statement, Body.statement]
  apply WhenOk.current
  simp only [hk]
  refine WhenOk.advance (WhenOk.expression s hp.advance ?_)
  intro e q hq h
  obtain ⟨hn, ts, hts, he⟩ := h
  have hreturn := hp.completes (by simp [hk])
  exact reads_end (hp.advance.reach hq) ⟨_, hreturn.append hts, .returnValue hk he⟩ hn

theorem sound_statement : WhenOk (statement (n + 1)) p (ReadsStatement errors p) := by
  by_cases hlet : p.current.kind = .letWord
  · exact sound_letName s hp hlet
  by_cases hreturn : p.current.kind = .returnWord
  · exact sound_returnValue s hp hreturn
  rw [statement, Body.statement]
  apply WhenOk.current
  split
  · next hk => exact absurd hk hlet
  · next hk => exact absurd hk hreturn
  · refine WhenOk.expression s hp ?_
    intro e q hq h
    obtain ⟨hn, he⟩ := h
    obtain ⟨ts, hts, he⟩ := he.current
    exact reads_end (hp.reach hq) ⟨_, hts, .expression he⟩ hn

theorem sound_block (hk : p.current.kind = .leftBrace) :
    WhenOk (block (n + 1)) p fun b q => Reads errors p (.block b) q := by
  rw [block, Body.block]
  refine WhenOk.current (WhenOk.advance (WhenOk.statements s hp.advance ?_))
  intro ss q _ h
  obtain ⟨ts, r, hts, hr, hs⟩ := h
  have hopen := hp.completes (by simp [hk])
  exact ⟨_, hopen.append hts, .block hk hs hr⟩

theorem sound_statements :
    WhenOk (statements (n + 1)) p fun ss q =>
      ReadsUpTo errors .rightBrace p (.statements ss) q := by
  rw [statements, Body.statements]
  apply WhenOk.current
  split
  · next hk => exact ⟨[], p.current, hp.completes (by simp [hk]), hk, .noStatements⟩
  · next hk =>
    -- The brace that closes the block is one of those missing at the end.
    have hnil := hp.tokens_eq_nil hk
    refine ⟨[], ⟨.rightBrace, "", p.endMark.span⟩, ?_, rfl, .noStatements⟩
    simpa [hnil, Parser.advance] using
      completes_brace (t := ⟨.rightBrace, "", p.endMark.span⟩) rfl
  · have hfirst := (s.statement p hp).yields (obeys_statement reaches_discipline n p)
    refine hfirst.attempt (fun first q hq hs => ?_) fun q hq => ?_
    · refine WhenOk.advance (WhenOk.statements s (hp.reach hq).advance ?_)
      intro ss u hu h
      obtain ⟨us, r, hus, hr, hss⟩ := h
      rw [List.append_assoc] at hus
      obtain ⟨ts, hts, hd⟩ := hs.append hus hu.le hss
      exact ⟨ts, r, by rwa [List.append_assoc], hr, hd⟩
    · refine WhenOk.recover (WhenOk.current ?_)
      have hr := reaches_discipline.recover hq
      have hrecorded := Nat.lt_of_le_of_lt hp.errors_le hq.recorded
      split
      · next hk =>
        obtain ⟨junk, hjunk⟩ := hr.tokens
        have hclose := (hp.reach hr).completes (by simp [hk])
        refine ⟨junk ++ [], _, ?_, hk, .skip hrecorded .noStatements⟩
        simpa using (completes_of_eq hjunk).append hclose
      · have hr' := hr.trans (reaches_advance _)
        obtain ⟨junk, hjunk⟩ := hr'.tokens
        have hrest := (s.statements _ (hp.reach hr')).yields
          (obeys_statements reaches_discipline n _)
        refine WhenOk.advance (hrest.mono ?_ fun _ _ _ => trivial)
        intro ss u h
        obtain ⟨hu, us, r, hus, hk, hss⟩ := h
        have hskip := Nat.lt_of_lt_of_le hrecorded hu.le
        rw [List.append_assoc] at hus
        refine ⟨junk ++ us, r, ?_, hk, .skip hskip hss⟩
        simpa using (completes_of_eq hjunk).append hus

end

/-- Whatever is read is derived, however deep the recursion goes. -/
theorem soundAt (errors n : Nat) : SoundAt errors n := by
  induction n with
  | zero =>
    constructor
    all_goals
      intros
      trivial
  | succ n s =>
    exact {
      expression := fun least _ hp => sound_expression s hp least
      operand := fun _ hp => sound_operand s hp
      extend := fun _ _ _ _ _ hp hleft hreach hlevel => sound_extend s hp hleft hreach hlevel
      items := fun _ _ hp hc => sound_items s hp hc
      moreItems := fun _ _ _ _ hp hc he => sound_moreItems s hp hc he
      statement := fun _ hp => sound_statement s hp
      block := fun _ hp hk => sound_block s hp hk
      statements := fun _ hp => sound_statements s hp }

theorem sound_program : ∀ n p, p.Sound errors →
    WhenOk (program n) p fun ss q => ∃ ts, Completes p.tokens ts ∧
      Derives (errors < q.errors.length) ts (.statements ss)
  | 0, _, _ => trivial
  | n + 1, p, hp => by
    rw [program, Body.program]
    refine WhenOk.current ?_
    split
    · next hk => exact ⟨[], by simpa [hp.tokens_eq_nil hk] using completes_refl [], .noStatements⟩
    · have hfirst := ((soundAt errors n).statement p hp).yields
        (obeys_statement reaches_discipline n p)
      refine hfirst.attempt (fun first q hq hs => ?_) fun q hq => ?_
      · refine WhenOk.advance ?_
        refine ((sound_program n _ (hp.reach hq).advance).yields
          (obeys_program reaches_discipline n _)).bind ?_
        intro ss u hu h
        obtain ⟨us, hus, hss⟩ := h
        have hus' : Completes q.advance.tokens (us ++ []) := by simpa using hus
        obtain ⟨ts, hts, hd⟩ := hs.append hus' hu.le hss
        exact ⟨ts, by simpa using hts, hd⟩
      · refine WhenOk.recover (WhenOk.advance ?_)
        have hr := (reaches_discipline.recover hq).trans (reaches_advance _)
        have hrecorded := Nat.lt_of_le_of_lt hp.errors_le hq.recorded
        obtain ⟨junk, hjunk⟩ := hr.tokens
        refine ((sound_program n _ (hp.reach hr)).yields
          (obeys_program reaches_discipline n _)).mono ?_ fun _ _ _ => trivial
        intro ss u h
        obtain ⟨hu, us, hus, hss⟩ := h
        refine ⟨junk ++ us, ?_, .skip (Nat.lt_of_lt_of_le hrecorded hu.le) hss⟩
        rw [← List.append_nil us] at hus
        simpa using (completes_of_eq hjunk).append hus

end Parse

end MonkeyLang
