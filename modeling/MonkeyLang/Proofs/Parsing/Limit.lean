import MonkeyLang.Proofs.Parsing.Run

namespace MonkeyLang

namespace Parser

/-- At most `m` tokens are left, and the mark behind them is that of the end. -/
structure Left (m : Nat) (p : Parser) : Prop where
  endMark : p.endMark.kind = .endOfInput
  tokens : p.tokens.length ≤ m

theorem Left.mono {m k : Nat} {p : Parser} (h : p.Left k) (hk : k ≤ m) : p.Left m :=
  ⟨h.endMark, Nat.le_trans h.tokens hk⟩

theorem Left.advance {m : Nat} {p : Parser} (h : p.Left m) : p.advance.Left (m - 1) :=
  ⟨h.endMark, by simpa [Parser.advance] using Nat.sub_le_sub_right h.tokens 1⟩

/-- There is a token before the end. -/
theorem Left.pos {m : Nat} {p : Parser} (h : p.Left m) (hc : p.current.kind ≠ .endOfInput) :
    1 ≤ m := by
  cases ht : p.tokens with
  | nil => simp [current, ht, h.endMark] at hc
  | cons token rest =>
    have hl := h.tokens
    rw [ht, List.length_cons] at hl
    omega

theorem Left.two {m : Nat} {p : Parser} (h : p.Left m) (hc : p.next.kind ≠ .endOfInput) :
    2 ≤ m := by
  have hp := h.advance.pos (p := p.advance) hc
  omega

end Parser

namespace Parse

variable {α β : Type} {p : Parser}

/-- The run does not meet the limit on recursion, and leaves at most `m` tokens. -/
def Finishes (m : Nat) (x : Parse α) (p : Parser) : Prop :=
  Ends x p (fun _ q => q.Left m) fun s q => s = .syntaxError ∧ q.Left m

theorem Finishes.mono {m k : Nat} {x : Parse α} (h : Finishes k x p) (hk : k ≤ m) :
    Finishes m x p :=
  Ends.mono h (fun _ _ hq => hq.mono hk) fun _ _ hq => ⟨hq.1, hq.2.mono hk⟩

theorem Finishes.bind {m : Nat} {x : Parse α} {f : α → Parse β} (hx : Finishes m x p)
    (hf : ∀ a q, q.Left m → Finishes m (f a) q) : Finishes m (x >>= f) p :=
  ends_bind.2 (Ends.mono hx (fun a q hq => hf a q hq) fun _ _ hs => hs)

theorem Finishes.current {m : Nat} {f : Token → Parse β} (h : Finishes m (f p.current) p) :
    Finishes m (current >>= f) p := h

theorem Finishes.next {m : Nat} {f : Token → Parse β} (h : Finishes m (f p.next) p) :
    Finishes m (next >>= f) p := h

theorem Finishes.advance {m : Nat} {f : Unit → Parse β} (hf : Finishes (m - 1) (f ()) p.advance) :
    Finishes m (advance >>= f) p := hf.mono (Nat.sub_le m 1)

theorem Finishes.attempt {m : Nat} {x : Parse α} {f : Option α → Parse β} (hx : Finishes m x p)
    (hf : ∀ result q, q.Left m → Finishes m (f result) q) : Finishes m (attempt x >>= f) p :=
  ends_bind.2 (ends_attempt.2 (Ends.mono hx (fun a q hq => hf (some a) q hq)
    fun _ q hs => ⟨fun _ => hf none q hs.2, fun hd => by simp [hs.1] at hd⟩))

section
variable {m : Nat} (hp : p.Left m)
include hp

theorem Finishes.recover {f : Unit → Parse β} (hf : ∀ q, q.Left m → Finishes m (f ()) q) :
    Finishes m (recover >>= f) p :=
  hf _ ⟨hp.endMark, Nat.le_trans (Parser.abandon_suffix _).length_le hp.tokens⟩

theorem finishes_fail (cause : SyntaxError.Cause) (token : Token) :
    Finishes m (fail cause token : Parse α) p := ⟨rfl, hp.endMark, hp.tokens⟩

theorem Finishes.demand {kind : Token.Kind} {f : Unit → Parse β} (hk : kind ≠ .endOfInput)
    (hf : 2 ≤ m → Finishes (m - 1) (f ()) p.advance) : Finishes m (demand kind >>= f) p :=
  ends_bind.2 (ends_demand.2 ⟨fun h => (hf (hp.two (h ▸ hk))).mono (Nat.sub_le m 1),
    fun _ => ⟨rfl, hp.endMark, hp.tokens⟩⟩)

theorem Finishes.accept {kind : Token.Kind} {f : Bool → Parse β} (hk : kind ≠ .endOfInput)
    (ht : 2 ≤ m → Finishes (m - 1) (f true) p.advance) (hf : Finishes m (f false) p) :
    Finishes m (accept kind >>= f) p :=
  ends_bind.2 (ends_accept.2 ⟨fun h => (ht (hp.two (h ▸ hk))).mono (Nat.sub_le m 1), fun _ => hf⟩)

theorem finishes_integer (token : Token) : Finishes m (integer token) p := by
  unfold integer
  exact ends_ite.2 ⟨fun _ => hp, fun _ => finishes_fail hp _ _⟩

end

theorem finishes_parameters : ∀ n m p, p.Left m → 8 * m + 1 ≤ n → Finishes m (parameters n) p
  | 0, _, _, _, hn => by omega
  | n + 1, m, p, hp, hn => by
    rw [parameters, Body.parameters]
    refine Finishes.demand hp (by simp) fun hm => ?_
    refine Finishes.current (Finishes.accept hp.advance (by simp) (fun _ => ?_) ?_)
    · refine (finishes_parameters n _ _ hp.advance.advance (by omega)).bind fun _ q hq => hq
    · exact Finishes.demand hp.advance (by simp) fun _ => hp.advance.advance

mutual

theorem finishes_expression : ∀ n m least p, p.Left m → 8 * m + 4 ≤ n →
    Finishes m (expression n least) p
  | 0, _, _, _, _, hn => by omega
  | n + 1, m, least, p, hp, hn => by
    rw [expression, Body.expression]
    exact (finishes_operand n m p hp (by omega)).bind fun left q hq =>
      finishes_extend n m least left q hq (by omega)

theorem finishes_operand : ∀ n m p, p.Left m → 8 * m + 3 ≤ n → Finishes m (operand n) p
  | 0, _, _, _, hn => by omega
  | n + 1, m, p, hp, hn => by
    rw [operand, Body.operand]
    apply Finishes.current
    cases hr : Prefix.ofKind? p.current.kind with
    | none => exact finishes_fail hp _ _
    | some reader =>
      have hm := hp.pos (Prefix.ne_end hr)
      cases reader with
      | name | string | boolean => exact hp
      | integer => exact finishes_integer hp _
      | operator =>
        obtain ⟨op, hop⟩ := Prefix.operator_iff.mp hr
        rw [hop]
        apply Finishes.advance
        exact (finishes_expression n _ _ _ hp.advance (by omega)).bind fun _ _ hq => hq
      | group =>
        apply Finishes.advance
        refine (finishes_expression n _ _ _ hp.advance (by omega)).bind fun _ q hq => ?_
        exact Finishes.demand hq (by simp) fun _ => hq.advance
      | conditional =>
        refine Finishes.demand hp (by simp) fun hm => ?_
        apply Finishes.advance
        refine (finishes_expression n _ _ _ hp.advance.advance (by omega)).bind fun _ q hq => ?_
        refine Finishes.demand hq (by simp) fun _ => ?_
        refine Finishes.demand hq.advance (by simp) fun _ => ?_
        refine (finishes_block n _ _ hq.advance.advance (by omega) (by omega)).bind
          fun _ r hr => ?_
        refine Finishes.accept hr (by simp) (fun _ => ?_) hr
        refine Finishes.demand hr.advance (by simp) fun _ => ?_
        exact (finishes_block n _ _ hr.advance.advance (by omega) (by omega)).bind fun _ _ hs => hs
      | function =>
        refine Finishes.demand hp (by simp) fun hm => ?_
        refine Finishes.accept hp.advance (by simp) (fun _ => ?_) ?_
        · refine Finishes.bind (x := pure []) hp.advance.advance fun names q hq => ?_
          refine Finishes.demand hq (by simp) fun _ => ?_
          exact (finishes_block n _ _ hq.advance (by omega) (by omega)).bind fun _ _ hr => hr
        · refine (finishes_parameters n _ _ hp.advance (by omega)).bind fun names q hq => ?_
          refine Finishes.demand hq (by simp) fun _ => ?_
          exact (finishes_block n _ _ hq.advance (by omega) (by omega)).bind fun _ _ hr => hr
      | array => exact (finishes_items n m _ p hp hm (by omega)).bind fun _ _ hq => hq

theorem finishes_extend : ∀ n m least left p, p.Left m → 8 * m + 3 ≤ n →
    Finishes m (extend n least left) p
  | 0, _, _, _, _, _, hn => by omega
  | n + 1, m, least, left, p, hp, hn => by
    rw [extend, Body.extend]
    apply Finishes.next
    split
    · next hl =>
      obtain ⟨reader, hr⟩ := Infix.reader_of_lt hl.2
      rw [hr]
      have hm := hp.two (Infix.ne_end hr)
      cases reader with
      | operator =>
        obtain ⟨op, hop⟩ := Infix.operator_iff.mp hr
        rw [hop]
        refine Finishes.advance (Finishes.advance ?_)
        refine (finishes_expression n _ _ _ hp.advance.advance (by omega)).bind
          fun _ q hq => ?_
        exact finishes_extend n _ _ _ q hq (by omega)
      | call =>
        refine Finishes.advance ?_
        refine (finishes_items n _ _ _ hp.advance (by omega) (by omega)).bind fun _ q hq => ?_
        exact finishes_extend n _ _ _ q hq (by omega)
      | index =>
        refine Finishes.advance (Finishes.advance ?_)
        refine (finishes_expression n _ _ _ hp.advance.advance (by omega)).bind fun _ q hq => ?_
        refine Finishes.demand hq (by simp) fun _ => ?_
        exact finishes_extend n _ _ _ _ hq.advance (by omega)
    · exact hp

theorem finishes_items : ∀ n m closing p, p.Left m → 1 ≤ m → 8 * m + 2 ≤ n →
    Finishes m (items n closing) p
  | 0, _, _, _, _, _, hn => by omega
  | n + 1, m, closing, p, hp, hm, hn => by
    rw [items, Body.items]
    refine ends_bind.2 (ends_accept.2 ⟨fun _ => hp.advance.mono (Nat.sub_le m 1), fun _ => ?_⟩)
    apply Finishes.advance
    refine (finishes_expression n _ _ _ hp.advance (by omega)).bind fun _ q hq => ?_
    exact (finishes_moreItems n _ _ q hq (by omega)).bind fun _ _ hr => hr

theorem finishes_moreItems : ∀ n m closing p, p.Left m → 8 * m + 2 ≤ n →
    Finishes m (moreItems n closing) p
  | 0, _, _, _, _, hn => by omega
  | n + 1, m, closing, p, hp, hn => by
    rw [moreItems, Body.moreItems]
    refine Finishes.accept hp (by simp) (fun hm => ?_) ?_
    · refine Finishes.advance ?_
      refine (finishes_expression n _ _ _ hp.advance.advance (by omega)).bind fun _ q hq => ?_
      exact (finishes_moreItems n _ _ q hq (by omega)).bind fun _ _ hr => hr
    · exact ends_bind.2 (ends_demand.2 ⟨fun _ => hp.advance.mono (Nat.sub_le m 1),
        fun _ => ⟨rfl, hp.endMark, hp.tokens⟩⟩)

theorem finishes_statement : ∀ n m p, p.Left m → 8 * m + 5 ≤ n → Finishes m (statement n) p
  | 0, _, _, _, hn => by omega
  | n + 1, m, p, hp, hn => by
    rw [statement, Body.statement]
    apply Finishes.current
    split
    · refine Finishes.demand hp (by simp) fun _ => ?_
      refine Finishes.current (Finishes.demand hp.advance (by simp) fun _ => ?_)
      apply Finishes.advance
      refine (finishes_expression n _ _ _ hp.advance.advance.advance (by omega)).bind
        fun _ q hq => ?_
      exact Finishes.accept hq (by simp) (fun _ => hq.advance) hq
    · refine Finishes.advance ?_
      refine (finishes_expression n _ _ _ hp.advance (by omega)).bind fun _ q hq => ?_
      exact Finishes.accept hq (by simp) (fun _ => hq.advance) hq
    · refine (finishes_expression n _ _ _ hp (by omega)).bind fun _ q hq => ?_
      exact Finishes.accept hq (by simp) (fun _ => hq.advance) hq

theorem finishes_block : ∀ n m p, p.Left m → 1 ≤ m → 8 * m + 2 ≤ n → Finishes m (block n) p
  | 0, _, _, _, _, hn => by omega
  | n + 1, m, p, hp, hm, hn => by
    rw [block, Body.block]
    refine Finishes.current (Finishes.advance ?_)
    exact (finishes_statements n _ _ hp.advance (by omega)).bind fun _ _ hq => hq

theorem finishes_statements : ∀ n m p, p.Left m → 8 * m + 6 ≤ n → Finishes m (statements n) p
  | 0, _, _, _, hn => by omega
  | n + 1, m, p, hp, hn => by
    rw [statements, Body.statements]
    apply Finishes.current
    split
    · exact hp
    · exact hp
    · next hc =>
      have hm := hp.pos hc
      refine (finishes_statement n m p hp (by omega)).attempt fun result q hq => ?_
      cases result with
      | some first =>
        apply Finishes.advance
        exact (finishes_statements n _ _ hq.advance (by omega)).bind fun _ _ hr => hr
      | none =>
        refine Finishes.recover hq fun r hr => Finishes.current ?_
        split
        · exact hr
        · exact Finishes.advance (finishes_statements n _ _ hr.advance (by omega))

end

theorem finishes_program : ∀ n m p, p.Left m → 8 * m + 6 ≤ n → Finishes m (program n) p
  | 0, _, _, _, hn => by omega
  | n + 1, m, p, hp, hn => by
    rw [program, Body.program]
    apply Finishes.current
    split
    · exact hp
    · next hc =>
      have hm := hp.pos hc
      refine (finishes_statement n m p hp (by omega)).attempt fun result q hq => ?_
      cases result with
      | some first =>
        apply Finishes.advance
        exact (finishes_program n _ _ hq.advance (by omega)).bind fun _ _ hr => hr
      | none =>
        refine Finishes.recover hq fun r hr => ?_
        exact Finishes.advance (finishes_program n _ _ hr.advance (by omega))

end Parse

end MonkeyLang
