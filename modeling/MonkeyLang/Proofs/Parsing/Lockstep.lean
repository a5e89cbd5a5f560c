import MonkeyLang.Proofs.Parsing.Run
import MonkeyLang.Proofs.Parsing.Spans

namespace MonkeyLang

namespace Parse

section
variable {α β γ δ : Type} {p q : Parser} {ok : α → β → Parser → Parser → Prop}
  {ok' : γ → δ → Parser → Parser → Prop} {stop : Parser → Parser → Prop}

/-- The runs from `p` and from `q` end alike, both with `ok` or both in a syntax error with `stop`,
unless one of them is given up at its limit on recursion. -/
def Together (x : Parse α) (y : Parse β) (p q : Parser) (ok : α → β → Parser → Parser → Prop)
    (stop : Parser → Parser → Prop) : Prop :=
  match x.run p, y.run q with
  | .error .depth _, _ => True
  | _, .error .depth _ => True
  | .ok a p', .ok b q' => ok a b p' q'
  | .error .syntaxError p', .error .syntaxError q' => stop p' q'
  | _, _ => False

theorem together_of_depth {x : Parse α} {y : Parse β} {p' : Parser}
    (h : x.run p = .error .depth p') : Together x y p q ok stop := by
  unfold Together
  rw [h]
  trivial

theorem together_of_depth_right {x : Parse α} {y : Parse β} {q' : Parser}
    (h : y.run q = .error .depth q') : Together x y p q ok stop := by
  unfold Together
  rw [h]
  rcases x.run p with ⟨a, p'⟩ | ⟨_ | _, p'⟩ <;> trivial

theorem Together.of_ok {x : Parse α} {y : Parse β} {a : α} {b : β} {p' q' : Parser}
    (h : Together x y p q ok stop) (hx : x.run p = .ok a p') (hy : y.run q = .ok b q') :
    ok a b p' q' := by
  unfold Together at h
  rwa [hx, hy] at h

theorem together_pure {a : α} {b : β} (h : ok a b p q) :
    Together (pure a) (pure b) p q ok stop := h

theorem Together.bind {x : Parse α} {y : Parse β} {f : α → Parse γ} {g : β → Parse δ}
    (h : Together x y p q ok stop)
    (hf : ∀ a b p' q', ok a b p' q' → Together (f a) (g b) p' q' ok' stop) :
    Together (x >>= f) (y >>= g) p q ok' stop := by
  cases hx : x.run p with
  | ok a p' =>
    cases hy : y.run q with
    | ok b q' =>
      have hrest := hf a b p' q' (h.of_ok hx hy)
      unfold Together at hrest ⊢
      rwa [EStateM.run_bind, EStateM.run_bind, hx, hy]
    | error t q' =>
      cases t with
      | depth => exact together_of_depth_right (by rw [EStateM.run_bind, hy])
      | syntaxError =>
        unfold Together at h
        rw [hx, hy] at h
        exact h.elim
  | error s p' =>
    cases s with
    | depth => exact together_of_depth (by rw [EStateM.run_bind, hx])
    | syntaxError =>
      unfold Together at h ⊢
      rw [EStateM.run_bind, EStateM.run_bind, hx]
      rw [hx] at h
      revert h
      rcases y.run q with ⟨b, q'⟩ | ⟨_ | _, q'⟩
      · exact False.elim
      · exact id
      · exact id

theorem Together.mono {stop' : Parser → Parser → Prop} {ok' : α → β → Parser → Parser → Prop}
    {x : Parse α} {y : Parse β} (h : Together x y p q ok stop)
    (hok : ∀ a b p' q', ok a b p' q' → ok' a b p' q') (hs : ∀ p' q', stop p' q' → stop' p' q') :
    Together x y p q ok' stop' := by
  unfold Together at h ⊢
  revert h
  rcases x.run p with ⟨a, p'⟩ | ⟨_ | _, p'⟩ <;> rcases y.run q with ⟨b, q'⟩ | ⟨_ | _, q'⟩
  case ok.ok => exact hok a b p' q'
  case error.syntaxError.error.syntaxError => exact hs p' q'
  all_goals exact id

/-- What follows attempts goes on from where both ended well, or from where both failed. -/
theorem Together.attempt {x : Parse α} {y : Parse β} {f : Option α → Parse γ}
    {g : Option β → Parse δ} {stop' : Parser → Parser → Prop} (h : Together x y p q ok stop)
    (hs : ∀ a b p' q', ok a b p' q' → Together (f (some a)) (g (some b)) p' q' ok' stop')
    (hn : ∀ p' q', stop p' q' → Together (f none) (g none) p' q' ok' stop') :
    Together (attempt x >>= f) (attempt y >>= g) p q ok' stop' := by
  have hattempt : Together (Parse.attempt x) (Parse.attempt y) p q
      (fun a b p' q' => Together (f a) (g b) p' q' ok' stop') stop' := by
    unfold Together at h ⊢
    simp only [EStateM.run, Parse.attempt] at h ⊢
    revert h
    rcases x p with ⟨a, p'⟩ | ⟨_ | _, p'⟩ <;> rcases y q with ⟨b, q'⟩ | ⟨_ | _, q'⟩
    case ok.ok => exact hs a b p' q'
    case error.syntaxError.error.syntaxError => exact hn p' q'
    case ok.error.syntaxError => exact False.elim
    case error.syntaxError.ok => exact False.elim
    all_goals exact fun _ => trivial
  exact hattempt.bind fun _ _ _ _ hab => hab

theorem together_current {f : Token → Parse γ} {g : Token → Parse δ}
    (h : Together (f p.current) (g q.current) p q ok' stop) :
    Together (current >>= f) (current >>= g) p q ok' stop := h

theorem together_next {f : Token → Parse γ} {g : Token → Parse δ}
    (h : Together (f p.next) (g q.next) p q ok' stop) :
    Together (next >>= f) (next >>= g) p q ok' stop := h

theorem together_advance {f : Unit → Parse γ} {g : Unit → Parse δ}
    (h : Together (f ()) (g ()) p.advance q.advance ok' stop) :
    Together (advance >>= f) (advance >>= g) p q ok' stop := h

theorem together_recover {f : Unit → Parse γ} {g : Unit → Parse δ}
    (h : Together (f ()) (g ()) { p with tokens := Parser.abandon p.tokens }
      { q with tokens := Parser.abandon q.tokens } ok' stop) :
    Together (recover >>= f) (recover >>= g) p q ok' stop := h

theorem together_ite {c : Prop} [Decidable c] {x x' : Parse α} {y y' : Parse β}
    (h : c → Together x y p q ok stop) (h' : ¬c → Together x' y' p q ok stop) :
    Together (if c then x else x') (if c then y else y') p q ok stop := by
  by_cases hc : c
  · rw [if_pos hc, if_pos hc]
    exact h hc
  · rw [if_neg hc, if_neg hc]
    exact h' hc

theorem together_fail {cause : SyntaxError.Cause} {t u : Token}
    (h : stop (p.record cause t) (q.record cause u)) :
    Together (fail cause t : Parse α) (fail cause u : Parse β) p q ok stop := h

end

/-- How two parsers may correspond within so many open blocks: the tokens they stand on are the
same up to their spans, and stay so from token to token. A closing brace is passed only by the block
that it closes, and a semicolon is only passed for sure within a block. -/
structure Lockstep (f : Span → Span) (R : Nat → Parser → Parser → Prop) : Prop where
  current : ∀ {k p q}, R k p q → q.current = p.current.mapSpan f
  pass : ∀ {k p q}, R k p q → p.current.kind ≠ .semicolon ∧ p.current.kind ≠ .rightBrace →
    R k p.advance q.advance
  enter : ∀ {k p q}, R k p q → p.current.kind = .leftBrace → R (k + 1) p.advance q.advance
  leave : ∀ {k p q}, R (k + 1) p q → p.current.kind = .rightBrace ∨ p.current.kind = .endOfInput →
    R k p.advance q.advance
  weaken : ∀ {k p q}, R (k + 1) p q → R k p q
  semicolon : ∀ {k p q}, R (k + 1) p q → p.current.kind = .semicolon →
    R (k + 1) p.advance q.advance
  record : ∀ {k p q}, R k p q → ∀ cause (t : Token),
    R k (p.record cause t) (q.record cause (t.mapSpan f))
  recover : ∀ {k p q}, R k p q → R k { p with tokens := Parser.abandon p.tokens }
    { q with tokens := Parser.abandon q.tokens }

/-- The parsers correspond on this token and on the next. -/
structure Ready (R : Nat → Parser → Parser → Prop) (k : Nat) (p q : Parser) : Prop where
  here : R k p q
  behind : R k p.advance q.advance

/-- What has been read is the same up to the spans, and the parsers can look ahead. -/
def Same {α : Type} (R : Nat → Parser → Parser → Prop) (k : Nat) (v : α → α) (a b : α)
    (p q : Parser) : Prop :=
  b = v a ∧ Ready R k p q

/-- The statement read is the same up to the spans, and the parsers stand on its semicolon or can
look ahead. -/
def SameStatement (f : Span → Span) (R : Nat → Parser → Parser → Prop) (k : Nat) (a b : Stmt)
    (p q : Parser) : Prop :=
  b = a.mapSpans f ∧ R k p q ∧ (p.current.kind = .semicolon ∨ R k p.advance q.advance)

theorem Together.same {α β γ : Type} {R : Nat → Parser → Parser → Prop} {k : Nat} {v : α → α}
    {p q : Parser} {x y : Parse α} {f : α → Parse β} {g : α → Parse γ}
    {ok : β → γ → Parser → Parser → Prop} {stop : Parser → Parser → Prop}
    (h : Together x y p q (Same R k v) stop)
    (hf : ∀ a p' q', Ready R k p' q' → Together (f a) (g (v a)) p' q' ok stop) :
    Together (x >>= f) (y >>= g) p q ok stop := by
  refine h.bind fun a b p' q' hab => ?_
  obtain ⟨rfl, hr⟩ := hab
  exact hf a p' q' hr

namespace Lockstep

variable {f : Span → Span} {R : Nat → Parser → Parser → Prop}

section
variable (L : Lockstep f R) {k : Nat} {p q : Parser}
include L

theorem ready (h : R k p q) (hk : p.current.kind ≠ .semicolon ∧ p.current.kind ≠ .rightBrace) :
    Ready R k p q := ⟨h, L.pass h hk⟩

theorem next (h : Ready R k p q) : q.next = p.next.mapSpan f := L.current h.behind

theorem demand (h : Ready R k p q) {kind : Token.Kind}
    (hk : kind ≠ .semicolon ∧ kind ≠ .rightBrace) : Together (demand kind) (demand kind) p q
      (fun _ _ p' q' => Ready R k p' q' ∧ p'.current.kind = kind) (R k) := by
  unfold Parse.demand
  apply together_next
  rw [L.next h, Token.mapSpan_kind]
  refine together_ite (fun hkind => ?_) fun _ => together_fail (L.record h.here _ _)
  have hcurrent : p.advance.current.kind = kind := hkind
  exact ⟨L.ready h.behind (hcurrent ▸ hk), hcurrent⟩

theorem accept (h : Ready R k p q) {kind : Token.Kind}
    (hk : kind ≠ .semicolon ∧ kind ≠ .rightBrace) :
    Together (accept kind) (accept kind) p q (Same R k id) (R k) := by
  unfold Parse.accept
  apply together_next
  rw [L.next h, Token.mapSpan_kind]
  refine together_ite (fun hkind => ?_) fun _ => ⟨rfl, h⟩
  have hcurrent : p.advance.current.kind = kind := hkind
  exact ⟨rfl, L.ready h.behind (hcurrent ▸ hk)⟩

theorem acceptSemicolon (h : Ready R k p q) :
    Together (Parse.accept .semicolon) (Parse.accept .semicolon) p q
      (fun _ _ p' q' => R k p' q' ∧ (p'.current.kind = .semicolon ∨ R k p'.advance q'.advance))
      (R k) := by
  unfold Parse.accept
  apply together_next
  rw [L.next h, Token.mapSpan_kind]
  exact together_ite (fun hkind => ⟨h.behind, .inl hkind⟩) fun _ => ⟨h.here, .inr h.behind⟩

/-- A statement ends with its semicolon, or where the parsers can look ahead. -/
theorem terminated (h : Ready R k p q) (s : Stmt) : Together
    (do
      let _ ← Parse.accept .semicolon
      return s)
    (do
      let _ ← Parse.accept .semicolon
      return s.mapSpans f)
    p q (SameStatement f R k) (R k) :=
  (L.acceptSemicolon h).bind fun _ _ _ _ h => together_pure ⟨rfl, h⟩

/-- Within a block all but a closing brace is passed. -/
theorem onward (h : R (k + 1) p q) (hk : p.current.kind ≠ .rightBrace) :
    R (k + 1) p.advance q.advance := by
  by_cases hs : p.current.kind = .semicolon
  · exact L.semicolon h hs
  · exact L.pass h ⟨hs, hk⟩

theorem integer (h : R k p q) (hk : p.current.kind = .integer) :
    Together (integer p.current) (integer (p.current.mapSpan f)) p q
      (Same R k (Expr.mapSpans f)) (R k) := by
  have hr : Ready R k p q := L.ready h (by simp [hk])
  unfold Parse.integer
  exact together_ite (fun _ => together_pure ⟨by rw [Expr.mapSpans]; rfl, hr⟩)
    fun _ => together_fail (L.record h _ _)

theorem parameters : ∀ n m p q, Ready R k p q → Together (parameters n) (parameters m) p q
    (Same R k (List.map (Identifier.mapSpans f))) (R k)
  | 0, _, _, _, _ => together_of_depth rfl
  | _, 0, _, _, _ => together_of_depth_right rfl
  | n + 1, m + 1, p, q, h => by
    rw [Parse.parameters, Parse.parameters, Body.parameters, Body.parameters]
    refine (L.demand h (by decide)).bind fun _ _ p q hd => ?_
    have h := hd.1
    apply together_current
    rw [L.current h.here]
    refine (L.accept h (by decide)).same fun more p' q' h => ?_
    cases more with
    | true => exact (parameters n m p' q' h).same fun xs _ _ h => together_pure ⟨rfl, h⟩
    | false => exact (L.demand h (by decide)).bind fun _ _ _ _ hd => together_pure ⟨rfl, hd.1⟩

end

mutual

theorem expression (L : Lockstep f R) : ∀ n m least k p q, R k p q →
    Together (expression n least) (expression m least) p q (Same R k (Expr.mapSpans f)) (R k)
  | 0, _, _, _, _, _, _ => together_of_depth rfl
  | _, 0, _, _, _, _, _ => together_of_depth_right rfl
  | n + 1, m + 1, least, k, p, q, h => by
    rw [Parse.expression, Parse.expression, Body.expression, Body.expression]
    exact (L.operand n m k p q h).same fun left _ _ h => L.extend n m least left k _ _ h
termination_by structural n => n

theorem operand (L : Lockstep f R) : ∀ n m k p q, R k p q →
    Together (operand n) (operand m) p q (Same R k (Expr.mapSpans f)) (R k)
  | 0, _, _, _, _, _ => together_of_depth rfl
  | _, 0, _, _, _, _ => together_of_depth_right rfl
  | n + 1, m + 1, k, p, q, h => by
    rw [Parse.operand, Parse.operand, Body.operand, Body.operand]
    apply together_current
    rw [L.current h, Token.mapSpan_kind]
    have hr := L.ready h
    cases hk : p.current.kind with
    | name | string | trueWord | falseWord =>
      refine together_pure ⟨?_, hr (by simp [hk])⟩
      simp [Expr.mapSpans, Identifier.mapSpans]
    | integer => exact L.integer h hk
    | bang | minus =>
      apply together_advance
      refine (L.expression n m _ k _ _ (hr (by simp [hk])).behind).same fun e _ _ h => ?_
      exact together_pure ⟨by rw [Expr.mapSpans], h⟩
    | leftParen =>
      apply together_advance
      refine (L.expression n m _ k _ _ (hr (by simp [hk])).behind).same fun e _ _ h => ?_
      exact (L.demand h (by decide)).bind fun _ _ _ _ ⟨h, _⟩ => together_pure ⟨rfl, h⟩
    | leftBracket =>
      refine (L.items n m _ k _ _ (hr (by simp [hk])) (by decide)).same fun es _ _ h => ?_
      exact together_pure ⟨by rw [Expr.mapSpans], h⟩
    | ifWord =>
      refine (L.demand (hr (by simp [hk])) (by decide)).bind fun _ _ _ _ ⟨h, _⟩ => ?_
      apply together_advance
      refine (L.expression n m _ k _ _ h.behind).same fun e _ _ h => ?_
      refine (L.demand h (by decide)).bind fun _ _ _ _ ⟨h, _⟩ => ?_
      refine (L.demand h (by decide)).bind fun _ _ _ _ ⟨h, hbrace⟩ => ?_
      refine (L.block n m k _ _ h.here hbrace).same fun b _ _ h => ?_
      refine (L.accept h (by decide)).same fun more _ _ h => ?_
      cases more with
      | true =>
        refine (L.demand h (by decide)).bind fun _ _ _ _ ⟨h, hbrace⟩ => ?_
        refine (L.block n m k _ _ h.here hbrace).same fun a _ _ h => ?_
        exact together_pure ⟨by rw [Expr.mapSpans], h⟩
      | false => exact together_pure ⟨by rw [Expr.mapSpans], h⟩
    | fnWord =>
      refine (L.demand (hr (by simp [hk])) (by decide)).bind fun _ _ _ _ ⟨h, _⟩ => ?_
      have hbody : ∀ names p' q', Ready R k p' q' → Together
          (do
            Parse.demand .leftBrace
            return .function p.current names (← Parse.block n))
          (do
            Parse.demand .leftBrace
            return .function (p.current.mapSpan f) (names.map (Identifier.mapSpans f))
              (← Parse.block m))
          p' q' (Same R k (Expr.mapSpans f)) (R k) := by
        intro names p' q' h
        refine (L.demand h (by decide)).bind fun _ _ _ _ ⟨h, hbrace⟩ => ?_
        refine (L.block n m k _ _ h.here hbrace).same fun b _ _ h => ?_
        exact together_pure ⟨by rw [Expr.mapSpans], h⟩
      refine (L.accept h (by decide)).same fun none _ _ h => ?_
      cases none with
      | true => exact hbody [] _ _ h
      | false => exact (L.parameters n m _ _ h).same hbody
    | _ => exact together_fail (L.record h _ _)
termination_by structural n => n

theorem extend (L : Lockstep f R) : ∀ n m least left k p q, Ready R k p q →
    Together (extend n least left) (extend m least (left.mapSpans f)) p q
      (Same R k (Expr.mapSpans f)) (R k)
  | 0, _, _, _, _, _, _, _ => together_of_depth rfl
  | _, 0, _, _, _, _, _, _ => together_of_depth_right rfl
  | n + 1, m + 1, least, left, k, p, q, h => by
    rw [Parse.extend, Parse.extend, Body.extend, Body.extend]
    apply together_next
    rw [L.next h, Token.mapSpan_kind]
    refine together_ite (fun _ => ?_) fun _ => together_pure ⟨rfl, h⟩
    have hr : p.next.kind ≠ .semicolon ∧ p.next.kind ≠ .rightBrace →
      Ready R k p.advance q.advance := L.ready h.behind
    have hbinary : ∀ op, p.next.kind ≠ .semicolon ∧ p.next.kind ≠ .rightBrace → Together
        (do
          let right ← Parse.expression n (Strength.ofKind p.next.kind)
          Parse.extend n least (.binary p.next left op right))
        (do
          let right ← Parse.expression m (Strength.ofKind p.next.kind)
          Parse.extend m least (.binary (p.next.mapSpan f) (left.mapSpans f) op right))
        p.advance.advance q.advance.advance (Same R k (Expr.mapSpans f)) (R k) := by
      intro op hkind
      refine (L.expression n m _ k _ _ (hr hkind).behind).same fun right _ _ h => ?_
      have hrest := L.extend n m least (.binary p.next left op right) k _ _ h
      rwa [Expr.mapSpans] at hrest
    cases hk : p.next.kind with
    | leftParen =>
      apply together_advance
      refine (L.items n m _ k _ _ (hr (by simp [hk])) (by decide)).same fun es _ _ h => ?_
      have hrest := L.extend n m least (.call p.next left es) k _ _ h
      rwa [Expr.mapSpans] at hrest
    | leftBracket =>
      apply together_advance
      apply together_advance
      refine (L.expression n m _ k _ _ (hr (by simp [hk])).behind).same fun i _ _ h => ?_
      refine (L.demand h (by decide)).bind fun _ _ _ _ ⟨h, _⟩ => ?_
      have hrest := L.extend n m least (.index p.next left i) k _ _ h
      rwa [Expr.mapSpans] at hrest
    | _ =>
      rw [hk] at hbinary
      first
      | exact together_pure ⟨rfl, h⟩
      | exact together_advance (together_advance (hbinary _ (by decide)))
termination_by structural n => n

theorem items (L : Lockstep f R) : ∀ n m closing k p q, Ready R k p q →
    closing ≠ .semicolon ∧ closing ≠ .rightBrace →
    Together (items n closing) (items m closing) p q (Same R k (Expr.mapAllSpans f)) (R k)
  | 0, _, _, _, _, _, _, _ => together_of_depth rfl
  | _, 0, _, _, _, _, _, _ => together_of_depth_right rfl
  | n + 1, m + 1, closing, k, p, q, h, hc => by
    rw [Parse.items, Parse.items, Body.items, Body.items]
    refine (L.accept h hc).same fun none _ _ h => ?_
    cases none with
    | true => exact together_pure ⟨by rw [Expr.mapAllSpans], h⟩
    | false =>
      apply together_advance
      refine (L.expression n m _ k _ _ h.behind).same fun e _ _ h => ?_
      refine (L.moreItems n m closing k _ _ h hc).same fun es _ _ h => ?_
      exact together_pure ⟨by rw [Expr.mapAllSpans], h⟩
termination_by structural n => n

theorem moreItems (L : Lockstep f R) : ∀ n m closing k p q, Ready R k p q →
    closing ≠ .semicolon ∧ closing ≠ .rightBrace →
    Together (moreItems n closing) (moreItems m closing) p q (Same R k (Expr.mapAllSpans f)) (R k)
  | 0, _, _, _, _, _, _, _ => together_of_depth rfl
  | _, 0, _, _, _, _, _, _ => together_of_depth_right rfl
  | n + 1, m + 1, closing, k, p, q, h, hc => by
    rw [Parse.moreItems, Parse.moreItems, Body.moreItems, Body.moreItems]
    refine (L.accept h (by decide)).same fun more _ _ h => ?_
    cases more with
    | true =>
      apply together_advance
      refine (L.expression n m _ k _ _ h.behind).same fun e _ _ h => ?_
      refine (L.moreItems n m closing k _ _ h hc).same fun es _ _ h => ?_
      exact together_pure ⟨by rw [Expr.mapAllSpans], h⟩
    | false =>
      refine (L.demand h hc).bind fun _ _ _ _ ⟨h, _⟩ => ?_
      exact together_pure ⟨by rw [Expr.mapAllSpans], h⟩
termination_by structural n => n

theorem statement (L : Lockstep f R) : ∀ n m k p q, R k p q →
    Together (statement n) (statement m) p q (SameStatement f R k) (R k)
  | 0, _, _, _, _, _ => together_of_depth rfl
  | _, 0, _, _, _, _ => together_of_depth_right rfl
  | n + 1, m + 1, k, p, q, h => by
    rw [Parse.statement, Parse.statement, Body.statement, Body.statement]
    apply together_current
    rw [L.current h, Token.mapSpan_kind]
    have hr := L.ready h
    cases hk : p.current.kind with
    | letWord =>
      refine (L.demand (hr (by simp [hk])) (by decide)).bind fun _ _ p' q' ⟨h, _⟩ => ?_
      apply together_current
      rw [L.current h.here]
      refine (L.demand h (by decide)).bind fun _ _ _ _ ⟨h, _⟩ => ?_
      apply together_advance
      refine (L.expression n m _ k _ _ h.behind).same fun e _ _ h => ?_
      have hend := L.terminated h (.letName p.current ⟨p'.current, p'.current.literal⟩ e)
      rwa [Stmt.mapSpans] at hend
    | returnWord =>
      apply together_advance
      refine (L.expression n m _ k _ _ (hr (by simp [hk])).behind).same fun e _ _ h => ?_
      have hend := L.terminated h (.returnValue p.current e)
      rwa [Stmt.mapSpans] at hend
    | _ =>
      refine (L.expression n m _ k _ _ h).same fun e _ _ h => ?_
      have hend := L.terminated h (.expression p.current e)
      rwa [Stmt.mapSpans] at hend
termination_by structural n => n

theorem block (L : Lockstep f R) : ∀ n m k p q, R k p q → p.current.kind = .leftBrace →
    Together (block n) (block m) p q (Same R k (Block.mapSpans f)) (R k)
  | 0, _, _, _, _, _, _ => together_of_depth rfl
  | _, 0, _, _, _, _, _ => together_of_depth_right rfl
  | n + 1, m + 1, k, p, q, h, hbrace => by
    rw [Parse.block, Parse.block, Body.block, Body.block]
    apply together_current
    rw [L.current h]
    apply together_advance
    have hinner := L.statements n m k _ _ (L.enter h hbrace)
    have hblock := hinner.mono (fun _ _ _ _ h => h) fun _ _ h => L.weaken h
    refine hblock.bind fun ss ss' p' q' hss => ?_
    obtain ⟨rfl, hr, hend⟩ := hss
    exact together_pure ⟨by rw [Block.mapSpans], L.weaken hr, L.leave hr hend⟩
termination_by structural n => n

/-- The statements of a block, one block further in. -/
theorem statements (L : Lockstep f R) : ∀ n m k p q, R (k + 1) p q →
    Together (statements n) (statements m) p q
      (fun ss ss' p' q' => ss' = Stmt.mapAllSpans f ss ∧ R (k + 1) p' q' ∧
        (p'.current.kind = .rightBrace ∨ p'.current.kind = .endOfInput)) (R (k + 1))
  | 0, _, _, _, _, _ => together_of_depth rfl
  | _, 0, _, _, _, _ => together_of_depth_right rfl
  | n + 1, m + 1, k, p, q, h => by
    rw [Parse.statements, Parse.statements, Body.statements, Body.statements]
    apply together_current
    rw [L.current h, Token.mapSpan_kind]
    have hnone : [] = Stmt.mapAllSpans f [] := by rw [Stmt.mapAllSpans]
    cases hk : p.current.kind with
    | rightBrace => exact together_pure ⟨hnone, h, .inl hk⟩
    | endOfInput => exact together_pure ⟨hnone, h, .inr hk⟩
    | _ =>
      refine (L.statement n m (k + 1) p q h).attempt (fun s s' p' q' hs => ?_) fun p' q' h => ?_
      · obtain ⟨rfl, h, hend⟩ := hs
        have hbehind : R (k + 1) p'.advance q'.advance := hend.elim (L.semicolon h) id
        apply together_advance
        refine (L.statements n m k _ _ hbehind).bind fun ss ss' _ _ hss => ?_
        obtain ⟨rfl, hss⟩ := hss
        exact together_pure ⟨by rw [Stmt.mapAllSpans], hss⟩
      · have hrecover := L.recover h
        apply together_recover
        apply together_current
        rw [L.current hrecover, Token.mapSpan_kind]
        refine together_ite (fun hbrace => together_pure ⟨hnone, hrecover, .inl hbrace⟩) ?_
        intro hbrace
        apply together_advance
        exact L.statements n m k _ _ (L.onward hrecover hbrace)
termination_by structural n => n

end

end Lockstep

end Parse

end MonkeyLang
