import MonkeyLang.Proofs.Parsing.Sound

namespace MonkeyLang

open Grammar

/-- The tokens left are `ts`, closing braces at the end apart, and no error has been added. -/
structure Parser.Faces (errors : List SyntaxError) (p : Parser) (ts : List Token) : Prop where
  endMark : p.endMark.kind = .endOfInput
  errors_eq : p.errors = errors
  tokens : Completes p.tokens ts

/-- How strongly the token at the front goes on with an expression before it. -/
def following : List Token → Nat
  | [] => 0
  | t :: _ => (Strength.ofKind t.kind).rank

/-- What stands behind an expression of this level does not go on with it. -/
def Stops (level : Nat) (ts : List Token) : Prop :=
  min (following ts) 7 ≤ level ∧ ∀ t ∈ ts.head?, t.kind ≠ .elseWord

theorem Stops.mono {level level' : Nat} {ts : List Token} (h : Stops level ts)
    (hl : level ≤ level') : Stops level' ts := ⟨Nat.le_trans h.1 hl, h.2⟩

theorem stops_cons {t : Token} (kind : Token.Kind) {ts : List Token} (ht : t.kind = kind)
    (hk : Strength.ofKind kind = .lowest ∧ kind ≠ .elseWord) : Stops 0 (t :: ts) := by
  refine ⟨by simp [following, ht, hk.1, Strength.rank], ?_⟩
  rintro u hu
  obtain rfl : t = u := by simpa using hu
  rw [ht]
  exact hk.2

/-- What is left behind a statement that stands before `ts`. -/
def AfterStatement (ts rest : List Token) : Prop :=
  (∃ t, t.kind = .semicolon ∧ ts = t :: rest) ∨
    ts = rest ∧ ∀ t ∈ ts.head?, t.kind ≠ .semicolon

namespace Parser.Faces

variable {errors : List SyntaxError} {p : Parser} {t : Token} {ts : List Token}

theorem advance (h : p.Faces errors (t :: ts)) : p.advance.Faces errors ts := by
  refine ⟨h.endMark, h.errors_eq, ?_⟩
  rcases h.tokens.cons with ⟨rest, hp, hr⟩ | ⟨hp, -, hr⟩ <;> simpa [Parser.advance, hp] using hr

/-- A token that is no closing brace is there. -/
theorem current (h : p.Faces errors (t :: ts)) (ht : t.kind ≠ .rightBrace) : p.current = t := by
  rcases h.tokens.cons with ⟨rest, hp, -⟩ | ⟨-, hk, -⟩
  · simp [Parser.current, hp]
  · exact absurd hk ht

theorem next (h : p.advance.Faces errors (t :: ts)) (ht : t.kind ≠ .rightBrace) : p.next = t :=
  h.current ht

theorem next_kind {kind : Token.Kind} (h : p.advance.Faces errors (t :: ts))
    (ht : t.kind = kind) (hk : kind ≠ .rightBrace) : p.next.kind = kind := by
  rw [h.next (ht ▸ hk), ht]

/-- The current token is the one at the front, or stands for the end. -/
theorem current_kind (h : p.Faces errors ts) :
    p.current.kind = .endOfInput ∨ ∃ t ∈ ts.head?, p.current.kind = t.kind := by
  cases ts with
  | nil =>
    obtain ⟨missing, -, hm⟩ := h.tokens
    obtain ⟨hp, -⟩ := List.append_eq_nil_iff.mp hm
    exact .inl (by simpa [Parser.current, hp] using h.endMark)
  | cons t ts =>
    rcases h.tokens.cons with ⟨rest, hp, -⟩ | ⟨hp, -, -⟩
    · exact .inr ⟨t, by simp, by simp [Parser.current, hp]⟩
    · exact .inl (by simpa [Parser.current, hp] using h.endMark)

theorem next_ne {kind : Token.Kind} (h : p.advance.Faces errors ts) (hk : kind ≠ .endOfInput)
    (ht : ∀ t ∈ ts.head?, t.kind ≠ kind) : p.next.kind ≠ kind := by
  rcases h.current_kind with hc | ⟨t, hmem, hc⟩
  · exact fun hn => hk (hn.symm.trans hc)
  · exact fun hn => ht t hmem (hc.symm.trans hn)

theorem rank_next (h : p.advance.Faces errors ts) :
    (Strength.ofKind p.next.kind).rank = following ts := by
  cases ts with
  | nil =>
    rcases h.current_kind with hc | ⟨t, hmem, -⟩
    · change p.next.kind = _ at hc
      rw [hc]
      rfl
    · simp at hmem
  | cons t ts =>
    by_cases ht : t.kind = .rightBrace
    · rcases h.current_kind with hc | ⟨u, hmem, hc⟩
      · change p.next.kind = _ at hc
        rw [hc, following, ht]
        rfl
      · obtain rfl : t = u := by simpa using hmem
        change p.next.kind = _ at hc
        rw [hc, following]
    · rw [h.next ht, following]

end Parser.Faces

namespace Parse

open MonkeyLang.Parser

variable {α β : Type} {p : Parser}

/-- The run ends well with `ok`, unless the limit on recursion stops it. -/
def Accepts (x : Parse α) (p : Parser) (ok : α → Parser → Prop) : Prop :=
  Ends x p ok fun s _ => s = .depth

section
variable {ok : β → Parser → Prop}

theorem Accepts.bind {x : Parse α} {f : α → Parse β} {ok' : α → Parser → Prop}
    (hx : Accepts x p ok') (hf : ∀ a q, ok' a q → Accepts (f a) q ok) : Accepts (x >>= f) p ok :=
  ends_bind.2 (hx.mono (fun a q hq => hf a q hq) fun _ _ hs => hs)

theorem Accepts.current {f : Token → Parse β} (h : Accepts (f p.current) p ok) :
    Accepts (current >>= f) p ok := h

theorem Accepts.next {f : Token → Parse β} (h : Accepts (f p.next) p ok) :
    Accepts (next >>= f) p ok := h

theorem Accepts.advance {f : Unit → Parse β} (h : Accepts (f ()) p.advance ok) :
    Accepts (advance >>= f) p ok := h

theorem Accepts.demand {kind : Token.Kind} {f : Unit → Parse β} (hk : p.next.kind = kind)
    (h : Accepts (f ()) p.advance ok) : Accepts (demand kind >>= f) p ok :=
  ends_bind.2 (ends_demand.2 ⟨fun _ => h, fun hn => absurd hk hn⟩)

theorem Accepts.taken {kind : Token.Kind} {f : Bool → Parse β} (hk : p.next.kind = kind)
    (h : Accepts (f true) p.advance ok) : Accepts (accept kind >>= f) p ok :=
  ends_bind.2 (ends_accept.2 ⟨fun _ => h, fun hn => absurd hk hn⟩)

theorem Accepts.declined {kind : Token.Kind} {f : Bool → Parse β} (hk : p.next.kind ≠ kind)
    (h : Accepts (f false) p ok) : Accepts (accept kind >>= f) p ok :=
  ends_bind.2 (ends_accept.2 ⟨fun hn => absurd hn hk, fun _ => h⟩)

theorem Accepts.attempt {x : Parse α} {f : Option α → Parse β} {ok' : α → Parser → Prop}
    (hx : Accepts x p ok') (hf : ∀ a q, ok' a q → Accepts (f (some a)) q ok) :
    Accepts (attempt x >>= f) p ok :=
  ends_bind.2 (ends_attempt.2 (hx.mono (fun a q hq => hf a q hq)
    fun _ _ hs => ⟨fun h => by simp [hs] at h, fun _ => rfl⟩))

end

variable {errors : List SyntaxError}

/-- What is read as `a` hands over to what comes behind it. -/
theorem Accepts.chain {x : Parse α} {f : α → Parse β} {a : α} {ws : List Token}
    {ok : β → Parser → Prop}
    (hx : Accepts x p fun a' q => a' = a ∧ q.advance.Faces errors ws)
    (hf : ∀ q, q.advance.Faces errors ws → Accepts (f a) q ok) : Accepts (x >>= f) p ok := by
  refine hx.bind ?_
  intro a' q h
  obtain ⟨rfl, hq⟩ := h
  exact hf q hq

/-- What a list of items may end with. -/
def Closes (kind : Token.Kind) : Prop := kind = .rightParen ∨ kind = .rightBracket

/-- The items are read up to what closes the list, the first of them on its own. -/
def AcceptsItems (es : List Expr) (ts : List Token) : Prop :=
  ∀ errors p closing r ws, Closes closing → r.kind = closing → p.Faces errors (ts ++ r :: ws) →
    ∀ n m, Accepts (expression n .lowest >>= fun e => return e :: (← moreItems m closing)) p
      fun es' q => es' = es ∧ q.advance.Faces errors ws

/-- A phrase is read whatever stands behind it, provided that this does not go on with it. -/
def AcceptsPhrase : Phrase → List Token → Prop
  | .expression level e, ts => ∀ errors p ws least ok, p.Faces errors (ts ++ ws) →
    least.rank ≤ 6 → min (least.rank + 1) 6 ≤ level → Stops level ws →
    (∀ m q, q.advance.Faces errors ws → Accepts (extend m least e) q ok) →
    ∀ n, Accepts (expression n least) p ok
  | .items es, ts => es ≠ [] → AcceptsItems es ts
  | .parameters names, ts => names ≠ [] → ∀ errors p r ws, r.kind = .rightParen →
    p.advance.Faces errors (ts ++ r :: ws) →
    ∀ n, Accepts (parameters n) p fun names' q => names' = names ∧ q.advance.Faces errors ws
  | .block b, ts => ∀ errors p ws, p.Faces errors (ts ++ ws) →
    ∀ n, Accepts (block n) p fun b' q => b' = b ∧ q.advance.Faces errors ws
  | .core s, ts => ∀ errors p ws rest, p.Faces errors (ts ++ ws) → Stops 0 ws →
    AfterStatement ws rest →
    ∀ n, Accepts (statement n) p fun s' q => s' = s ∧ q.advance.Faces errors rest
  | .statements ss, ts =>
    (∀ errors p r ws, r.kind = .rightBrace → p.Faces errors (ts ++ r :: ws) →
      ∀ n, Accepts (statements n) p fun ss' q => ss' = ss ∧ q.advance.Faces errors ws) ∧
    ∀ errors p, p.Faces errors ts →
      ∀ n, Accepts (program n) p fun ss' q => ss' = ss ∧ q.errors = errors

theorem accepts_extend {e : Expr} {ws : List Token} {least : Strength} {q : Parser}
    (hs : following ws ≤ least.rank) (hq : q.advance.Faces errors ws) : ∀ m,
    Accepts (extend m least e) q fun e' r => e' = e ∧ r.advance.Faces errors ws
  | 0 => rfl
  | m + 1 => by
    rw [extend, Body.extend]
    apply Accepts.next
    have hstays : ¬least < Strength.ofKind q.next.kind := by
      rw [Strength.lt_iff, hq.rank_next]
      omega
    rw [if_neg (mt goesOn_iff.mp hstays)]
    exact ⟨rfl, hq⟩

/-- An expression is read up to a token that does not bind tighter than `least`. -/
theorem accepts_expression {e : Expr} {level : Nat} {ts ws : List Token} {least : Strength}
    (h : AcceptsPhrase (.expression level e) ts) (h6 : least.rank ≤ 6)
    (hl : min (least.rank + 1) 6 ≤ level) (hw : Stops level ws) (hs : following ws ≤ least.rank)
    (hp : p.Faces errors (ts ++ ws)) : ∀ n,
    Accepts (expression n least) p fun e' q => e' = e ∧ q.advance.Faces errors ws :=
  h errors p ws least _ hp h6 hl hw fun m _ hq => accepts_extend hs hq m

theorem accepts_lowest {e : Expr} {ts ws : List Token} (h : AcceptsPhrase (.expression 1 e) ts)
    (hw : Stops 0 ws) (hp : p.Faces errors (ts ++ ws)) : ∀ n,
    Accepts (expression n .lowest) p fun e' q => e' = e ∧ q.advance.Faces errors ws :=
  accepts_expression h (Nat.zero_le 6) (Nat.le_refl 1) (hw.mono (Nat.zero_le 1))
    (show following ws ≤ 0 by have h0 := hw.1; omega) hp

/-- An expression that an operand is all of. -/
def AcceptsOperand (level : Nat) (e : Expr) (ts : List Token) : Prop :=
  ∀ errors p ws, p.Faces errors (ts ++ ws) → Stops level ws →
    ∀ n, Accepts (operand (n + 1)) p fun e' q => e' = e ∧ q.advance.Faces errors ws

theorem AcceptsOperand.phrase {level : Nat} {e : Expr} {ts : List Token}
    (h : AcceptsOperand level e ts) : AcceptsPhrase (.expression level e) ts := by
  intro errors p ws least ok hp _ _ hw hx n
  match n with
  | 0 => rfl
  | 1 => rfl
  | n + 2 =>
    rw [expression, Body.expression]
    exact (h errors p ws hp hw n).chain fun q hq => hx (n + 1) q hq

/-- A token that is an operand of its own. -/
theorem accepts_token {t : Token} {e : Expr} (ht : t.kind ≠ .rightBrace)
    (h : ∀ p : Parser, p.current = t → ∀ n ok, ok e p → Accepts (operand (n + 1)) p ok) :
    AcceptsPhrase (.expression 7 e) [t] := by
  refine AcceptsOperand.phrase fun errors p ws hp _ n => ?_
  exact h p (hp.current ht) n _ ⟨rfl, hp.advance⟩

theorem accepts_name {t : Token} (ht : t.kind = .name) :
    AcceptsPhrase (.expression 7 (.name ⟨t, t.literal⟩)) [t] := by
  refine accepts_token (by simp [ht]) fun p hp n ok hok => ?_
  rw [operand, Body.operand]
  apply Accepts.current
  simp only [hp, ht]
  exact hok

theorem accepts_integer {t : Token} (ht : t.kind = .integer) (hn : number t ≤ Nat.pow 2 63 - 1) :
    AcceptsPhrase (.expression 7 (.integer t (Int64.ofNat (number t)))) [t] := by
  refine accepts_token (by simp [ht]) fun p hp n ok hok => ?_
  rw [operand, Body.operand]
  apply Accepts.current
  simp only [hp, ht, integer]
  exact ends_ite.2 ⟨fun _ => hok, fun h => absurd (Nat.lt_of_le_pred (by decide) hn) h⟩

theorem accepts_string {t : Token} (ht : t.kind = .string) :
    AcceptsPhrase (.expression 7 (.string t t.literal)) [t] := by
  refine accepts_token (by simp [ht]) fun p hp n ok hok => ?_
  rw [operand, Body.operand]
  apply Accepts.current
  simp only [hp, ht]
  exact hok

theorem accepts_boolean {t : Token} {value : Bool} (ht : (t.kind, value) ∈ truthWords) :
    AcceptsPhrase (.expression 7 (.boolean t value)) [t] := by
  simp only [truthWords, List.mem_cons, Prod.mk.injEq, List.not_mem_nil, or_false] at ht
  refine accepts_token ?_ fun p hp n ok hok => ?_
  · rcases ht with ⟨ht, -⟩ | ⟨ht, -⟩ <;> simp [ht]
  rw [operand, Body.operand]
  apply Accepts.current
  rcases ht with ⟨ht, rfl⟩ | ⟨ht, rfl⟩
  all_goals
    simp only [hp, ht]
    exact hok

theorem accepts_group {l r : Token} {ts : List Token} {e : Expr} (hl : l.kind = .leftParen)
    (he : AcceptsPhrase (.expression 1 e) ts) (hr : r.kind = .rightParen) :
    AcceptsPhrase (.expression 7 e) (l :: (ts ++ [r])) := by
  refine AcceptsOperand.phrase fun errors p ws hp _ n => ?_
  rw [operand, Body.operand]
  apply Accepts.current
  rw [hp.current (by simp [hl])]
  simp only [hl]
  have hp' : p.advance.Faces errors (ts ++ r :: ws) := by simpa using hp.advance
  refine Accepts.advance ((accepts_lowest he (stops_cons _ hr ⟨rfl, by simp⟩) hp' n).chain ?_)
  intro q hq
  exact Accepts.demand (hq.next_kind hr (by simp)) ⟨rfl, hq.advance⟩

theorem accepts_items {es : List Expr} {ts ws : List Token} {closing : Token.Kind} {r : Token}
    (hd : Derives False ts (.items es)) (h : AcceptsPhrase (.items es) ts) (hc : Closes closing)
    (hr : r.kind = closing) (hp : p.advance.Faces errors (ts ++ r :: ws)) : ∀ n,
    Accepts (items n closing) p fun es' q => es' = es ∧ q.advance.Faces errors ws
  | 0 => rfl
  | n + 1 => by
    rw [items, Body.items]
    cases es with
    | nil =>
      cases hd
      refine Accepts.taken ?_ ⟨rfl, hp.advance⟩
      rw [hp.next (by rcases hc with rfl | rfl <;> simp [hr]), hr]
    | cons e es =>
      obtain ⟨t, us, rfl, ht⟩ := hd.beginsWith (by simp)
      refine Accepts.declined (hp.next_ne ?_ ?_) (Accepts.advance ?_)
      · rcases hc with rfl | rfl <;> decide
      · intro u hu hk
        obtain rfl : t = u := by simpa using hu
        rcases hc with rfl | rfl <;> simp [hk, openers] at ht
      · exact h (by simp) _ _ closing r ws hc hr hp n n

theorem accepts_array {l r : Token} {ts : List Token} {es : List Expr}
    (hl : l.kind = .leftBracket) (hd : Derives False ts (.items es))
    (hes : AcceptsPhrase (.items es) ts) (hr : r.kind = .rightBracket) :
    AcceptsPhrase (.expression 7 (.array l es)) (l :: (ts ++ [r])) := by
  refine AcceptsOperand.phrase fun errors p ws hp _ n => ?_
  rw [operand, Body.operand]
  apply Accepts.current
  rw [hp.current (by simp [hl])]
  simp only [hl]
  have hp' : p.advance.Faces errors (ts ++ r :: ws) := by simpa using hp.advance
  refine (accepts_items hd hes (.inr rfl) hr hp' n).chain ?_
  intro q hq
  exact ⟨rfl, hq⟩

/-- A block that is demanded, and what comes behind it. -/
theorem accepts_braces {b : Block} {us ws : List Token} {f : Block → Parse β}
    {ok : β → Parser → Prop} (hd : Derives False us (.block b)) (hb : AcceptsPhrase (.block b) us)
    (hp : p.advance.Faces errors (us ++ ws)) (n : Nat)
    (hf : ∀ q, q.advance.Faces errors ws → Accepts (f b) q ok) :
    Accepts (demand .leftBrace >>= fun _ => block n >>= f) p ok := by
  obtain ⟨t, rest, rfl, ht⟩ := hd.beginsWith
  refine Accepts.demand (hp.next_kind ht (by simp)) ((hb _ _ ws hp n).chain ?_)
  intro q hq
  exact hf q hq

theorem accepts_conditional {i l r : Token} {ts us : List Token} {e : Expr} {b : Block}
    (hi : i.kind = .ifWord) (hl : l.kind = .leftParen) (he : AcceptsPhrase (.expression 1 e) ts)
    (hr : r.kind = .rightParen) (hd : Derives False us (.block b))
    (hb : AcceptsPhrase (.block b) us) :
    AcceptsPhrase (.expression 7 (.conditional i e b none)) (i :: l :: (ts ++ r :: us)) := by
  refine AcceptsOperand.phrase fun errors p ws hp hw n => ?_
  rw [operand, Body.operand]
  apply Accepts.current
  rw [hp.current (by simp [hi])]
  simp only [hi]
  have hp' : p.advance.advance.Faces errors (ts ++ r :: (us ++ ws)) := by
    simpa using hp.advance.advance
  refine Accepts.demand (hp.advance.next_kind hl (by simp)) (Accepts.advance ?_)
  refine (accepts_lowest he (stops_cons _ hr ⟨rfl, by simp⟩) hp' n).chain ?_
  intro q hq
  refine Accepts.demand (hq.next_kind hr (by simp)) ?_
  refine accepts_braces hd hb hq.advance n fun u hu => ?_
  exact Accepts.declined (hu.next_ne (by simp) hw.2) ⟨rfl, hu⟩

theorem accepts_alternative {i l r w : Token} {ts us vs : List Token} {e : Expr} {b a : Block}
    (hi : i.kind = .ifWord) (hl : l.kind = .leftParen) (he : AcceptsPhrase (.expression 1 e) ts)
    (hr : r.kind = .rightParen) (hd : Derives False us (.block b))
    (hb : AcceptsPhrase (.block b) us) (hw : w.kind = .elseWord)
    (hda : Derives False vs (.block a)) (ha : AcceptsPhrase (.block a) vs) :
    AcceptsPhrase (.expression 7 (.conditional i e b (some a)))
      (i :: l :: (ts ++ r :: (us ++ w :: vs))) := by
  refine AcceptsOperand.phrase fun errors p ws hp _ n => ?_
  rw [operand, Body.operand]
  apply Accepts.current
  rw [hp.current (by simp [hi])]
  simp only [hi]
  have hp' : p.advance.advance.Faces errors (ts ++ r :: (us ++ w :: (vs ++ ws))) := by
    simpa using hp.advance.advance
  refine Accepts.demand (hp.advance.next_kind hl (by simp)) (Accepts.advance ?_)
  refine (accepts_lowest he (stops_cons _ hr ⟨rfl, by simp⟩) hp' n).chain ?_
  intro q hq
  refine Accepts.demand (hq.next_kind hr (by simp)) ?_
  refine accepts_braces hd hb hq.advance n fun u hu => ?_
  refine Accepts.taken (hu.next_kind hw (by simp)) ?_
  exact accepts_braces hda ha hu.advance n fun v hv => ⟨rfl, hv⟩

theorem accepts_function {f l r : Token} {ts us : List Token} {names : List Identifier} {b : Block}
    (hf : f.kind = .fnWord) (hl : l.kind = .leftParen) (hdn : Derives False ts (.parameters names))
    (hn : AcceptsPhrase (.parameters names) ts) (hr : r.kind = .rightParen)
    (hd : Derives False us (.block b)) (hb : AcceptsPhrase (.block b) us) :
    AcceptsPhrase (.expression 7 (.function f names b)) (f :: l :: (ts ++ r :: us)) := by
  refine AcceptsOperand.phrase fun errors p ws hp _ n => ?_
  rw [operand, Body.operand]
  apply Accepts.current
  rw [hp.current (by simp [hf])]
  simp only [hf]
  have hp' : p.advance.advance.Faces errors (ts ++ r :: (us ++ ws)) := by
    simpa using hp.advance.advance
  refine Accepts.demand (hp.advance.next_kind hl (by simp)) ?_
  cases names with
  | nil =>
    cases hdn
    refine Accepts.taken (hp'.next_kind hr (by simp)) ?_
    exact accepts_braces hd hb hp'.advance n fun v hv => ⟨rfl, hv⟩
  | cons x xs =>
    refine Accepts.declined (hp'.next_ne (by simp) ?_) ?_
    · intro t ht hk
      obtain ⟨u, us, rfl, hu⟩ := hdn.beginsWith (by simp)
      obtain rfl : u = t := by simpa using ht
      simp [hu] at hk
    · refine (hn (by simp) _ _ r _ hr hp' n).chain ?_
      intro q hq
      exact accepts_braces hd hb hq n fun v hv => ⟨rfl, hv⟩

theorem accepts_call {l r : Token} {ts us : List Token} {e : Expr} {es : List Expr}
    (he : AcceptsPhrase (.expression 7 e) ts) (hl : l.kind = .leftParen)
    (hd : Derives False us (.items es)) (hes : AcceptsPhrase (.items es) us)
    (hr : r.kind = .rightParen) :
    AcceptsPhrase (.expression 7 (.call l e es)) (ts ++ l :: (us ++ [r])) := by
  intro errors p ws least ok hp h6 hlevel hw hx
  refine he errors p (l :: (us ++ r :: ws)) least ok (by simpa using hp) h6 hlevel ?_ ?_
  · exact ⟨Nat.min_le_right _ _, by simp [hl]⟩
  · intro m q hq
    cases m with
    | zero => rfl
    | succ m =>
      rw [extend, Body.extend]
      apply Accepts.next
      have hbinds : least < Strength.ofKind .leftParen := Nat.lt_succ_of_le h6
      rw [hq.next (by simp [hl]), hl, if_pos (goesOn_iff.mpr hbinds)]
      refine Accepts.advance ((accepts_items hd hes (.inl rfl) hr hq.advance m).chain ?_)
      intro u hu
      exact hx m u hu

theorem accepts_index {l r : Token} {ts us : List Token} {e i : Expr}
    (he : AcceptsPhrase (.expression 7 e) ts) (hl : l.kind = .leftBracket)
    (hi : AcceptsPhrase (.expression 1 i) us) (hr : r.kind = .rightBracket) :
    AcceptsPhrase (.expression 7 (.index l e i)) (ts ++ l :: (us ++ [r])) := by
  intro errors p ws least ok hp h6 hlevel hw hx
  refine he errors p (l :: (us ++ r :: ws)) least ok (by simpa using hp) h6 hlevel ?_ ?_
  · exact ⟨Nat.min_le_right _ _, by simp [hl]⟩
  · intro m q hq
    cases m with
    | zero => rfl
    | succ m =>
      rw [extend, Body.extend]
      apply Accepts.next
      have hbinds : least < Strength.ofKind .leftBracket :=
        Nat.lt_succ_of_le (Nat.le_succ_of_le h6)
      rw [hq.next (by simp [hl]), hl, if_pos (goesOn_iff.mpr hbinds)]
      refine Accepts.advance (Accepts.advance ?_)
      refine (accepts_lowest hi (stops_cons _ hr ⟨rfl, by simp⟩) hq.advance m).chain ?_
      intro u hu
      refine Accepts.demand (hu.next_kind hr (by simp)) ?_
      exact hx m _ hu.advance

theorem accepts_unary {t : Token} {op : PrefixOp} {ts : List Token} {e : Expr}
    (ht : (t.kind, op) ∈ prefixOperators) (he : AcceptsPhrase (.expression 6 e) ts) :
    AcceptsPhrase (.expression 6 (.unary t op e)) (t :: ts) := by
  simp only [prefixOperators, List.mem_cons, Prod.mk.injEq, List.not_mem_nil, or_false] at ht
  refine AcceptsOperand.phrase fun errors p ws hp hw n => ?_
  have h6 : Strength.unary.rank ≤ 6 := Nat.le_refl 6
  have hs : following ws ≤ Strength.unary.rank := by
    have hw6 := hw.1
    change _ ≤ 6
    omega
  rw [operand, Body.operand]
  apply Accepts.current
  rw [hp.current (by rcases ht with ⟨ht, -⟩ | ⟨ht, -⟩ <;> simp [ht])]
  rcases ht with ⟨ht, rfl⟩ | ⟨ht, rfl⟩
  all_goals
    simp only [ht]
    refine Accepts.advance ((accepts_expression he h6 (Nat.le_refl 6) hw hs hp.advance n).chain ?_)
    intro q hq
    exact ⟨rfl, hq⟩

theorem accepts_binary {k : Nat} {t : Token} {op : InfixOp} {ts us : List Token} {a b : Expr}
    (ht : (t.kind, op) ∈ operators k) (ha : AcceptsPhrase (.expression k a) ts)
    (hb : AcceptsPhrase (.expression (k + 1) b) us) :
    AcceptsPhrase (.expression k (.binary t a op b)) (ts ++ t :: us) := by
  obtain ⟨hop, hrank, h1, h5⟩ := ofKind_of_mem ht
  intro errors p ws least ok hp h6 hlevel hw hx
  have hbrace : t.kind ≠ .rightBrace := fun h => by simp [h, InfixOp.ofKind?] at hop
  have helse : t.kind ≠ .elseWord := fun h => by simp [h, InfixOp.ofKind?] at hop
  refine ha errors p (t :: (us ++ ws)) least ok (by simpa using hp) h6 hlevel ?_ ?_
  · refine ⟨?_, by simpa using helse⟩
    rw [following, hrank]
    exact Nat.min_le_left _ _
  · intro m q hq
    cases m with
    | zero => rfl
    | succ m =>
      rw [extend, Body.extend]
      apply Accepts.next
      have hbinds : least < Strength.ofKind t.kind := by
        rw [Strength.lt_iff, hrank]
        omega
      rw [hq.next hbrace, if_pos (goesOn_iff.mpr hbinds), Infix.operator_iff.mpr ⟨op, hop⟩, hop]
      have hws := hw.1
      have hle : (Strength.ofKind t.kind).rank ≤ 6 := by omega
      have hlevel' : min ((Strength.ofKind t.kind).rank + 1) 6 ≤ k + 1 := by omega
      have hfollowing : following ws ≤ (Strength.ofKind t.kind).rank := by omega
      have hright := accepts_expression hb hle hlevel' (hw.mono (Nat.le_succ k)) hfollowing
        hq.advance m
      refine Accepts.advance (Accepts.advance (hright.chain ?_))
      intro u hu
      exact hx m u hu

theorem accepts_loosen {k : Nat} {ts : List Token} {e : Expr}
    (he : AcceptsPhrase (.expression (k + 1) e) ts) : AcceptsPhrase (.expression k e) ts := by
  intro errors p ws least ok hp h6 hlevel hw hx
  exact he errors p ws least ok hp h6 (Nat.le_succ_of_le hlevel) (hw.mono (Nat.le_succ k)) hx

/-- After the first item, the others up to what closes the list. -/
theorem accepts_lastItem {ts : List Token} {e : Expr} (he : AcceptsPhrase (.expression 1 e) ts) :
    AcceptsPhrase (.items [e]) ts := by
  rintro - errors p closing r ws hc hr hp n m
  have hstop : Stops 0 (r :: ws) := stops_cons _ hr (by rcases hc with rfl | rfl <;> decide)
  refine (accepts_lowest he hstop hp n).chain ?_
  intro q hq
  cases m with
  | zero => rfl
  | succ m =>
    have hnext : q.next.kind = closing := by
      rw [hq.next (by rcases hc with rfl | rfl <;> simp [hr]), hr]
    have hcomma : closing ≠ .comma := by rcases hc with rfl | rfl <;> decide
    have hnone : Accepts (moreItems (m + 1) closing) q fun es u =>
        es = [] ∧ u.advance.Faces errors ws := by
      rw [moreItems, Body.moreItems]
      refine Accepts.declined (by rw [hnext]; exact hcomma) (Accepts.demand hnext ?_)
      exact ⟨rfl, hq.advance⟩
    refine hnone.chain ?_
    intro u hu
    exact ⟨rfl, hu⟩

theorem accepts_moreItems {c : Token} {ts us : List Token} {e f : Expr} {es : List Expr}
    (he : AcceptsPhrase (.expression 1 e) ts) (hc : c.kind = .comma)
    (hes : AcceptsPhrase (.items (f :: es)) us) :
    AcceptsPhrase (.items (e :: f :: es)) (ts ++ c :: us) := by
  rintro - errors p closing r ws hclose hr hp n m
  have hp' : p.Faces errors (ts ++ c :: (us ++ r :: ws)) := by simpa using hp
  refine (accepts_lowest he (stops_cons _ hc ⟨rfl, by simp⟩) hp' n).chain ?_
  intro q hq
  cases m with
  | zero => rfl
  | succ m =>
    have hmore : Accepts (moreItems (m + 1) closing) q fun es' u =>
        es' = f :: es ∧ u.advance.Faces errors ws := by
      rw [moreItems, Body.moreItems]
      refine Accepts.taken (hq.next_kind hc (by simp)) (Accepts.advance ?_)
      exact hes (by simp) _ _ closing r ws hclose hr hq.advance m m
    refine hmore.chain ?_
    intro u hu
    exact ⟨rfl, hu⟩

theorem accepts_lastParameter {t : Token} (ht : t.kind = .name) :
    AcceptsPhrase (.parameters [⟨t, t.literal⟩]) [t] := by
  rintro - errors p r ws hr hp n
  cases n with
  | zero => rfl
  | succ n =>
    have hcurrent : p.advance.current = t := hp.current (by simp [ht])
    have hnext : p.advance.next = r := hp.advance.next (by simp [hr])
    rw [parameters, Body.parameters]
    refine Accepts.demand (hp.next_kind ht (by simp)) (Accepts.current ?_)
    rw [hcurrent]
    refine Accepts.declined (by simp [hnext, hr]) (Accepts.demand (by rw [hnext, hr]) ?_)
    exact ⟨rfl, hp.advance.advance⟩

theorem accepts_moreParameters {t c : Token} {us : List Token} {x : Identifier}
    {xs : List Identifier} (ht : t.kind = .name) (hc : c.kind = .comma)
    (hxs : AcceptsPhrase (.parameters (x :: xs)) us) :
    AcceptsPhrase (.parameters (⟨t, t.literal⟩ :: x :: xs)) (t :: c :: us) := by
  rintro - errors p r ws hr hp n
  cases n with
  | zero => rfl
  | succ n =>
    have hcurrent : p.advance.current = t := hp.current (by simp [ht])
    have hnext : p.advance.next = c := hp.advance.next (by simp [hc])
    rw [parameters, Body.parameters]
    refine Accepts.demand (hp.next_kind ht (by simp)) (Accepts.current ?_)
    rw [hcurrent]
    refine Accepts.taken (by rw [hnext, hc]) ?_
    refine (hxs (by simp) _ _ r ws hr hp.advance.advance n).chain ?_
    intro q hq
    exact ⟨rfl, hq⟩

theorem accepts_block {l r : Token} {ts : List Token} {ss : List Stmt} (hl : l.kind = .leftBrace)
    (hs : AcceptsPhrase (.statements ss) ts) (hr : r.kind = .rightBrace) :
    AcceptsPhrase (.block (.mk l ss)) (l :: (ts ++ [r])) := by
  intro errors p ws hp n
  cases n with
  | zero => rfl
  | succ n =>
    rw [block, Body.block]
    apply Accepts.current
    rw [hp.current (by simp [hl])]
    have hp' : p.advance.Faces errors (ts ++ r :: ws) := by simpa using hp.advance
    refine Accepts.advance ((hs.1 errors _ r ws hr hp' n).chain ?_)
    intro q hq
    exact ⟨rfl, hq⟩

/-- The semicolon behind a statement, if there is one. -/
theorem accepts_semicolon {s : Stmt} {ws rest : List Token} (hws : AfterStatement ws rest)
    (hp : p.advance.Faces errors ws) :
    Accepts (accept .semicolon >>= fun _ => pure s) p fun s' q =>
      s' = s ∧ q.advance.Faces errors rest := by
  rcases hws with ⟨t, ht, rfl⟩ | ⟨rfl, ht⟩
  · exact Accepts.taken (hp.next_kind ht (by simp)) ⟨rfl, hp.advance⟩
  · exact Accepts.declined (hp.next_ne (by simp) ht) ⟨rfl, hp⟩

theorem accepts_letName {t x a : Token} {ts : List Token} {e : Expr} (ht : t.kind = .letWord)
    (hx : x.kind = .name) (ha : a.kind = .assign) (he : AcceptsPhrase (.expression 1 e) ts) :
    AcceptsPhrase (.core (.letName t ⟨x, x.literal⟩ e)) (t :: x :: a :: ts) := by
  intro errors p ws rest hp hw hrest n
  cases n with
  | zero => rfl
  | succ n =>
    rw [statement, Body.statement]
    apply Accepts.current
    rw [hp.current (by simp [ht])]
    simp only [ht]
    refine Accepts.demand (hp.advance.next_kind hx (by simp)) (Accepts.current ?_)
    rw [hp.advance.current (by simp [hx])]
    refine Accepts.demand (hp.advance.advance.next_kind ha (by simp)) (Accepts.advance ?_)
    refine (accepts_lowest he hw hp.advance.advance.advance n).chain ?_
    intro q hq
    exact accepts_semicolon hrest hq

theorem accepts_returnValue {t : Token} {ts : List Token} {e : Expr} (ht : t.kind = .returnWord)
    (he : AcceptsPhrase (.expression 1 e) ts) :
    AcceptsPhrase (.core (.returnValue t e)) (t :: ts) := by
  intro errors p ws rest hp hw hrest n
  cases n with
  | zero => rfl
  | succ n =>
    rw [statement, Body.statement]
    apply Accepts.current
    rw [hp.current (by simp [ht])]
    simp only [ht]
    refine Accepts.advance ((accepts_lowest he hw hp.advance n).chain ?_)
    intro q hq
    exact accepts_semicolon hrest hq

theorem accepts_statement {t : Token} {ts : List Token} {e : Expr} (ht : t.kind ∈ openers)
    (he : AcceptsPhrase (.expression 1 e) (t :: ts)) :
    AcceptsPhrase (.core (.expression t e)) (t :: ts) := by
  intro errors p ws rest hp hw hrest n
  cases n with
  | zero => rfl
  | succ n =>
    rw [statement, Body.statement]
    apply Accepts.current
    rw [hp.current (fun hk => by simp [hk, openers] at ht)]
    split
    · next hk => simp [hk, openers] at ht
    · next hk => simp [hk, openers] at ht
    · refine (accepts_lowest he hw hp n).chain ?_
      intro q hq
      exact accepts_semicolon hrest hq

theorem accepts_noStatements : AcceptsPhrase (.statements []) [] := by
  constructor
  · intro errors p r ws hr hp n
    cases n with
    | zero => rfl
    | succ n =>
      rw [statements, Body.statements]
      apply Accepts.current
      have hq : p.advance.Faces errors ws := hp.advance
      rcases hp.current_kind with hk | ⟨t, ht, hk⟩
      · rw [hk]
        exact ⟨rfl, hq⟩
      · obtain rfl : r = t := by simpa using ht
        rw [hk, hr]
        exact ⟨rfl, hq⟩
  · intro errors p hp n
    cases n with
    | zero => rfl
    | succ n =>
      rw [program, Body.program]
      apply Accepts.current
      rcases hp.current_kind with hk | ⟨t, ht, -⟩
      · rw [if_pos hk]
        exact ⟨rfl, hp.errors_eq⟩
      · simp at ht

/-- What stands behind the statements of a block or of a program. -/
def Ending (ws : List Token) : Prop := ∀ t ∈ ws.head?, t.kind = .rightBrace

theorem ending_brace {r : Token} (hr : r.kind = .rightBrace) (ws : List Token) :
    Ending (r :: ws) := by
  intro t ht
  obtain rfl : r = t := by simpa using ht
  exact hr

theorem Ending.stops {ws : List Token} (h : Ending ws) : Stops 0 ws := by
  cases ws with
  | nil => exact ⟨Nat.zero_le _, by simp⟩
  | cons t ws => exact stops_cons _ (h t (by simp)) ⟨rfl, by simp⟩

/-- The first statement and those behind it, where `us` stands between them. -/
theorem accepts_cons {ts us rest : List Token} {s : Stmt} {ss : List Stmt}
    (hd : Derives False ts (.core s)) (hs : AcceptsPhrase (.core s) ts)
    (hstop : ∀ ws, Ending ws → Stops 0 (us ++ ws))
    (hrest : ∀ ws, Ending ws → AfterStatement (us ++ ws) (rest ++ ws))
    (hss : AcceptsPhrase (.statements ss) rest) :
    AcceptsPhrase (.statements (s :: ss)) (ts ++ us) := by
  obtain ⟨t, ts, rfl, ht⟩ := hd.beginsWith
  have hbrace : t.kind ≠ .rightBrace := fun hk => by simp [hk, openers] at ht
  have hend : t.kind ≠ .endOfInput := fun hk => by simp [hk, openers] at ht
  constructor
  · intro errors p r ws hr hp n
    have he := ending_brace hr ws
    have hp' : p.Faces errors (t :: ts ++ (us ++ r :: ws)) := by simpa using hp
    cases n with
    | zero => rfl
    | succ n =>
      rw [statements, Body.statements]
      apply Accepts.current
      rw [hp'.current hbrace]
      split
      · next hk => exact absurd hk hbrace
      · next hk => exact absurd hk hend
      · refine (hs errors p _ _ hp' (hstop _ he) (hrest _ he) n).attempt ?_
        intro s' q h
        obtain ⟨rfl, hq⟩ := h
        refine Accepts.advance ((hss.1 errors _ r ws hr hq n).chain ?_)
        intro u hu
        exact ⟨rfl, hu⟩
  · intro errors p hp n
    have he : Ending [] := by simp [Ending]
    have hp' : p.Faces errors (t :: ts ++ (us ++ [])) := by simpa using hp
    cases n with
    | zero => rfl
    | succ n =>
      rw [program, Body.program]
      apply Accepts.current
      rw [hp'.current hbrace, if_neg hend]
      refine (hs errors p _ _ hp' (hstop _ he) (hrest _ he) n).attempt ?_
      intro s' q h
      obtain ⟨rfl, hq⟩ := h
      rw [List.append_nil] at hq
      refine Accepts.advance ((hss.2 errors _ hq n).bind ?_)
      intro ss' u h
      obtain ⟨rfl, hu⟩ := h
      exact ⟨rfl, hu⟩

theorem accepts_terminated {t : Token} {ts us : List Token} {s : Stmt} {ss : List Stmt}
    (hd : Derives False ts (.core s)) (hs : AcceptsPhrase (.core s) ts) (ht : t.kind = .semicolon)
    (hss : AcceptsPhrase (.statements ss) us) :
    AcceptsPhrase (.statements (s :: ss)) (ts ++ t :: us) := by
  refine accepts_cons hd hs (fun ws _ => ?_) (fun ws _ => ?_) hss
  · exact stops_cons _ ht ⟨rfl, by simp⟩
  · exact .inl ⟨t, ht, rfl⟩

theorem accepts_unterminated {ts us : List Token} {s : Stmt} {ss : List Stmt}
    (hd : Derives False ts (.core s)) (hs : AcceptsPhrase (.core s) ts)
    (hu : ∀ u ∈ us.head?, ¬Continues u.kind) (hdss : Derives False us (.statements ss))
    (hss : AcceptsPhrase (.statements ss) us) :
    AcceptsPhrase (.statements (s :: ss)) (ts ++ us) := by
  refine accepts_cons hd hs (fun ws hw => ?_) (fun ws hw => .inr ⟨rfl, ?_⟩) hss
  · cases us with
    | nil => exact hw.stops
    | cons u us =>
      have hk := hdss.statement_begins u (by simp)
      have h0 : ¬0 < (Strength.ofKind u.kind).rank := fun h => hu u (by simp) (continues_iff.2 h)
      refine ⟨by simp only [List.cons_append, following]; omega, ?_⟩
      intro t ht he
      obtain rfl : u = t := by simpa using ht
      simp [he, openers] at hk
  · intro t ht hk
    cases us with
    | nil => simp [hw t ht] at hk
    | cons u us =>
      obtain rfl : u = t := by simpa using ht
      have hb := hdss.statement_begins u (by simp)
      simp [hk, openers] at hb

/-- What a phrase derives is read as that phrase. -/
theorem accepts_of_derives {ts : List Token} {phrase : Phrase} (h : Derives False ts phrase) :
    AcceptsPhrase phrase ts := by
  induction h with
  | name ht => exact accepts_name ht
  | integer ht hn => exact accepts_integer ht hn
  | string ht => exact accepts_string ht
  | boolean ht => exact accepts_boolean ht
  | group hl _ hr ih => exact accepts_group hl ih hr
  | array hl hes hr ih => exact accepts_array hl hes ih hr
  | conditional hi hl _ hr hb ihe ihb => exact accepts_conditional hi hl ihe hr hb ihb
  | alternative hi hl _ hr hb hw ha ihe ihb iha =>
    exact accepts_alternative hi hl ihe hr hb ihb hw ha iha
  | function hf hl hn hr hb ihn ihb => exact accepts_function hf hl hn ihn hr hb ihb
  | call _ hl hes hr ihe ihes => exact accepts_call ihe hl hes ihes hr
  | index _ hl _ hr ihe ihi => exact accepts_index ihe hl ihi hr
  | unary ht _ ih => exact accepts_unary ht ih
  | binary ht _ _ iha ihb => exact accepts_binary ht iha ihb
  | loosen _ ih => exact accepts_loosen ih
  | noItems => exact fun h => absurd rfl h
  | lastItem _ ih => exact accepts_lastItem ih
  | moreItems _ hc _ ihe ihes => exact accepts_moreItems ihe hc ihes
  | noParameters => exact fun h => absurd rfl h
  | lastParameter ht => exact accepts_lastParameter ht
  | moreParameters ht hc _ ih => exact accepts_moreParameters ht hc ih
  | block hl _ hr ih => exact accepts_block hl ih hr
  | letName ht hx ha _ ih => exact accepts_letName ht hx ha ih
  | returnValue ht _ ih => exact accepts_returnValue ht ih
  | expression he ih =>
    obtain ⟨t, us, hts, ht⟩ := he.beginsWith
    injection hts with ht' hus
    subst ht'
    exact accepts_statement ht ih
  | noStatements => exact accepts_noStatements
  | terminated hs ht _ ihs ihss => exact accepts_terminated hs ihs ht ihss
  | unterminated hs hu hss ihs ihss => exact accepts_unterminated hs ihs hu hss ihss
  | skip h _ _ => exact h.elim

/-- Tokens that derive a program are read as that program, without errors. -/
theorem accepts_program {ts : List Token} {program : Program}
    (h : Derives False ts (.statements program)) (hp : p.Faces errors ts) (n : Nat) :
    Accepts (Parse.program n) p fun program' q => program' = program ∧ q.errors = errors :=
  (accepts_of_derives h).2 errors p hp n

end Parse

end MonkeyLang
