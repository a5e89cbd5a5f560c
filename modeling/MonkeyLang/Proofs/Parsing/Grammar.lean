import MonkeyLang.Syntax.Tree

namespace MonkeyLang

namespace Grammar

/-- What a stretch of tokens is read as, with its tree. Levels 1 to 5 of expressions are those of
the binary operators, from loosest to tightest, level 6 is that of their operands, and on level 7
stand those without a prefix operator. -/
inductive Phrase where
  | expression (level : Nat) (expr : Expr)
  | items (exprs : List Expr)
  | parameters (names : List Identifier)
  | block (block : Block)
  | core (statement : Stmt)
  | statements (list : List Stmt)

/-- The binary operators of a level. -/
def operators : Nat → List (Token.Kind × InfixOp)
  | 1 => [(.equal, .equal), (.notEqual, .notEqual)]
  | 2 => [(.less, .less), (.lessEqual, .lessEqual), (.greater, .greater),
      (.greaterEqual, .greaterEqual)]
  | 3 => [(.and, .and), (.or, .or)]
  | 4 => [(.plus, .add), (.minus, .subtract)]
  | 5 => [(.star, .multiply), (.slash, .divide)]
  | _ => []

def prefixOperators : List (Token.Kind × PrefixOp) := [(.bang, .not), (.minus, .negate)]

def truthWords : List (Token.Kind × Bool) := [(.trueWord, true), (.falseWord, false)]

/-- The token goes on with an expression that stands before it. -/
def Continues (kind : Token.Kind) : Prop :=
  kind = .leftParen ∨ kind = .leftBracket ∨ ∃ level op, (kind, op) ∈ operators level

/-- The number that a token of digits stands for. -/
def number (token : Token) : Nat := Nat.ofDigitChars 10 token.literal.toList 0

/-- Derivations. Where `skips` holds, any stretch may be left out before a statement; the grammar
proper is `Derives False`. -/
inductive Derives (skips : Prop) : List Token → Phrase → Prop where
  | name {t : Token} (ht : t.kind = .name) :
    Derives skips [t] (.expression 7 (.name ⟨t, t.literal⟩))
  | integer {t : Token} (ht : t.kind = .integer) (hn : number t ≤ Nat.pow 2 63 - 1) :
    Derives skips [t] (.expression 7 (.integer t (Int64.ofNat (number t))))
  | string {t : Token} (ht : t.kind = .string) :
    Derives skips [t] (.expression 7 (.string t t.literal))
  | boolean {t : Token} {value : Bool} (ht : (t.kind, value) ∈ truthWords) :
    Derives skips [t] (.expression 7 (.boolean t value))
  | group {l r : Token} {ts : List Token} {e : Expr} (hl : l.kind = .leftParen)
    (he : Derives skips ts (.expression 1 e)) (hr : r.kind = .rightParen) :
    Derives skips (l :: (ts ++ [r])) (.expression 7 e)
  | array {l r : Token} {ts : List Token} {es : List Expr} (hl : l.kind = .leftBracket)
    (hes : Derives skips ts (.items es)) (hr : r.kind = .rightBracket) :
    Derives skips (l :: (ts ++ [r])) (.expression 7 (.array l es))
  | conditional {i l r : Token} {ts us : List Token} {e : Expr} {b : Block}
    (hi : i.kind = .ifWord) (hl : l.kind = .leftParen) (he : Derives skips ts (.expression 1 e))
    (hr : r.kind = .rightParen) (hb : Derives skips us (.block b)) :
    Derives skips (i :: l :: (ts ++ r :: us)) (.expression 7 (.conditional i e b none))
  | alternative {i l r w : Token} {ts us vs : List Token} {e : Expr} {b a : Block}
    (hi : i.kind = .ifWord) (hl : l.kind = .leftParen) (he : Derives skips ts (.expression 1 e))
    (hr : r.kind = .rightParen) (hb : Derives skips us (.block b)) (hw : w.kind = .elseWord)
    (ha : Derives skips vs (.block a)) :
    Derives skips (i :: l :: (ts ++ r :: (us ++ w :: vs)))
      (.expression 7 (.conditional i e b (some a)))
  | function {f l r : Token} {ts us : List Token} {names : List Identifier} {b : Block}
    (hf : f.kind = .fnWord) (hl : l.kind = .leftParen) (hn : Derives skips ts (.parameters names))
    (hr : r.kind = .rightParen) (hb : Derives skips us (.block b)) :
    Derives skips (f :: l :: (ts ++ r :: us)) (.expression 7 (.function f names b))
  | call {l r : Token} {ts us : List Token} {e : Expr} {es : List Expr}
    (he : Derives skips ts (.expression 7 e)) (hl : l.kind = .leftParen)
    (hes : Derives skips us (.items es)) (hr : r.kind = .rightParen) :
    Derives skips (ts ++ l :: (us ++ [r])) (.expression 7 (.call l e es))
  | index {l r : Token} {ts us : List Token} {e i : Expr}
    (he : Derives skips ts (.expression 7 e)) (hl : l.kind = .leftBracket)
    (hi : Derives skips us (.expression 1 i)) (hr : r.kind = .rightBracket) :
    Derives skips (ts ++ l :: (us ++ [r])) (.expression 7 (.index l e i))
  | unary {t : Token} {op : PrefixOp} {ts : List Token} {e : Expr}
    (ht : (t.kind, op) ∈ prefixOperators) (he : Derives skips ts (.expression 6 e)) :
    Derives skips (t :: ts) (.expression 6 (.unary t op e))
  | binary {k : Nat} {t : Token} {op : InfixOp} {ts us : List Token} {a b : Expr}
    (ht : (t.kind, op) ∈ operators k) (ha : Derives skips ts (.expression k a))
    (hb : Derives skips us (.expression (k + 1) b)) :
    Derives skips (ts ++ t :: us) (.expression k (.binary t a op b))
  | loosen {k : Nat} {ts : List Token} {e : Expr} (he : Derives skips ts (.expression (k + 1) e)) :
    Derives skips ts (.expression k e)
  | noItems : Derives skips [] (.items [])
  | lastItem {ts : List Token} {e : Expr} (he : Derives skips ts (.expression 1 e)) :
    Derives skips ts (.items [e])
  | moreItems {c : Token} {ts us : List Token} {e f : Expr} {es : List Expr}
    (he : Derives skips ts (.expression 1 e)) (hc : c.kind = .comma)
    (hes : Derives skips us (.items (f :: es))) :
    Derives skips (ts ++ c :: us) (.items (e :: f :: es))
  | noParameters : Derives skips [] (.parameters [])
  | lastParameter {t : Token} (ht : t.kind = .name) :
    Derives skips [t] (.parameters [⟨t, t.literal⟩])
  | moreParameters {t c : Token} {us : List Token} {x : Identifier} {xs : List Identifier}
    (ht : t.kind = .name) (hc : c.kind = .comma) (hxs : Derives skips us (.parameters (x :: xs))) :
    Derives skips (t :: c :: us) (.parameters (⟨t, t.literal⟩ :: x :: xs))
  | block {l r : Token} {ts : List Token} {ss : List Stmt} (hl : l.kind = .leftBrace)
    (hs : Derives skips ts (.statements ss)) (hr : r.kind = .rightBrace) :
    Derives skips (l :: (ts ++ [r])) (.block (.mk l ss))
  | letName {t x a : Token} {ts : List Token} {e : Expr} (ht : t.kind = .letWord)
    (hx : x.kind = .name) (ha : a.kind = .assign) (he : Derives skips ts (.expression 1 e)) :
    Derives skips (t :: x :: a :: ts) (.core (.letName t ⟨x, x.literal⟩ e))
  | returnValue {t : Token} {ts : List Token} {e : Expr} (ht : t.kind = .returnWord)
    (he : Derives skips ts (.expression 1 e)) :
    Derives skips (t :: ts) (.core (.returnValue t e))
  | expression {t : Token} {ts : List Token} {e : Expr}
    (he : Derives skips (t :: ts) (.expression 1 e)) :
    Derives skips (t :: ts) (.core (.expression t e))
  | noStatements : Derives skips [] (.statements [])
  | terminated {t : Token} {ts us : List Token} {s : Stmt} {ss : List Stmt}
    (hs : Derives skips ts (.core s)) (ht : t.kind = .semicolon)
    (hss : Derives skips us (.statements ss)) :
    Derives skips (ts ++ t :: us) (.statements (s :: ss))
  | unterminated {ts us : List Token} {s : Stmt} {ss : List Stmt}
    (hs : Derives skips ts (.core s)) (hu : ∀ u ∈ us.head?, ¬Continues u.kind)
    (hss : Derives skips us (.statements ss)) :
    Derives skips (ts ++ us) (.statements (s :: ss))
  | skip {ts us : List Token} {ss : List Stmt} (h : skips)
    (hss : Derives skips us (.statements ss)) :
    Derives skips (ts ++ us) (.statements ss)

variable {skips : Prop} {ts : List Token}

theorem Derives.mono {skips' : Prop} {phrase : Phrase} (h : Derives skips ts phrase)
    (hs : skips → skips') : Derives skips' ts phrase := by
  induction h with
  | name ht => exact .name ht
  | integer ht hn => exact .integer ht hn
  | string ht => exact .string ht
  | boolean ht => exact .boolean ht
  | group hl _ hr ih => exact .group hl ih hr
  | array hl _ hr ih => exact .array hl ih hr
  | conditional hi hl _ hr _ ihe ihb => exact .conditional hi hl ihe hr ihb
  | alternative hi hl _ hr _ hw _ ihe ihb iha => exact .alternative hi hl ihe hr ihb hw iha
  | function hf hl _ hr _ ihn ihb => exact .function hf hl ihn hr ihb
  | call _ hl _ hr ihe ihes => exact .call ihe hl ihes hr
  | index _ hl _ hr ihe ihi => exact .index ihe hl ihi hr
  | unary ht _ ih => exact .unary ht ih
  | binary ht _ _ iha ihb => exact .binary ht iha ihb
  | loosen _ ih => exact .loosen ih
  | noItems => exact .noItems
  | lastItem _ ih => exact .lastItem ih
  | moreItems _ hc _ ihe ihes => exact .moreItems ihe hc ihes
  | noParameters => exact .noParameters
  | lastParameter ht => exact .lastParameter ht
  | moreParameters ht hc _ ih => exact .moreParameters ht hc ih
  | block hl _ hr ih => exact .block hl ih hr
  | letName ht hx ha _ ih => exact .letName ht hx ha ih
  | returnValue ht _ ih => exact .returnValue ht ih
  | expression _ ih => exact .expression ih
  | noStatements => exact .noStatements
  | terminated _ ht _ ihs ihss => exact .terminated ihs ht ihss
  | unterminated _ hu _ ihs ihss => exact .unterminated ihs hu ihss
  | skip h _ ih => exact .skip (hs h) ih

theorem Derives.at_level {e : Expr} {k m : Nat} (h : Derives skips ts (.expression m e))
    (hk : k ≤ m) : Derives skips ts (.expression k e) := by
  induction hk with
  | refl => exact h
  | step _ ih => exact ih h.loosen

theorem Derives.loosest {e : Expr} (h : Derives skips ts (.expression 7 e)) :
    Derives skips ts (.expression 1 e) := h.at_level (by decide)

/-- What an operand begins with. -/
def openers : List Token.Kind :=
  [.name, .integer, .string, .trueWord, .falseWord, .bang, .minus, .leftParen, .leftBracket,
    .ifWord, .fnWord]

/-- What the tokens of a phrase begin with. -/
def Phrase.BeginsWith : Phrase → List Token → Prop
  | .expression _ _, ts => ∃ t us, ts = t :: us ∧ t.kind ∈ openers
  | .items es, ts => es ≠ [] → ∃ t us, ts = t :: us ∧ t.kind ∈ openers
  | .core _, ts => ∃ t us, ts = t :: us ∧ t.kind ∈ .letWord :: .returnWord :: openers
  | .block _, ts => ∃ t us, ts = t :: us ∧ t.kind = .leftBrace
  | .parameters names, ts => names ≠ [] → ∃ t us, ts = t :: us ∧ t.kind = .name
  | .statements _, _ => True

theorem Derives.beginsWith {phrase : Phrase} (h : Derives skips ts phrase) :
    phrase.BeginsWith ts := by
  induction h with
  | name ht => exact ⟨_, _, rfl, by simp [ht, openers]⟩
  | integer ht hn => exact ⟨_, _, rfl, by simp [ht, openers]⟩
  | string ht => exact ⟨_, _, rfl, by simp [ht, openers]⟩
  | boolean ht =>
    simp only [truthWords, List.mem_cons, Prod.mk.injEq, List.not_mem_nil, or_false] at ht
    rcases ht with ⟨ht, -⟩ | ⟨ht, -⟩ <;> exact ⟨_, _, rfl, by simp [ht, openers]⟩
  | group hl _ hr ih => exact ⟨_, _, rfl, by simp [hl, openers]⟩
  | array hl _ hr ih => exact ⟨_, _, rfl, by simp [hl, openers]⟩
  | conditional hi hl _ hr _ ihe ihb => exact ⟨_, _, rfl, by simp [hi, openers]⟩
  | alternative hi hl _ hr _ hw _ ihe ihb iha => exact ⟨_, _, rfl, by simp [hi, openers]⟩
  | function hf hl _ hr _ ihn ihb => exact ⟨_, _, rfl, by simp [hf, openers]⟩
  | call _ hl _ hr ihe ihes =>
    obtain ⟨t, us, rfl, ht⟩ := ihe
    exact ⟨t, _, rfl, ht⟩
  | index _ hl _ hr ihe ihi =>
    obtain ⟨t, us, rfl, ht⟩ := ihe
    exact ⟨t, _, rfl, ht⟩
  | unary ht _ ih =>
    simp only [prefixOperators, List.mem_cons, Prod.mk.injEq, List.not_mem_nil, or_false] at ht
    rcases ht with ⟨ht, -⟩ | ⟨ht, -⟩ <;> exact ⟨_, _, rfl, by simp [ht, openers]⟩
  | binary ht _ _ iha ihb =>
    obtain ⟨t, us, rfl, ht⟩ := iha
    exact ⟨t, _, rfl, ht⟩
  | loosen _ ih => exact ih
  | noItems => exact fun h => absurd rfl h
  | lastItem _ ih => exact fun _ => ih
  | moreItems _ hc _ ihe ihes =>
    obtain ⟨t, us, rfl, ht⟩ := ihe
    exact fun _ => ⟨t, _, rfl, ht⟩
  | block hl _ hr ih => exact ⟨_, _, rfl, hl⟩
  | letName ht hx ha _ ih => exact ⟨_, _, rfl, by simp [ht]⟩
  | returnValue ht _ ih => exact ⟨_, _, rfl, by simp [ht]⟩
  | expression _ ih =>
    obtain ⟨t, us, hts, ht⟩ := ih
    injection hts with ht' hus
    subst ht'
    exact ⟨_, _, rfl, List.mem_cons_of_mem _ (List.mem_cons_of_mem _ ht)⟩
  | noParameters => exact fun h => absurd rfl h
  | lastParameter ht => exact fun _ => ⟨_, _, rfl, ht⟩
  | moreParameters ht hc _ ih => exact fun _ => ⟨_, _, rfl, ht⟩
  | noStatements => trivial
  | terminated _ ht _ ihs ihss => trivial
  | unterminated _ hu _ ihs ihss => trivial
  | skip h _ ih => trivial

/-- Nothing is left out before the first of the statements. -/
theorem Derives.statement_begins {ss : List Stmt} (h : Derives False ts (.statements ss)) :
    ∀ t ∈ ts.head?, t.kind ∈ .letWord :: .returnWord :: openers := by
  intro u hu
  cases h with
  | noStatements => simp at hu
  | terminated hs _ _ =>
    obtain ⟨t, _, rfl, ht⟩ := hs.beginsWith
    obtain rfl : t = u := by simpa using hu
    exact ht
  | unterminated hs _ _ =>
    obtain ⟨t, _, rfl, ht⟩ := hs.beginsWith
    obtain rfl : t = u := by simpa using hu
    exact ht
  | skip h _ => exact h.elim

end Grammar

end MonkeyLang
