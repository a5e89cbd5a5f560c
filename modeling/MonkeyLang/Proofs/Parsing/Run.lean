import MonkeyLang.Proofs.Parsing.Readers

namespace MonkeyLang

namespace Parse

variable {α β : Type} {ok : α → Parser → Prop} {stop : Parser.Stop → Parser → Prop} {p : Parser}

/-- The run from `p` ends well with `ok`, or else is stopped with `stop`. -/
def Ends (x : Parse α) (p : Parser) (ok : α → Parser → Prop)
    (stop : Parser.Stop → Parser → Prop) : Prop :=
  match x.run p with
  | .ok a q => ok a q
  | .error s q => stop s q

theorem Ends.of_ok {x : Parse α} {a : α} {q : Parser} (h : Ends x p ok stop)
    (hr : x.run p = .ok a q) : ok a q := by
  unfold Ends at h
  rwa [hr] at h

theorem Ends.of_error {x : Parse α} {s : Parser.Stop} {q : Parser} (h : Ends x p ok stop)
    (hr : x.run p = .error s q) : stop s q := by
  unfold Ends at h
  rwa [hr] at h

theorem Ends.mono {x : Parse α} {ok' : α → Parser → Prop} {stop' : Parser.Stop → Parser → Prop}
    (h : Ends x p ok stop) (hok : ∀ a q, ok a q → ok' a q)
    (hstop : ∀ s q, stop s q → stop' s q) : Ends x p ok' stop' := by
  unfold Ends at h ⊢
  cases hr : x.run p with
  | ok a q => rw [hr] at h; exact hok a q h
  | error s q => rw [hr] at h; exact hstop s q h

theorem Ends.and {x : Parse α} {ok' : α → Parser → Prop} {stop' : Parser.Stop → Parser → Prop}
    (h : Ends x p ok stop) (h' : Ends x p ok' stop') :
    Ends x p (fun a q => ok a q ∧ ok' a q) (fun s q => stop s q ∧ stop' s q) := by
  unfold Ends at h h' ⊢
  cases hr : x.run p with
  | ok a q => rw [hr] at h h'; exact ⟨h, h'⟩
  | error s q => rw [hr] at h h'; exact ⟨h, h'⟩

theorem ends_pure {a : α} : Ends (pure a) p ok stop ↔ ok a p := Iff.rfl

theorem ends_bind {x : Parse α} {f : α → Parse β} {ok : β → Parser → Prop} :
    Ends (x >>= f) p ok stop ↔ Ends x p (fun a q => Ends (f a) q ok stop) stop := by
  unfold Ends
  rw [EStateM.run_bind]
  cases x.run p <;> rfl

theorem ends_current {ok : Token → Parser → Prop} :
    Ends current p ok stop ↔ ok p.current p := Iff.rfl

theorem ends_next {ok : Token → Parser → Prop} : Ends next p ok stop ↔ ok p.next p := Iff.rfl

theorem ends_advance {ok : Unit → Parser → Prop} :
    Ends advance p ok stop ↔ ok () p.advance := Iff.rfl

theorem ends_recover {ok : Unit → Parser → Prop} : Ends recover p ok stop ↔
    ok () { p with tokens := Parser.abandon p.tokens } := Iff.rfl

theorem ends_fail {cause : SyntaxError.Cause} {token : Token} :
    Ends (fail cause token : Parse α) p ok stop ↔ stop .syntaxError (p.record cause token) :=
  Iff.rfl

theorem ends_ite {c : Prop} [Decidable c] {x y : Parse α} :
    Ends (if c then x else y) p ok stop ↔
      (c → Ends x p ok stop) ∧ (¬c → Ends y p ok stop) := by
  split <;> simp [*]

theorem ends_demand {kind : Token.Kind} {ok : Unit → Parser → Prop} :
    Ends (demand kind) p ok stop ↔ (p.next.kind = kind → ok () p.advance) ∧
      (p.next.kind ≠ kind →
        stop .syntaxError (p.record (.unexpected kind p.next.kind) p.next)) := by
  simp only [demand, ends_bind, ends_next, ends_ite, ends_advance, ends_fail, ne_eq]

theorem ends_accept {kind : Token.Kind} {ok : Bool → Parser → Prop} :
    Ends (accept kind) p ok stop ↔ (p.next.kind = kind → ok true p.advance) ∧
      (p.next.kind ≠ kind → ok false p) := by
  simp only [accept, ends_bind, ends_next, ends_ite, ends_advance, ends_pure, ne_eq]

theorem ends_attempt {x : Parse α} {ok : Option α → Parser → Prop} :
    Ends (attempt x) p ok stop ↔ Ends x p (fun a q => ok (some a) q) fun s q =>
      (s = .syntaxError → ok none q) ∧ (s = .depth → stop .depth q) := by
  unfold Ends attempt
  simp only [EStateM.run]
  cases x p with
  | ok a q => rfl
  | error s q => cases s <;> simp

/-- What a run may do to the state: `goes` if it ends well, and `stops` if it ends in a syntax
error. -/
structure Discipline (goes stops : Parser → Parser → Prop) : Prop where
  refl : ∀ p, goes p p
  trans : ∀ {p q r}, goes p q → goes q r → goes p r
  advance : ∀ p, goes p p.advance
  record : ∀ p cause token, token = p.current ∨ token = p.next → stops p (p.record cause token)
  stop : ∀ {p q r}, goes p q → stops q r → stops p r
  recover : ∀ {p q}, stops p q → goes p { q with tokens := Parser.abandon q.tokens }

section
variable {goes stops : Parser → Parser → Prop}

/-- A run that goes on from `q`, where a run from `p` has come. -/
def Obeys (goes stops : Parser → Parser → Prop) (p : Parser) (x : Parse α) (q : Parser) : Prop :=
  Ends x q (fun _ r => goes p r) fun s r => s = .syntaxError → stops p r

theorem Obeys.bind {x : Parse α} {f : α → Parse β} {q : Parser} (hx : Obeys goes stops p x q)
    (hf : ∀ a r, goes p r → Obeys goes stops p (f a) r) : Obeys goes stops p (x >>= f) q :=
  ends_bind.2 (hx.mono (fun a r hr => hf a r hr) fun _ _ hs => hs)

theorem obeys_current {f : Token → Parse β} {q : Parser}
    (h : Obeys goes stops p (f q.current) q) : Obeys goes stops p (current >>= f) q := h

theorem obeys_next {f : Token → Parse β} {q : Parser}
    (h : Obeys goes stops p (f q.next) q) : Obeys goes stops p (next >>= f) q := h

/-- What follows an attempt goes on from where it ended well, or from where it failed. -/
theorem Obeys.attempt {x : Parse α} {f : Option α → Parse β} {q : Parser}
    (hx : Obeys goes stops p x q) (hs : ∀ a r, goes p r → Obeys goes stops p (f (some a)) r)
    (hn : ∀ r, stops p r → Obeys goes stops p (f none) r) :
    Obeys goes stops p (attempt x >>= f) q := by
  refine ends_bind.2 (ends_attempt.2 (hx.mono (fun a r hr => hs a r hr) fun s r hr => ⟨?_, ?_⟩))
  · exact fun h => hn r (hr h)
  · rintro rfl
    nofun

variable (d : Discipline goes stops)
include d

theorem Discipline.step {q : Parser} (h : goes p q) : goes p q.advance := d.trans h (d.advance q)

theorem Discipline.refuse {q : Parser} (h : goes p q) (cause : SyntaxError.Cause) :
    stops p (q.record cause q.next) := d.stop h (d.record q cause _ (.inr rfl))

theorem Obeys.from {x : Parse α} {q : Parser} (hx : Obeys goes stops q x q) (h : goes p q) :
    Obeys goes stops p x q :=
  hx.mono (fun _ _ hr => d.trans h hr) fun _ _ hr hs => d.stop h (hr hs)

theorem obeys_advance {q : Parser} (h : goes p q) : Obeys goes stops p advance q := d.step h

theorem obeys_demand {q : Parser} (h : goes p q) (kind : Token.Kind) :
    Obeys goes stops p (demand kind) q :=
  ends_demand.2 ⟨fun _ => d.step h, fun _ _ => d.refuse h _⟩

theorem obeys_accept {q : Parser} (h : goes p q) (kind : Token.Kind) :
    Obeys goes stops p (accept kind) q :=
  ends_accept.2 ⟨fun _ => d.step h, fun _ => h⟩

theorem obeys_integer (p : Parser) : Obeys goes stops p (integer p.current) p := by
  unfold integer
  exact ends_ite.2 ⟨fun _ => d.refl p, fun _ _ => d.record p _ _ (.inl rfl)⟩

theorem obeys_parameters : ∀ n p, Obeys goes stops p (parameters n) p
  | 0, _ => nofun
  | n + 1, p => by
    rw [parameters, Body.parameters]
    refine (obeys_demand d (d.refl p) _).bind fun _ q hq => ?_
    apply obeys_current
    refine (obeys_accept d hq _).bind fun more q hq => ?_
    cases more with
    | true => exact ((obeys_parameters n q).from d hq).bind fun _ _ hq => hq
    | false => exact (obeys_demand d hq _).bind fun _ _ hq => hq

mutual

theorem obeys_expression : ∀ n least p, Obeys goes stops p (expression n least) p
  | 0, _, _ => nofun
  | n + 1, least, p => by
    rw [expression, Body.expression]
    exact (obeys_operand n p).bind fun left q hq => (obeys_extend n least left q).from d hq

theorem obeys_operand : ∀ n p, Obeys goes stops p (operand n) p
  | 0, _ => nofun
  | n + 1, p => by
    rw [operand, Body.operand]
    apply obeys_current
    cases hr : Prefix.ofKind? p.current.kind with
    | none => exact fun _ => d.record p _ _ (.inl rfl)
    | some reader =>
      cases reader with
      | name | string | boolean => exact d.refl p
      | integer => exact obeys_integer d p
      | operator =>
        obtain ⟨op, hop⟩ := Prefix.operator_iff.mp hr
        rw [hop]
        refine (obeys_advance d (d.refl p)).bind fun _ q hq => ?_
        exact ((obeys_expression n _ q).from d hq).bind fun _ _ hq => hq
      | group =>
        refine (obeys_advance d (d.refl p)).bind fun _ q hq => ?_
        refine ((obeys_expression n _ q).from d hq).bind fun _ q hq => ?_
        exact (obeys_demand d hq _).bind fun _ _ hq => hq
      | conditional =>
        refine (obeys_demand d (d.refl p) _).bind fun _ q hq => ?_
        refine (obeys_advance d hq).bind fun _ q hq => ?_
        refine ((obeys_expression n _ q).from d hq).bind fun _ q hq => ?_
        refine (obeys_demand d hq _).bind fun _ q hq => ?_
        refine (obeys_demand d hq _).bind fun _ q hq => ?_
        refine ((obeys_block n q).from d hq).bind fun _ q hq => ?_
        refine (obeys_accept d hq _).bind fun more q hq => ?_
        cases more with
        | true =>
          refine (obeys_demand d hq _).bind fun _ q hq => ?_
          exact ((obeys_block n q).from d hq).bind fun _ _ hq => hq
        | false => exact hq
      | function =>
        refine (obeys_demand d (d.refl p) _).bind fun _ q hq => ?_
        refine (obeys_accept d hq _).bind fun none q hq => ?_
        cases none with
        | true =>
          refine Obeys.bind (x := pure []) hq fun names q hq => ?_
          refine (obeys_demand d hq _).bind fun _ q hq => ?_
          exact ((obeys_block n q).from d hq).bind fun _ _ hq => hq
        | false =>
          refine ((obeys_parameters d n q).from d hq).bind fun _ q hq => ?_
          refine (obeys_demand d hq _).bind fun _ q hq => ?_
          exact ((obeys_block n q).from d hq).bind fun _ _ hq => hq
      | array => exact (obeys_items n _ p).bind fun _ _ hq => hq

theorem obeys_extend : ∀ n least left p, Obeys goes stops p (extend n least left) p
  | 0, _, _, _ => nofun
  | n + 1, least, left, p => by
    rw [extend, Body.extend]
    apply obeys_next
    split
    · next hl =>
      obtain ⟨reader, hr⟩ := Infix.reader_of_lt hl.2
      rw [hr]
      cases reader with
      | operator =>
        obtain ⟨op, hop⟩ := Infix.operator_iff.mp hr
        rw [hop]
        refine (obeys_advance d (d.refl p)).bind fun _ q hq => ?_
        refine (obeys_advance d hq).bind fun _ q hq => ?_
        refine ((obeys_expression n _ q).from d hq).bind fun _ q hq => ?_
        exact (obeys_extend n _ _ q).from d hq
      | call =>
        refine (obeys_advance d (d.refl p)).bind fun _ q hq => ?_
        refine ((obeys_items n _ q).from d hq).bind fun _ q hq => ?_
        exact (obeys_extend n _ _ q).from d hq
      | index =>
        refine (obeys_advance d (d.refl p)).bind fun _ q hq => ?_
        refine (obeys_advance d hq).bind fun _ q hq => ?_
        refine ((obeys_expression n _ q).from d hq).bind fun _ q hq => ?_
        refine (obeys_demand d hq _).bind fun _ q hq => ?_
        exact (obeys_extend n _ _ q).from d hq
    · exact d.refl p

theorem obeys_items : ∀ n closing p, Obeys goes stops p (items n closing) p
  | 0, _, _ => nofun
  | n + 1, closing, p => by
    rw [items, Body.items]
    refine (obeys_accept d (d.refl p) _).bind fun none q hq => ?_
    cases none with
    | true => exact hq
    | false =>
      refine (obeys_advance d hq).bind fun _ q hq => ?_
      refine ((obeys_expression n _ q).from d hq).bind fun _ q hq => ?_
      exact ((obeys_moreItems n _ q).from d hq).bind fun _ _ hq => hq

theorem obeys_moreItems : ∀ n closing p, Obeys goes stops p (moreItems n closing) p
  | 0, _, _ => nofun
  | n + 1, closing, p => by
    rw [moreItems, Body.moreItems]
    refine (obeys_accept d (d.refl p) _).bind fun more q hq => ?_
    cases more with
    | true =>
      refine (obeys_advance d hq).bind fun _ q hq => ?_
      refine ((obeys_expression n _ q).from d hq).bind fun _ q hq => ?_
      exact ((obeys_moreItems n _ q).from d hq).bind fun _ _ hq => hq
    | false => exact (obeys_demand d hq _).bind fun _ _ hq => hq

theorem obeys_statement : ∀ n p, Obeys goes stops p (statement n) p
  | 0, _ => nofun
  | n + 1, p => by
    rw [statement, Body.statement]
    apply obeys_current
    split
    · refine (obeys_demand d (d.refl p) _).bind fun _ q hq => ?_
      apply obeys_current
      refine (obeys_demand d hq _).bind fun _ q hq => ?_
      refine (obeys_advance d hq).bind fun _ q hq => ?_
      refine ((obeys_expression n _ q).from d hq).bind fun _ q hq => ?_
      exact (obeys_accept d hq _).bind fun _ _ hq => hq
    · refine (obeys_advance d (d.refl p)).bind fun _ q hq => ?_
      refine ((obeys_expression n _ q).from d hq).bind fun _ q hq => ?_
      exact (obeys_accept d hq _).bind fun _ _ hq => hq
    · refine (obeys_expression n _ p).bind fun _ q hq => ?_
      exact (obeys_accept d hq _).bind fun _ _ hq => hq

theorem obeys_block : ∀ n p, Obeys goes stops p (block n) p
  | 0, _ => nofun
  | n + 1, p => by
    rw [block, Body.block]
    apply obeys_current
    refine (obeys_advance d (d.refl p)).bind fun _ q hq => ?_
    exact ((obeys_statements n q).from d hq).bind fun _ _ hq => hq

theorem obeys_statements : ∀ n p, Obeys goes stops p (statements n) p
  | 0, _ => nofun
  | n + 1, p => by
    rw [statements, Body.statements]
    apply obeys_current
    split
    · exact d.refl p
    · exact d.refl p
    · refine (obeys_statement n p).attempt (fun first q hq => ?_) fun q hq => ?_
      · refine (obeys_advance d hq).bind fun _ q hq => ?_
        exact ((obeys_statements n q).from d hq).bind fun _ _ hq => hq
      · refine Obeys.bind (x := recover) (d.recover hq) fun _ r hr => ?_
        apply obeys_current
        split
        · exact hr
        · refine (obeys_advance d hr).bind fun _ r hr => ?_
          exact (obeys_statements n r).from d hr

end

theorem obeys_program : ∀ n p, Obeys goes stops p (program n) p
  | 0, _ => nofun
  | n + 1, p => by
    rw [program, Body.program]
    apply obeys_current
    split
    · exact d.refl p
    · refine (obeys_statement d n p).attempt (fun first q hq => ?_) fun q hq => ?_
      · refine (obeys_advance d hq).bind fun _ q hq => ?_
        exact ((obeys_program n q).from d hq).bind fun _ _ hq => hq
      · refine Obeys.bind (x := recover) (d.recover hq) fun _ r hr => ?_
        refine (obeys_advance d hr).bind fun _ r hr => ?_
        exact (obeys_program n r).from d hr

end

end Parse

namespace Parser

theorem abandon_suffix : ∀ tokens, abandon tokens <:+ tokens
  | [] => List.suffix_refl _
  | [_] => List.suffix_refl _
  | token :: next :: rest => by
    rw [abandon]
    split
    · exact List.suffix_refl _
    · exact (abandon_suffix (next :: rest)).trans (List.suffix_cons _ _)

/-- Tokens are only taken off the front, and errors are only added behind the others. -/
structure Reaches (p q : Parser) : Prop where
  endMark : q.endMark = p.endMark
  tokens : q.tokens <:+ p.tokens
  errors : p.errors <+: q.errors

/-- A construct that fails has recorded an error. -/
structure Fails (p q : Parser) : Prop extends Reaches p q where
  recorded : p.errors.length < q.errors.length

theorem Reaches.refl (p : Parser) : Reaches p p :=
  ⟨rfl, List.suffix_refl _, List.prefix_refl _⟩

theorem Reaches.trans {p q r : Parser} (h : Reaches p q) (k : Reaches q r) : Reaches p r :=
  ⟨k.endMark.trans h.endMark, k.tokens.trans h.tokens, h.errors.trans k.errors⟩

theorem reaches_advance (p : Parser) : Reaches p p.advance :=
  ⟨rfl, List.tail_suffix _, List.prefix_refl _⟩

theorem reaches_discipline : Parse.Discipline Reaches Fails where
  refl := Reaches.refl
  trans := Reaches.trans
  advance := reaches_advance
  record p cause token _ :=
    { endMark := rfl, tokens := List.suffix_refl _, errors := List.prefix_append _ _,
      recorded := by simp [record] }
  stop h k :=
    { h.trans k.toReaches with recorded := Nat.lt_of_le_of_lt h.errors.length_le k.recorded }
  recover h := ⟨h.endMark, (abandon_suffix _).trans h.tokens, h.errors⟩

end Parser

end MonkeyLang
