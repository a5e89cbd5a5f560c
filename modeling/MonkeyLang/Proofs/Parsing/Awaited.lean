import MonkeyLang.Proofs.Lexing.Respelling
import MonkeyLang.Proofs.Parsing.Reading

namespace MonkeyLang

namespace Grammar

/-- What closes a list of items. -/
inductive Closer where
  | rightParen
  | rightBracket
deriving DecidableEq

def Closer.kind : Closer → Token.Kind
  | rightParen => .rightParen
  | rightBracket => .rightBracket

/-- A token that is demanded. -/
inductive Mark where
  | name
  | assign
  | leftParen
  | closer (closer : Closer)
deriving DecidableEq

def Mark.kind : Mark → Token.Kind
  | name => .name
  | assign => .assign
  | leftParen => .leftParen
  | closer c => c.kind

/-- What is awaited: a token, a construct, or what may follow on one. -/
inductive Awaited where
  | mark (mark : Mark)
  | operand
  | expression (least : Strength)
  | extension (least : Strength)
  | items (closing : Closer)
  | moreItems (closing : Closer)
  | parameters
  | moreParameters
  | block
  | alternative
  | statements
  | statement
  | semicolon
deriving DecidableEq

/-- What becomes of a token: it is taken and more is awaited, it is left to what is awaited next, or
it is refused. -/
inductive Reaction where
  | take (more : List Awaited)
  | pass
  | refuse (cause : SyntaxError.Cause)

def Reaction.before : Reaction → List Awaited → Reaction
  | take more, rest => take (more ++ rest)
  | pass, _ => pass
  | refuse cause, _ => refuse cause

def demanded (kind : Token.Kind) (more : List Awaited) (t : Token) : Reaction :=
  if t.kind = kind then .take more else .refuse (.unexpected kind t.kind)

def allowed (kind : Token.Kind) (more : List Awaited) (t : Token) : Reaction :=
  if t.kind = kind then .take more else .pass

/-- An operand begins with the token. -/
def beginOperand (t : Token) : Reaction :=
  match t.kind with
  | .name | .string | .trueWord | .falseWord => .take []
  | .integer =>
    if number t < Nat.pow 2 63 then .take [] else .refuse (.integerTooLarge t.literal)
  | .bang | .minus => .take [.expression .unary]
  | .leftParen => .take [.expression .lowest, .mark (.closer .rightParen)]
  | .leftBracket => .take [.items .rightBracket]
  | .ifWord =>
    .take [.mark .leftParen, .expression .lowest, .mark (.closer .rightParen), .block, .alternative]
  | .fnWord => .take [.mark .leftParen, .parameters, .block]
  | kind => .refuse (.noOperand kind)

def beginExpression (least : Strength) (t : Token) : Reaction :=
  (beginOperand t).before [.extension least]

def beginStatement (t : Token) : Reaction :=
  match t.kind with
  | .letWord => .take [.mark .name, .mark .assign, .expression .lowest, .semicolon]
  | .returnWord => .take [.expression .lowest, .semicolon]
  | _ => (beginExpression .lowest t).before [.semicolon]

/-- The token goes on with an expression if it binds tighter than `least`. -/
def goOn (least : Strength) (t : Token) : Reaction :=
  if least < Strength.ofKind t.kind then
    match t.kind with
    | .leftParen => .take [.items .rightParen, .extension least]
    | .leftBracket => .take [.expression .lowest, .mark (.closer .rightBracket), .extension least]
    | kind =>
      match InfixOp.ofKind? kind with
      | some _ => .take [.expression (Strength.ofKind kind), .extension least]
      | none => .pass
  else .pass

namespace Awaited

def meet : Awaited → Token → Reaction
  | mark m, t => demanded m.kind [] t
  | operand, t => beginOperand t
  | expression least, t => beginExpression least t
  | extension least, t => goOn least t
  | items closing, t =>
    if t.kind = closing.kind then .take []
    else (beginExpression .lowest t).before [.moreItems closing]
  | moreItems closing, t =>
    if t.kind = .comma then .take [.expression .lowest, .moreItems closing]
    else demanded closing.kind [] t
  | parameters, t =>
    if t.kind = .rightParen then .take [] else demanded .name [.moreParameters] t
  | moreParameters, t =>
    if t.kind = .comma then .take [.mark .name, .moreParameters] else demanded .rightParen [] t
  | block, t => demanded .leftBrace [.statements] t
  | alternative, t => allowed .elseWord [.block] t
  | statements, t =>
    match t.kind with
    | .rightBrace => .take []
    | .endOfInput => .pass
    | _ => (beginStatement t).before [.statements]
  | statement, t => beginStatement t
  | semicolon, t => allowed .semicolon [] t

end Awaited

/-- The token meets what is awaited, from the top of the stack on. -/
def react : List Awaited → Token → Reaction
  | [], _ => .pass
  | a :: rest, t =>
    match a.meet t with
    | .take more => .take (more ++ rest)
    | .pass => react rest t
    | .refuse cause => .refuse cause

/-- Whether all tokens have been taken, or how many stand before the one refused, and how many of
them are of the statements that are complete. -/
inductive Verdict where
  | accepted
  | refused (complete before : Nat) (cause : SyntaxError.Cause)

/-- How many tokens are of complete statements, how many of the statement begun behind them, and
what is still awaited of it. -/
structure Stage where
  complete : Nat
  begun : Nat
  awaited : List Awaited

/-- Where nothing more is awaited of a statement, a token before the end begins the next one. -/
def Stage.facing (stage : Stage) (t : Token) : Stage :=
  match react stage.awaited t with
  | .pass =>
    if t.kind = .endOfInput then stage else ⟨stage.complete + stage.begun, 0, [.statement]⟩
  | _ => stage

/-- The tokens are met one by one. -/
def scan (stage : Stage) : List Token → Verdict
  | [] => .accepted
  | t :: ts =>
    match react (stage.facing t).awaited t with
    | .take more => scan ⟨(stage.facing t).complete, (stage.facing t).begun + 1, more⟩ ts
    | .refuse cause =>
      .refused (stage.facing t).complete ((stage.facing t).complete + (stage.facing t).begun) cause
    | .pass => .accepted

section
variable {k : Nat} {t : Token} {a : Awaited} {more rest awaited : List Awaited}

/-- What holds when a token is taken by something with `k` open blocks: an opening parenthesis is
demanded at once or not at all, and the braces keep count of the blocks. -/
structure Taken (k : Nat) (t : Token) (more : List Awaited) : Prop where
  inside : t.kind ≠ .endOfInput
  legal : t.kind ≠ .illegal
  shut : .mark .leftParen ∉ more.tail
  braces : more.count .statements + closed [t] = k + opened [t]

theorem Taken.before (h : Taken k t more) (hr : .mark .leftParen ∉ rest) :
    Taken (k + rest.count .statements) t (more ++ rest) where
  inside := h.inside
  legal := h.legal
  shut := by
    cases more with
    | nil => exact fun hm => hr (List.mem_of_mem_tail hm)
    | cons b more => exact fun hm => (List.mem_append.mp hm).elim h.shut hr
  braces := by
    have hb := h.braces
    rw [List.count_append]
    omega

theorem Taken.plain_before (h : Taken k t more)
    (hr : .mark .leftParen ∉ rest ∧ .statements ∉ rest) : Taken k t (more ++ rest) := by
  have hb := h.before hr.1
  rwa [List.count_eq_zero.mpr hr.2, Nat.add_zero] at hb

theorem Reaction.before_eq_take {r : Reaction} (h : r.before rest = .take more) :
    ∃ first, r = .take first ∧ more = first ++ rest := by
  cases r with
  | take first => exact ⟨first, rfl, (Reaction.take.inj h).symm⟩
  | pass => cases h
  | refuse cause => cases h

theorem demanded_take {kind : Token.Kind} (h : demanded kind more t = .take rest) :
    t.kind = kind ∧ rest = more := by
  unfold demanded at h
  split at h
  · next hk => exact ⟨hk, (Reaction.take.inj h).symm⟩
  · cases h

theorem allowed_take {kind : Token.Kind} (h : allowed kind more t = .take rest) :
    t.kind = kind ∧ rest = more := by
  unfold allowed at h
  split at h
  · next hk => exact ⟨hk, (Reaction.take.inj h).symm⟩
  · cases h

/-- A token that is no brace opens and closes no block. -/
theorem taken_of_plain (hk : t.kind ∉ [.endOfInput, .illegal, .leftBrace, .rightBrace])
    (hs : .mark .leftParen ∉ more.tail) (hb : .statements ∉ more) : Taken 0 t more := by
  simp only [List.mem_cons, List.not_mem_nil, or_false, not_or] at hk
  obtain ⟨hend, hillegal, hopen, hclose⟩ := hk
  refine ⟨hend, hillegal, hs, ?_⟩
  rw [List.count_eq_zero.mpr hb]
  simp [opened, closed, hopen, hclose]

theorem taken_token {kind : Token.Kind} (hk : t.kind = kind)
    (h : kind ∉ [.endOfInput, .illegal, .leftBrace, .rightBrace])
    (hm : .mark .leftParen ∉ more.tail ∧ .statements ∉ more) : Taken 0 t more :=
  taken_of_plain (hk ▸ h) hm.1 hm.2

theorem beginOperand_take (h : beginOperand t = .take more) : Taken 0 t more := by
  unfold beginOperand at h
  cases hk : t.kind with
  | name | string | trueWord | falseWord | bang | minus | leftParen | leftBracket | ifWord
    | fnWord =>
    simp only [hk] at h
    obtain rfl := Reaction.take.inj h
    exact taken_token hk (by decide) (by decide)
  | integer =>
    simp only [hk] at h
    split at h
    · obtain rfl := Reaction.take.inj h
      exact taken_token hk (by decide) (by decide)
    · cases h
  | _ =>
    simp only [hk] at h
    cases h

theorem beginExpression_take {least : Strength} (h : beginExpression least t = .take more) :
    Taken 0 t more := by
  obtain ⟨first, hf, rfl⟩ := Reaction.before_eq_take h
  exact (beginOperand_take hf).plain_before (by simp)

theorem beginStatement_take (h : beginStatement t = .take more) : Taken 0 t more := by
  unfold beginStatement at h
  split at h
  · next hk =>
    obtain rfl := Reaction.take.inj h
    exact taken_token hk (by decide) (by decide)
  · next hk =>
    obtain rfl := Reaction.take.inj h
    exact taken_token hk (by decide) (by decide)
  · obtain ⟨first, hf, rfl⟩ := Reaction.before_eq_take h
    exact (beginExpression_take hf).plain_before (by simp)

theorem goOn_take {least : Strength} (h : goOn least t = .take more) : Taken 0 t more := by
  unfold goOn at h
  split at h
  · split at h
    · next hk =>
      obtain rfl := Reaction.take.inj h
      exact taken_token hk (by decide) (by simp)
    · next hk =>
      obtain rfl := Reaction.take.inj h
      exact taken_token hk (by decide) (by simp)
    · split at h
      · next op hop =>
        obtain rfl := Reaction.take.inj h
        refine taken_of_plain ?_ (by simp) (by simp)
        intro hk
        simp only [List.mem_cons, List.not_mem_nil, or_false] at hk
        rcases hk with hk | hk | hk | hk <;> simp [hk, InfixOp.ofKind?] at hop
      · cases h
  · cases h

theorem Closer.kind_plain (closer : Closer) :
    closer.kind ∉ [.endOfInput, .illegal, .leftBrace, .rightBrace] := by cases closer <;> decide

theorem Mark.kind_plain (m : Mark) :
    m.kind ∉ [.endOfInput, .illegal, .leftBrace, .rightBrace] := by
  cases m with
  | closer closer => exact closer.kind_plain
  | _ => decide

theorem meet_take (h : a.meet t = .take more) : Taken ([a].count .statements) t more := by
  cases a with
  | mark m =>
    obtain ⟨hk, rfl⟩ := demanded_take h
    exact taken_token hk m.kind_plain (by simp)
  | operand => exact beginOperand_take h
  | expression least => exact beginExpression_take h
  | extension least => exact goOn_take h
  | items closing =>
    rw [Awaited.meet] at h
    split at h
    · next hk =>
      obtain rfl := Reaction.take.inj h
      exact taken_token hk closing.kind_plain (by simp)
    · obtain ⟨first, hf, rfl⟩ := Reaction.before_eq_take h
      exact (beginExpression_take hf).plain_before (by simp)
  | moreItems closing =>
    rw [Awaited.meet] at h
    split at h
    · next hk =>
      obtain rfl := Reaction.take.inj h
      exact taken_token hk (by decide) (by simp)
    · obtain ⟨hk, rfl⟩ := demanded_take h
      exact taken_token hk closing.kind_plain (by simp)
  | parameters =>
    rw [Awaited.meet] at h
    split at h
    · next hk =>
      obtain rfl := Reaction.take.inj h
      exact taken_token hk (by decide) (by simp)
    · obtain ⟨hk, rfl⟩ := demanded_take h
      exact taken_token hk (by decide) (by decide)
  | moreParameters =>
    rw [Awaited.meet] at h
    split at h
    · next hk =>
      obtain rfl := Reaction.take.inj h
      exact taken_token hk (by decide) (by decide)
    · obtain ⟨hk, rfl⟩ := demanded_take h
      exact taken_token hk (by decide) (by simp)
  | block =>
    obtain ⟨hk, rfl⟩ := demanded_take h
    exact ⟨by simp [hk], by simp [hk], by simp, by simp [opened, closed, hk]⟩
  | alternative =>
    obtain ⟨hk, rfl⟩ := allowed_take h
    exact taken_token hk (by decide) (by decide)
  | statements =>
    rw [Awaited.meet] at h
    split at h
    · next hk =>
      obtain rfl := Reaction.take.inj h
      exact ⟨by simp [hk], by simp [hk], by simp, by simp [opened, closed, hk]⟩
    · cases h
    · obtain ⟨first, hf, rfl⟩ := Reaction.before_eq_take h
      have hrest : .mark .leftParen ∉ [Awaited.statements] := by simp
      have hfirst := (beginStatement_take hf).before hrest
      rwa [Nat.zero_add] at hfirst
  | statement => exact beginStatement_take h
  | semicolon =>
    obtain ⟨hk, rfl⟩ := allowed_take h
    exact taken_token hk (by decide) (by simp)

/-- An operand takes or refuses its first token. -/
theorem beginOperand_ne_pass (t : Token) : beginOperand t ≠ .pass := by
  unfold beginOperand
  cases t.kind with
  | integer =>
    dsimp only
    split <;> simp
  | _ => simp

theorem Reaction.before_eq_pass {r : Reaction} (h : r.before rest = .pass) : r = .pass := by
  cases r with
  | pass => rfl
  | take first => cases h
  | refuse cause => cases h

theorem beginStatement_ne_pass (t : Token) : beginStatement t ≠ .pass := by
  unfold beginStatement
  split
  · simp
  · simp
  · exact fun h => beginOperand_ne_pass t
      (Reaction.before_eq_pass (Reaction.before_eq_pass h))

/-- Within a block something is done with every token, the end of the text apart. -/
theorem react_pass (h : react awaited t = .pass) (ht : t.kind ≠ .endOfInput) :
    .statements ∉ awaited := by
  induction awaited with
  | nil => simp
  | cons a rest ih =>
    unfold react at h
    split at h
    · cases h
    · next ha =>
      rw [List.mem_cons, not_or]
      refine ⟨?_, ih h⟩
      rintro rfl
      rw [Awaited.meet] at ha
      split at ha
      · cases ha
      · next hk => exact ht hk
      · exact beginStatement_ne_pass t (Reaction.before_eq_pass ha)
    · cases h

theorem react_take (h : react awaited t = .take more)
    (hs : .mark .leftParen ∉ awaited.tail) : Taken (awaited.count .statements) t more := by
  induction awaited with
  | nil => cases h
  | cons a rest ih =>
    unfold react at h
    rw [← List.singleton_append, List.count_append]
    split at h
    · next first ha =>
      obtain rfl := Reaction.take.inj h
      exact (meet_take ha).before hs
    · -- What is passed over has no open block, so that none gets lost from the count.
      next ha =>
      have hrest := ih h fun hm => hs (List.mem_of_mem_tail hm)
      have hpass : react [a] t = .pass := by rw [react, ha]; rfl
      rwa [List.count_eq_zero.mpr (react_pass hpass hrest.inside), Nat.zero_add]
    · cases h

variable {stage : Stage} {ts us : List Token}

theorem facing_of_ne_pass {c b : Nat} (h : react awaited t ≠ .pass) :
    (Stage.mk c b awaited).facing t = ⟨c, b, awaited⟩ := by
  unfold Stage.facing
  split
  · next hp => exact absurd hp h
  · rfl

theorem facing_next {c b : Nat} (h : react awaited t = .pass) (ht : t.kind ≠ .endOfInput) :
    (Stage.mk c b awaited).facing t = ⟨c + b, 0, [.statement]⟩ := by
  simp only [Stage.facing, h, if_neg ht]

theorem facing_end {c b : Nat} (ht : t.kind = .endOfInput) :
    (Stage.mk c b awaited).facing t = ⟨c, b, awaited⟩ := by
  unfold Stage.facing
  split
  · exact if_pos ht
  · rfl

/-- No token is lost or gained where a statement begins. -/
theorem facing_length (stage : Stage) (t : Token) :
    (stage.facing t).complete + (stage.facing t).begun = stage.complete + stage.begun := by
  unfold Stage.facing
  split
  · split <;> rfl
  · rfl

theorem facing_shut (hs : .mark .leftParen ∉ stage.awaited.tail) :
    .mark .leftParen ∉ (stage.facing t).awaited.tail := by
  unfold Stage.facing
  split
  · split
    · exact hs
    · simp
  · exact hs

/-- A token that begins a statement is taken or refused by it. -/
theorem react_statement_ne_pass (t : Token) : react [.statement] t ≠ .pass := by
  unfold react
  split
  · simp
  · next h => exact absurd h (beginStatement_ne_pass t)
  · simp

theorem scan_take (h : react (stage.facing t).awaited t = .take more) : scan stage (t :: ts) =
    scan ⟨(stage.facing t).complete, (stage.facing t).begun + 1, more⟩ ts := by
  rw [scan, h]

theorem scan_refuse {cause : SyntaxError.Cause}
    (h : react (stage.facing t).awaited t = .refuse cause) : scan stage (t :: ts) =
      .refused (stage.facing t).complete (stage.complete + stage.begun) cause := by
  rw [scan, h, ← facing_length stage t]

theorem scan_pass (h : react (stage.facing t).awaited t = .pass) :
    scan stage (t :: ts) = .accepted := by
  rw [scan, h]

theorem scan_meets {c b : Nat} (h : react awaited t = .take more) :
    scan ⟨c, b, awaited⟩ (t :: ts) = scan ⟨c, b + 1, more⟩ ts := by
  rw [scan, facing_of_ne_pass (by simp [h]), h]

theorem scan_refuses {c b : Nat} {cause : SyntaxError.Cause}
    (h : react awaited t = .refuse cause) :
    scan ⟨c, b, awaited⟩ (t :: ts) = .refused c (c + b) cause := by
  rw [scan, facing_of_ne_pass (by simp [h]), h]

theorem scan_ends {c b : Nat} (h : react awaited t = .pass) (ht : t.kind = .endOfInput) :
    scan ⟨c, b, awaited⟩ (t :: ts) = .accepted := by
  rw [scan, facing_end ht, h]

/-- Where nothing more is awaited, the next statement is. -/
theorem scan_next {c b : Nat} (h : react awaited t = .pass) (ht : t.kind ≠ .endOfInput) :
    scan ⟨c, b, awaited⟩ (t :: ts) = scan ⟨c + b, 0, [.statement]⟩ (t :: ts) := by
  rw [scan, scan, facing_next h ht, facing_of_ne_pass (react_statement_ne_pass t)]

/-- Only the reaction to the next token matters of what is awaited. -/
theorem scan_of_react {c b : Nat} {awaited' : List Awaited}
    (h : react awaited' t = react awaited t) :
    scan ⟨c, b, awaited'⟩ (t :: ts) = scan ⟨c, b, awaited⟩ (t :: ts) := by
  cases hr : react awaited t with
  | take more => rw [scan_meets hr, scan_meets (h.trans hr)]
  | refuse cause => rw [scan_refuses hr, scan_refuses (h.trans hr)]
  | pass =>
    by_cases ht : t.kind = .endOfInput
    · rw [scan_ends hr ht, scan_ends (h.trans hr) ht]
    · rw [scan_next hr ht, scan_next (h.trans hr) ht]

theorem scan_meet {c b : Nat} (h : a.meet t = .take more) :
    scan ⟨c, b, a :: rest⟩ (t :: ts) = scan ⟨c, b + 1, more ++ rest⟩ ts :=
  scan_meets (by rw [react, h])

theorem scan_meet_pass {c b : Nat} (h : a.meet t = .pass) :
    scan ⟨c, b, a :: rest⟩ (t :: ts) = scan ⟨c, b, rest⟩ (t :: ts) :=
  scan_of_react (by rw [react, h])

/-- The token refused is none of those before, nor of a complete statement. -/
theorem le_of_refused {c n : Nat} {cause : SyntaxError.Cause}
    (h : scan stage ts = .refused c n cause) : stage.complete + stage.begun ≤ n ∧ c ≤ n := by
  induction ts generalizing stage with
  | nil => cases h
  | cons t ts ih =>
    have hlength := facing_length stage t
    cases hr : react (stage.facing t).awaited t with
    | take more =>
      rw [scan_take hr] at h
      obtain ⟨hle, hc⟩ := ih h
      dsimp only at hle
      exact ⟨by omega, hc⟩
    | refuse cause =>
      rw [scan_refuse hr] at h
      obtain ⟨hc, hn, -⟩ := Verdict.refused.inj h
      omega
    | pass =>
      rw [scan_pass hr] at h
      cases h

end

section
variable {t u : Token}

theorem meet_congr (h : t.word = u.word) (a : Awaited) : a.meet t = a.meet u := by
  obtain ⟨kind, literal, span⟩ := t
  obtain ⟨kind', literal', span'⟩ := u
  obtain ⟨rfl, rfl⟩ := Prod.mk.inj h
  cases a <;> rfl

theorem react_congr (h : t.word = u.word) (awaited : List Awaited) :
    react awaited t = react awaited u := by
  induction awaited with
  | nil => rfl
  | cons a rest ih => rw [react, react, meet_congr h, ih]

theorem facing_congr (h : t.word = u.word) (stage : Stage) : stage.facing t = stage.facing u := by
  have hkind : t.kind = u.kind := (Prod.mk.inj h).1
  unfold Stage.facing
  rw [react_congr h, hkind]

/-- Where the words up to a token refused are the same, it is refused alike. -/
theorem scan_congr {c n : Nat} {cause : SyntaxError.Cause} {stage : Stage} {us us' : List Token}
    (rest rest' : List Token) (hw : us.map Token.word = us'.map Token.word)
    (h : scan stage (us ++ rest) = .refused c n cause)
    (hn : n < stage.complete + stage.begun + us.length) :
    scan stage (us' ++ rest') = .refused c n cause := by
  induction us generalizing us' stage with
  | nil => exact absurd (le_of_refused h).1 (Nat.not_le_of_lt hn)
  | cons t us ih =>
    obtain ⟨u, us', rfl, hword, hwords⟩ := List.map_eq_cons_iff.mp hw.symm
    have hfacing := facing_congr hword.symm stage
    have hreact := react_congr hword.symm (stage.facing t).awaited
    rw [List.cons_append] at h ⊢
    cases hr : react (stage.facing t).awaited t with
    | take more =>
      rw [hr, hfacing] at hreact
      rw [scan_take hr] at h
      rw [scan_take hreact.symm, ← hfacing]
      have hlength := facing_length stage t
      rw [List.length_cons] at hn
      exact ih hwords.symm h (by dsimp only; omega)
    | refuse cause =>
      rw [hr, hfacing] at hreact
      rw [scan_refuse hr] at h
      rw [scan_refuse hreact.symm, ← hfacing, h]
    | pass =>
      rw [scan_pass hr] at h
      cases h

end

section
variable {t : Token}

/-- What begins with something that does not pass is that and what is behind it. -/
theorem react_before {a first behind : Awaited} (hn : first.meet t ≠ .pass)
    (h : a.meet t = (first.meet t).before [behind]) (rest : List Awaited) :
    react (first :: behind :: rest) t = react (a :: rest) t := by
  simp only [react, h]
  cases hf : first.meet t with
  | pass => exact absurd hf hn
  | take more => simp [Reaction.before]
  | refuse cause => rfl

theorem beginExpression_ne_pass (least : Strength) (t : Token) : beginExpression least t ≠ .pass :=
  fun h => beginOperand_ne_pass t (Reaction.before_eq_pass h)

theorem demanded_ne_pass (kind : Token.Kind) (more : List Awaited) (t : Token) :
    demanded kind more t ≠ .pass := by
  unfold demanded
  split <;> simp

/-- An expression is an operand and what goes on with it. -/
theorem react_expression (least : Strength) (t : Token) (rest : List Awaited) :
    react (.operand :: .extension least :: rest) t = react (.expression least :: rest) t := by
  have hn : Awaited.operand.meet t ≠ .pass := beginOperand_ne_pass t
  exact react_before hn rfl rest

theorem react_statement (h : t.kind ≠ .letWord ∧ t.kind ≠ .returnWord) (rest : List Awaited) :
    react (.expression .lowest :: .semicolon :: rest) t = react (.statement :: rest) t := by
  have hn : (Awaited.expression .lowest).meet t ≠ .pass := beginExpression_ne_pass .lowest t
  refine react_before hn ?_ rest
  simp only [Awaited.meet]
  unfold beginStatement
  split
  · next hk => exact absurd hk h.1
  · next hk => exact absurd hk h.2
  · rfl

theorem react_statements (h : t.kind ≠ .rightBrace ∧ t.kind ≠ .endOfInput) (rest : List Awaited) :
    react (.statement :: .statements :: rest) t = react (.statements :: rest) t := by
  have hn : Awaited.statement.meet t ≠ .pass := beginStatement_ne_pass t
  refine react_before hn ?_ rest
  rw [Awaited.meet]
  split
  · next hk => exact absurd hk h.1
  · next hk => exact absurd hk h.2
  · rfl

theorem react_items {closing : Closer} (h : t.kind ≠ closing.kind) (rest : List Awaited) :
    react (.expression .lowest :: .moreItems closing :: rest) t =
      react (.items closing :: rest) t := by
  have hn : (Awaited.expression .lowest).meet t ≠ .pass := beginExpression_ne_pass .lowest t
  exact react_before hn (by simp only [Awaited.meet, if_neg h]) rest

theorem react_parameters (h : t.kind ≠ .rightParen) (rest : List Awaited) :
    react (.mark .name :: .moreParameters :: rest) t = react (.parameters :: rest) t := by
  have hn : (Awaited.mark .name).meet t ≠ .pass := demanded_ne_pass _ _ t
  refine react_before hn ?_ rest
  simp only [Awaited.meet, if_neg h, demanded, Mark.kind]
  split <;> simp [*, Reaction.before]

theorem react_moreItems {closing : Closer} (h : t.kind ≠ .comma) (rest : List Awaited) :
    react (.mark (.closer closing) :: rest) t = react (.moreItems closing :: rest) t := by
  simp only [react, Awaited.meet, if_neg h, Mark.kind, Closer.kind]

theorem react_moreParameters (h : t.kind ≠ .comma) (rest : List Awaited) :
    react (.mark (.closer .rightParen) :: rest) t = react (.moreParameters :: rest) t := by
  simp only [react, Awaited.meet, if_neg h, Mark.kind, Closer.kind]

end

end Grammar

end MonkeyLang
