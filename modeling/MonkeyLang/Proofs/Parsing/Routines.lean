import MonkeyLang.Proofs.Parsing.Awaited
import MonkeyLang.Proofs.Parsing.Limit

namespace MonkeyLang

theorem Parser.Left.recovered {m : Nat} {p : Parser} (h : p.Left m) :
    ({ p with tokens := Parser.abandon p.tokens } : Parser).Left m :=
  ⟨h.endMark, Nat.le_trans (Parser.abandon_suffix _).length_le h.tokens⟩

namespace Parse

/-- The routines of the parser, with their arguments. -/
inductive Routine where
  | program
  | statements
  | statement
  | block
  | expression (least : Strength)
  | operand
  | extend (least : Strength) (left : Expr)
  | items (closing : Token.Kind)
  | moreItems (closing : Token.Kind)
  | parameters

namespace Routine

def Result : Routine → Type
  | program => Program
  | statements => List Stmt
  | statement => Stmt
  | block => Block
  | expression _ => Expr
  | operand => Expr
  | extend .. => Expr
  | items _ => List Expr
  | moreItems _ => List Expr
  | parameters => List Identifier

/-- The routine, with at most so many calls inside one another. -/
def run (n : Nat) : (routine : Routine) → Parse routine.Result
  | program => Parse.program n
  | statements => Parse.statements n
  | statement => Parse.statement n
  | block => Parse.block n
  | expression least => Parse.expression n least
  | operand => Parse.operand n
  | extend least left => Parse.extend n least left
  | items closing => Parse.items n closing
  | moreItems closing => Parse.moreItems n closing
  | parameters => Parse.parameters n

/-- Ways to have the routines called. -/
abbrev Calls := (routine : Routine) → Parse routine.Result

/-- What a routine does itself, with its calls left open. -/
def body (call : Calls) : (routine : Routine) → Parse routine.Result
  | program => Body.program (attempt (call statement)) (call program)
  | statements => Body.statements (attempt (call statement)) (call statements)
  | statement => Body.statement fun least => call (expression least)
  | block => Body.block (call statements)
  | expression least =>
    Body.expression (call operand) (fun least left => call (extend least left)) least
  | operand =>
    Body.operand (fun least => call (expression least)) (fun closing => call (items closing))
      (call block) (call parameters)
  | extend least left =>
    Body.extend (fun least => call (expression least)) (fun closing => call (items closing))
      (fun least left => call (extend least left)) least left
  | items closing =>
    Body.items (fun least => call (expression least)) (fun closing => call (moreItems closing))
      closing
  | moreItems closing =>
    Body.moreItems (fun least => call (expression least)) (fun closing => call (moreItems closing))
      closing
  | parameters => Body.parameters (call parameters)

theorem run_succ (n : Nat) (routine : Routine) : run (n + 1) routine = body (run n) routine := by
  cases routine <;> rfl

/-- The routine is only called on the token that it begins with. -/
def opens : Routine → Bool
  | items _ | block => true
  | _ => false

/-- The calls of a routine that may be about the tokens that it is about itself. -/
inductive Within : Routine → Routine → Prop where
  | ofProgram : Within statement program
  | ofStatements : Within statement statements
  | value : Within (expression .lowest) statement
  | first {least : Strength} : Within operand (expression least)
  | further {least : Strength} {left : Expr} : Within (extend least left) (expression least)
  | elements : Within (items .rightBracket) operand

/-- How far down a routine stands: one within another stands further down. -/
def rank : Routine → Nat
  | program | statements => 6
  | statement => 5
  | expression _ => 4
  | operand | extend .. => 3
  | items _ | moreItems _ | block => 2
  | parameters => 1

theorem Within.rank_lt {inner outer : Routine} (h : Within inner outer) :
    inner.rank < outer.rank := by
  cases h <;> simp [rank]

theorem rank_bounds (routine : Routine) : 1 ≤ routine.rank ∧ routine.rank ≤ 6 := by
  cases routine <;> simp [rank]

end Routine

/-- A call of a routine: the routine and the parser as it is then. -/
structure Frame where
  routine : Routine
  parser : Parser

namespace Frame

/-- How many tokens are left when the call is made. -/
def left (frame : Frame) : Nat := frame.parser.tokens.length

/-- The call is made where it may be made. -/
structure Enters (frame : Frame) : Prop where
  endMark : frame.parser.endMark.kind = .endOfInput
  opened : frame.routine.opens = true → frame.parser.tokens ≠ []

/-- Fewer tokens are left, or as many for a routine that stands further down. -/
def Below (inner outer : Frame) : Prop :=
  inner.left < outer.left ∨ inner.left = outer.left ∧ inner.routine.Within outer.routine

def weight (frame : Frame) : Nat := 8 * frame.left + frame.routine.rank

theorem Below.weight_lt {inner outer : Frame} (h : inner.Below outer) :
    inner.weight < outer.weight := by
  have hinner := inner.routine.rank_bounds
  have houter := outer.routine.rank_bounds
  unfold weight
  rcases h with hlt | ⟨heq, hwithin⟩
  · omega
  · have hrank := hwithin.rank_lt
    omega

end Frame

section
variable {α β : Type} {m : Nat} {x y : Parse α} {f g : α → Parse β} {p : Parser}

/-- The two runs from `p` are the same. -/
def Alike (x y : Parse α) (p : Parser) : Prop := y.run p = x.run p

/-- The two runs are the same, are not given up and leave at most `m` tokens. -/
structure Served (m : Nat) (x y : Parse α) (p : Parser) : Prop where
  alike : Alike x y p
  finishes : Finishes m x p

theorem Ends.alike {ok : α → Parser → Prop} {stop : Parser.Stop → Parser → Prop}
    (hx : Ends x p ok stop) (h : Alike x y p) : Ends y p ok stop := by
  unfold Ends at hx ⊢
  rwa [h]

/-- Runs that begin alike are alike where what follows is. -/
theorem Alike.bind (hxy : Alike x y p)
    (h : Ends x p (fun a q => Alike (f a) (g a) q) fun _ _ => True) :
    Alike (x >>= f) (y >>= g) p := by
  have hrun : y.run p = x.run p := hxy
  unfold Alike
  rw [EStateM.run_bind, EStateM.run_bind, hrun]
  cases hr : x.run p with
  | ok a q => exact h.of_ok hr
  | error stop q => rfl

theorem Served.bind (h : Served m x y p) (hf : ∀ a q, q.Left m → Alike (f a) (g a) q) :
    Alike (x >>= f) (y >>= g) p :=
  h.alike.bind (Ends.mono h.finishes hf fun _ _ _ => trivial)

theorem Served.attempt {f g : Option α → Parse β} (h : Served m x y p)
    (hf : ∀ result q, q.Left m → Alike (f result) (g result) q) :
    Alike (attempt x >>= f) (attempt y >>= g) p := by
  have hrun : y p = x p := h.alike
  have hattempt : (Parse.attempt y).run p = (Parse.attempt x).run p := by
    simp only [EStateM.run, Parse.attempt, hrun]
  have hleft : Finishes m (Parse.attempt x) p := ends_attempt.2
    (Ends.mono h.finishes (fun _ _ hq => hq) fun _ _ hs =>
      ⟨fun _ => hs.2, fun hd => by simp [hs.1] at hd⟩)
  exact Served.bind ⟨hattempt, hleft⟩ hf

theorem alike_current {f g : Token → Parse β} (h : Alike (f p.current) (g p.current) p) :
    Alike (current >>= f) (current >>= g) p := h

theorem alike_next {f g : Token → Parse β} (h : Alike (f p.next) (g p.next) p) :
    Alike (next >>= f) (next >>= g) p := h

theorem alike_advance {f g : Unit → Parse β} (h : Alike (f ()) (g ()) p.advance) :
    Alike (advance >>= f) (advance >>= g) p := h

theorem alike_ite {c : Prop} [Decidable c] {x' y' : Parse α} (h : c → Alike x y p)
    (h' : ¬c → Alike x' y' p) : Alike (if c then x else x') (if c then y else y') p := by
  by_cases hc : c
  · rw [if_pos hc, if_pos hc]
    exact h hc
  · rw [if_neg hc, if_neg hc]
    exact h' hc

theorem alike_recover {f g : Unit → Parse β}
    (h : Alike (f ()) (g ()) { p with tokens := Parser.abandon p.tokens }) :
    Alike (recover >>= f) (recover >>= g) p := h

theorem alike_accept {kind : Token.Kind} {f g : Bool → Parse β}
    (ht : p.next.kind = kind → Alike (f true) (g true) p.advance)
    (hf : p.next.kind ≠ kind → Alike (f false) (g false) p) :
    Alike (accept kind >>= f) (accept kind >>= g) p :=
  Alike.bind rfl (ends_accept.2 ⟨ht, hf⟩)

theorem alike_demand {kind : Token.Kind} {f g : Unit → Parse β}
    (h : p.next.kind = kind → Alike (f ()) (g ()) p.advance) :
    Alike (demand kind >>= f) (demand kind >>= g) p :=
  Alike.bind rfl (ends_demand.2 ⟨h, fun _ => trivial⟩)

end

/-- The two ways to call are the same for all calls below that of the frame, and these calls are not
given up. -/
def Serves (call other : Routine.Calls) (frame : Frame) : Prop :=
  ∀ inner : Frame, inner.Enters → inner.Below frame →
    Served inner.left (call inner.routine) (other inner.routine) inner.parser

section
variable {call other : Routine.Calls} {inner outer : Routine} {p q : Parser} {m : Nat}

/-- A call about fewer tokens. -/
theorem Serves.fewer (h : Serves call other ⟨outer, p⟩) (hq : q.Left m) (hm : m < p.tokens.length)
    (ho : inner.opens = true → q.tokens ≠ []) : Served m (call inner) (other inner) q := by
  have hserved := h ⟨inner, q⟩ ⟨hq.endMark, ho⟩ (.inl (Nat.lt_of_le_of_lt hq.tokens hm))
  exact ⟨hserved.alike, hserved.finishes.mono hq.tokens⟩

/-- A call of a routine that stands further down. -/
theorem Serves.within (h : Serves call other ⟨outer, p⟩) (hw : inner.Within outer)
    (hq : q.Left p.tokens.length) (ho : inner.opens = true → q.tokens ≠ []) :
    Served p.tokens.length (call inner) (other inner) q := by
  have hbelow : Frame.Below ⟨inner, q⟩ ⟨outer, p⟩ :=
    (Nat.lt_or_eq_of_le hq.tokens).imp id fun heq => ⟨heq, hw⟩
  have hserved := h ⟨inner, q⟩ ⟨hq.endMark, ho⟩ hbelow
  exact ⟨hserved.alike, hserved.finishes.mono hq.tokens⟩

end

theorem tokens_ne_nil {p : Parser} (hm : p.endMark.kind = .endOfInput)
    (hc : p.current.kind ≠ .endOfInput) : p.tokens ≠ [] := by
  intro h
  exact hc (by simp [Parser.current, h, hm])

section
variable {call other : Routine.Calls} {p : Parser}

theorem alike_parameters (hp : p.Left p.tokens.length)
    (h : Serves call other ⟨.parameters, p⟩) :
    Alike (Routine.body call .parameters) (Routine.body other .parameters) p := by
  refine alike_demand fun hk => alike_current (alike_accept (fun _ => ?_) fun _ => rfl)
  have hm := hp.two (by simp [hk])
  exact Served.bind (h.fewer hp.advance.advance (by omega) nofun) fun _ _ _ => rfl

theorem alike_expression {least : Strength} (hp : p.Left p.tokens.length)
    (h : Serves call other ⟨.expression least, p⟩) :
    Alike (Routine.body call (.expression least)) (Routine.body other (.expression least)) p := by
  refine Served.bind (h.within .first hp nofun) fun left q hq => ?_
  exact (h.within .further hq nofun).alike

theorem alike_operand (hp : p.Left p.tokens.length) (h : Serves call other ⟨.operand, p⟩) :
    Alike (Routine.body call .operand) (Routine.body other .operand) p := by
  have hexpression : ∀ {least : Strength} {q : Parser} {m : Nat}, q.Left m →
      m < p.tokens.length → Served m (call (.expression least)) (other (.expression least)) q :=
    fun hq hm => h.fewer hq hm nofun
  have hblock : ∀ {q : Parser} {m : Nat}, q.Left m → m ≤ p.tokens.length →
      q.next.kind = .leftBrace → Served (m - 1) (call .block) (other .block) q.advance := by
    intro q m hq hm hk
    have htwo := hq.two (by simp [hk])
    refine h.fewer hq.advance (Nat.lt_of_lt_of_le (by omega) hm) fun _ => ?_
    refine tokens_ne_nil hq.endMark (fun hc => ?_)
    exact absurd (hk.symm.trans hc) (by decide)
  refine alike_current ?_
  cases hr : Prefix.ofKind? p.current.kind with
  | none => rfl
  | some reader =>
    have hm := hp.pos (Prefix.ne_end hr)
    cases reader with
    | name | integer | string | boolean => rfl
    | operator =>
      obtain ⟨op, hop⟩ := Prefix.operator_iff.mp hr
      rw [hop]
      exact alike_advance (Served.bind (hexpression hp.advance (by omega)) fun _ _ _ => rfl)
    | group =>
      exact alike_advance (Served.bind (hexpression hp.advance (by omega)) fun _ _ _ => rfl)
    | conditional =>
      refine alike_demand fun hl => alike_advance ?_
      have hm := hp.two (by simp [hl])
      refine Served.bind (hexpression hp.advance.advance (by omega)) fun condition q hq => ?_
      refine alike_demand fun _ => alike_demand fun hb => ?_
      refine Served.bind (hblock hq.advance (by omega) hb) fun consequence r hr => ?_
      refine alike_accept (fun _ => alike_demand fun hb' => ?_) fun _ => rfl
      exact Served.bind (hblock hr.advance (by omega) hb') fun _ _ _ => rfl
    | function =>
      refine alike_demand fun hl => ?_
      have hm := hp.two (by simp [hl])
      refine alike_accept (fun _ => alike_demand fun hb => ?_) fun _ => ?_
      · exact Served.bind (hblock hp.advance.advance (by omega) hb) fun _ _ _ => rfl
      · refine Served.bind (h.fewer hp.advance (by omega) nofun) fun names q hq => ?_
        refine alike_demand fun hb => ?_
        exact Served.bind (hblock hq (by omega) hb) fun _ _ _ => rfl
    | array =>
      have hopened : p.tokens ≠ [] := List.length_pos_iff.mp hm
      exact Served.bind (h.within .elements hp fun _ => hopened) fun _ _ _ => rfl

theorem alike_extend {least : Strength} {left : Expr} (hp : p.Left p.tokens.length)
    (h : Serves call other ⟨.extend least left, p⟩) :
    Alike (Routine.body call (.extend least left)) (Routine.body other (.extend least left)) p := by
  have hextend : ∀ {left : Expr} {q : Parser} {m : Nat}, q.Left m → m < p.tokens.length →
      Alike (call (.extend least left)) (other (.extend least left)) q :=
    fun hq hm => Served.alike (h.fewer hq hm nofun)
  refine alike_next (alike_ite (fun hl => ?_) fun _ => rfl)
  obtain ⟨reader, hr⟩ := Infix.reader_of_lt hl.2
  rw [hr]
  have hend := Infix.ne_end hr
  have hm := hp.two hend
  have hopened : p.advance.tokens ≠ [] := tokens_ne_nil hp.endMark hend
  cases reader with
  | operator =>
    obtain ⟨op, hop⟩ := Infix.operator_iff.mp hr
    rw [hop]
    refine alike_advance (alike_advance ?_)
    refine Served.bind (h.fewer hp.advance.advance (by omega) nofun) fun right q hq => ?_
    exact hextend hq (by omega)
  | call =>
    refine alike_advance (Served.bind (h.fewer hp.advance (by omega) fun _ => hopened) ?_)
    exact fun arguments q hq => hextend hq (by omega)
  | index =>
    refine alike_advance (alike_advance ?_)
    refine Served.bind (h.fewer hp.advance.advance (by omega) nofun) fun position q hq => ?_
    exact alike_demand fun _ => hextend hq.advance (by omega)

theorem alike_items {closing : Token.Kind} (hp : p.Left p.tokens.length) (hopened : p.tokens ≠ [])
    (h : Serves call other ⟨.items closing, p⟩) :
    Alike (Routine.body call (.items closing)) (Routine.body other (.items closing)) p := by
  have hm := List.length_pos_iff.mpr hopened
  refine alike_accept (fun _ => rfl) fun _ => alike_advance ?_
  refine Served.bind (h.fewer hp.advance (by omega) nofun) fun first q hq => ?_
  exact Served.bind (h.fewer hq (by omega) nofun) fun _ _ _ => rfl

theorem alike_moreItems {closing : Token.Kind} (hp : p.Left p.tokens.length)
    (h : Serves call other ⟨.moreItems closing, p⟩) :
    Alike (Routine.body call (.moreItems closing)) (Routine.body other (.moreItems closing)) p := by
  refine alike_accept (fun hk => alike_advance ?_) fun _ => rfl
  have hm := hp.two (by simp [hk])
  refine Served.bind (h.fewer hp.advance.advance (by omega) nofun) fun first q hq => ?_
  exact Served.bind (h.fewer hq (by omega) nofun) fun _ _ _ => rfl

theorem alike_statement (hp : p.Left p.tokens.length) (h : Serves call other ⟨.statement, p⟩) :
    Alike (Routine.body call .statement) (Routine.body other .statement) p := by
  have hvalue : ∀ {q : Parser} {m : Nat}, q.Left m → m ≤ p.tokens.length →
      Served p.tokens.length (call (.expression .lowest)) (other (.expression .lowest)) q :=
    fun hq hm => h.within .value (hq.mono hm) nofun
  refine alike_current ?_
  cases p.current.kind with
  | letWord =>
    refine alike_demand fun _ => alike_current (alike_demand fun _ => alike_advance ?_)
    exact Served.bind (hvalue hp.advance.advance.advance (by omega)) fun _ _ _ => rfl
  | returnWord =>
    refine alike_advance ?_
    exact Served.bind (hvalue hp.advance (by omega)) fun _ _ _ => rfl
  | _ => exact Served.bind (hvalue hp (Nat.le_refl _)) fun _ _ _ => rfl

theorem alike_block (hp : p.Left p.tokens.length) (hopened : p.tokens ≠ [])
    (h : Serves call other ⟨.block, p⟩) :
    Alike (Routine.body call .block) (Routine.body other .block) p := by
  have hm := List.length_pos_iff.mpr hopened
  refine alike_current (alike_advance ?_)
  exact Served.bind (h.fewer hp.advance (by omega) nofun) fun _ _ _ => rfl

theorem alike_statements (hp : p.Left p.tokens.length) (h : Serves call other ⟨.statements, p⟩) :
    Alike (Routine.body call .statements) (Routine.body other .statements) p := by
  refine alike_current ?_
  cases hk : p.current.kind with
  | rightBrace | endOfInput => rfl
  | _ =>
    have hm := hp.pos (by simp [hk])
    refine Served.attempt (h.within .ofStatements hp nofun) fun result q hq => ?_
    cases result with
    | some first =>
      refine alike_advance ?_
      exact Served.bind (h.fewer hq.advance (by omega) nofun) fun _ _ _ => rfl
    | none =>
      refine alike_recover (alike_current (alike_ite (fun _ => rfl) fun _ => alike_advance ?_))
      exact Served.alike (h.fewer hq.recovered.advance (by omega) nofun)

theorem alike_program (hp : p.Left p.tokens.length) (h : Serves call other ⟨.program, p⟩) :
    Alike (Routine.body call .program) (Routine.body other .program) p := by
  refine alike_current (alike_ite (fun _ => rfl) fun hc => ?_)
  have hm := hp.pos hc
  refine Served.attempt (h.within .ofProgram hp nofun) fun result q hq => ?_
  cases result with
  | some first =>
    refine alike_advance ?_
    exact Served.bind (h.fewer hq.advance (by omega) nofun) fun _ _ _ => rfl
  | none =>
    refine alike_recover (alike_advance ?_)
    exact Served.alike (h.fewer hq.recovered.advance (by omega) nofun)

end

/-- What a routine does depends on the calls below it alone. -/
theorem alike_body {call other : Routine.Calls} {frame : Frame} (he : frame.Enters)
    (h : Serves call other frame) :
    Alike (frame.routine.body call) (frame.routine.body other) frame.parser := by
  obtain ⟨routine, p⟩ := frame
  have hp : p.Left p.tokens.length := ⟨he.endMark, Nat.le_refl _⟩
  cases routine with
  | program => exact alike_program hp h
  | statements => exact alike_statements hp h
  | statement => exact alike_statement hp h
  | block => exact alike_block hp (he.opened rfl) h
  | expression least => exact alike_expression hp h
  | operand => exact alike_operand hp h
  | extend least left => exact alike_extend hp h
  | items closing => exact alike_items hp (he.opened rfl) h
  | moreItems closing => exact alike_moreItems hp h
  | parameters => exact alike_parameters hp h

end Parse

end MonkeyLang
