import Mathlib.Logic.Relation
import MonkeyLang.Proofs.Parsing.Append
import MonkeyLang.Proofs.Parsing.Routines

namespace MonkeyLang

namespace Parse

namespace Frame

variable {frame inner outer : Frame} {n m : Nat}

theorem Enters.finishes (he : frame.Enters) (hn : frame.weight ≤ n) :
    Finishes frame.left (frame.routine.run n) frame.parser := by
  obtain ⟨routine, p⟩ := frame
  have hp : p.Left p.tokens.length := ⟨he.endMark, Nat.le_refl _⟩
  have hopened : routine.opens = true → 1 ≤ p.tokens.length :=
    fun ho => List.length_pos_iff.mpr (he.opened ho)
  cases routine with
  | program => exact finishes_program n _ p hp hn
  | statements => exact finishes_statements n _ p hp hn
  | statement => exact finishes_statement n _ p hp hn
  | block => exact finishes_block n _ p hp (hopened rfl) hn
  | expression least => exact finishes_expression n _ least p hp hn
  | operand => exact finishes_operand n _ p hp hn
  | extend least left => exact finishes_extend n _ least left p hp hn
  | items closing => exact finishes_items n _ closing p hp (hopened rfl) hn
  | moreItems closing => exact finishes_moreItems n _ closing p hp hn
  | parameters => exact finishes_parameters n _ p hp hn

/-- Limits that are high enough decide nothing. -/
theorem Enters.alike (he : frame.Enters) (hn : frame.weight ≤ n) (hm : frame.weight ≤ m) :
    Alike (frame.routine.run n) (frame.routine.run m) frame.parser := by
  induction hw : frame.weight using Nat.strong_induction_on generalizing frame n m with
  | h w ih =>
    have hpos := frame.routine.rank_bounds
    have hweight : frame.weight = 8 * frame.left + frame.routine.rank := rfl
    obtain ⟨n, rfl⟩ : ∃ k, n = k + 1 := ⟨n - 1, by omega⟩
    obtain ⟨m, rfl⟩ : ∃ k, m = k + 1 := ⟨m - 1, by omega⟩
    rw [Routine.run_succ, Routine.run_succ]
    refine alike_body he fun inner hi hbelow => ?_
    have hlt := hbelow.weight_lt
    exact ⟨ih _ (hw ▸ hlt) hi (by omega) (by omega) rfl, hi.finishes (by omega)⟩

end Frame

/-- The routine as the parser calls it, with the limit that the tokens left give. -/
def Routine.read (routine : Routine) : Parse routine.Result :=
  fun p => routine.run p.limit p

/-- The calls as the parser makes them, but this one is given up. -/
noncomputable def Frame.withheld (frame : Frame) : Routine.Calls :=
  open Classical in
  fun routine p => if Frame.mk routine p = frame then .error .depth p else routine.read p

/-- The outer call makes the inner one: when this is given up, so is that. -/
def Frame.Makes (outer inner : Frame) : Prop :=
  ∃ after, (outer.routine.body inner.withheld).run outer.parser = .error .depth after

/-- The first call comes to the other, through calls inside one another. -/
def Frame.Leads : Frame → Frame → Prop := Relation.ReflTransGen Makes

/-- One more turn of a loop, or an expression inside another. -/
inductive Routine.Onward : Routine → Routine → Prop where
  | program : Onward program program
  | statements : Onward statements statements
  | extend {least least' : Strength} {left left' : Expr} :
      Onward (extend least left) (extend least' left')
  | moreItems {closing closing' : Token.Kind} : Onward (moreItems closing) (moreItems closing')
  | parameters : Onward parameters parameters
  | ofOperand {least : Strength} : Onward (expression least) operand
  | ofExtend {least least' : Strength} {left : Expr} :
      Onward (expression least) (extend least' left)
  | ofItems {least : Strength} {closing : Token.Kind} : Onward (expression least) (items closing)
  | ofMoreItems {least : Strength} {closing : Token.Kind} :
      Onward (expression least) (moreItems closing)

theorem Routine.Onward.not_within {inner outer : Routine} (h : inner.Onward outer) :
    ¬inner.Within outer := by
  cases h <;> nofun

namespace Frame

variable {frame inner outer : Frame} {n : Nat}

theorem Below.left_lt (h : inner.Below outer) (ho : inner.routine.Onward outer.routine) :
    inner.left < outer.left :=
  h.resolve_right fun hsame => ho.not_within hsame.2

/-- No calls go on below one another for ever. -/
theorem below_wellFounded : WellFounded Below :=
  Subrelation.wf Below.weight_lt (measure weight).wf

theorem weight_le_limit (frame : Frame) : frame.weight ≤ frame.parser.limit := by
  have hrank := frame.routine.rank_bounds
  unfold weight left Parser.limit
  omega

theorem alike_read (frame : Frame) :
    Alike (frame.routine.run frame.parser.limit) frame.routine.read frame.parser := by
  simp only [Alike, EStateM.run, Routine.read]

theorem Enters.finishes_read (he : frame.Enters) :
    Finishes frame.left frame.routine.read frame.parser :=
  Ends.alike (he.finishes frame.weight_le_limit) frame.alike_read

theorem Enters.alike_read (he : frame.Enters) (hn : frame.weight ≤ n) :
    Alike (frame.routine.run n) frame.routine.read frame.parser :=
  frame.alike_read.trans (he.alike hn frame.weight_le_limit)

/-- A call is as the routine does it, when the calls below it are as the parser makes them. -/
theorem Enters.read_eq_body (he : frame.Enters) {call : Routine.Calls}
    (h : ∀ inner : Frame, inner.Enters → inner.Below frame →
      Alike inner.routine.read (call inner.routine) inner.parser) :
    Alike frame.routine.read (frame.routine.body call) frame.parser := by
  have hpos := frame.routine.rank_bounds
  obtain ⟨n, hn⟩ : ∃ n, frame.weight = n + 1 := ⟨frame.weight - 1, by unfold weight; omega⟩
  have hserves : Serves (Routine.run n) call frame := by
    intro inner hi hbelow
    have hlt := hbelow.weight_lt
    have hread := hi.alike_read (n := n) (by omega)
    exact ⟨(h inner hi hbelow).trans hread, hi.finishes (by omega)⟩
  have hbody := alike_body he hserves
  rw [← Routine.run_succ, ← hn] at hbody
  exact hbody.trans (he.alike_read (Nat.le_refl _)).symm

/-- The calls inside a call are below it. -/
theorem Makes.below (h : outer.Makes inner) (he : outer.Enters) :
    inner.Enters ∧ inner.Below outer := by
  by_contra hnot
  obtain ⟨after, hafter⟩ := h
  have hread : Alike outer.routine.read (outer.routine.body inner.withheld) outer.parser := by
    refine he.read_eq_body fun other ho hbelow => ?_
    have hne : other ≠ inner := fun heq => hnot (heq ▸ ⟨ho, hbelow⟩)
    simp only [Alike, EStateM.run, withheld]
    exact if_neg hne
  have hstop := he.finishes_read.of_error (hread.symm.trans hafter)
  exact absurd hstop.1 (by decide)

theorem Leads.enters (h : outer.Leads inner) (he : outer.Enters) : inner.Enters := by
  induction h with
  | refl => exact he
  | tail _ hmakes ih => exact (hmakes.below ih).1

/-- Calls inside one another are no more than the weight of the first. -/
theorem Enters.chain_lt {calls : List Frame} (he : frame.Enters)
    (h : (frame :: calls).IsChain Makes) : calls.length < frame.weight := by
  induction calls generalizing frame with
  | nil =>
    have hrank := frame.routine.rank_bounds
    simp only [List.length_nil, weight]
    omega
  | cons inner calls ih =>
    obtain ⟨hmakes, hrest⟩ := List.isChain_cons_cons.mp h
    obtain ⟨hi, hbelow⟩ := hmakes.below he
    have hlt := hbelow.weight_lt
    have hcalls := ih hi hrest
    rw [List.length_cons]
    omega

end Frame

/-- The run ends where it is, or records an error at the end of the text and goes no further. -/
def Halts {α : Type} (x : Parse α) (p : Parser) : Prop :=
  Ends x p (fun _ q => q = p)
    fun s q => s = .syntaxError ∧ ∃ cause, q = p.record cause p.endMark

theorem Frame.Enters.ends_of_body {frame : Frame} (he : frame.Enters)
    {ok : frame.routine.Result → Parser → Prop} {stop : Parser.Stop → Parser → Prop}
    (h : Ends (frame.routine.body Routine.read) frame.parser ok stop) :
    Ends frame.routine.read frame.parser ok stop :=
  Ends.alike h (he.read_eq_body fun _ _ _ => rfl).symm

/-- The run finds the end of the text where an operand has to stand. -/
def LacksOperand {α : Type} (x : Parse α) (p : Parser) : Prop :=
  Ends x p (fun _ _ => False)
    fun s q => s = .syntaxError ∧ q = p.record (.noOperand .endOfInput) p.endMark

section
variable {α β : Type} {x : Parse α} {p : Parser}

theorem LacksOperand.bind {f : α → Parse β} (h : LacksOperand x p) : LacksOperand (x >>= f) p :=
  ends_bind.2 (Ends.mono h (fun _ _ hf => hf.elim) fun _ _ hs => hs)

theorem LacksOperand.halts (h : LacksOperand x p) : Halts x p :=
  Ends.mono h (fun _ _ hf => hf.elim) fun _ _ hs => ⟨hs.1, _, hs.2⟩

end

section
variable {p : Parser} (ht : p.tokens = [])
include ht

theorem current_at_end : p.current = p.endMark := by
  simp [Parser.current, ht]

theorem next_at_end : p.next = p.endMark := by
  simp [Parser.next, ht]

theorem advance_at_end : p.advance = p := by
  rw [Parser.advance, ht, List.tail_nil, ← ht]

variable (hm : p.endMark.kind = .endOfInput)
include hm

theorem demand_at_end {α : Type} {kind : Token.Kind} {f : Unit → Parse α}
    (hk : kind ≠ .endOfInput) : Halts (demand kind >>= f) p := by
  have hnext := next_at_end ht
  refine ends_bind.2 (ends_demand.2 ⟨fun h => ?_, fun _ => ⟨rfl, ?_⟩⟩)
  · exact absurd (h.symm.trans (hnext ▸ hm)) hk
  · rw [hnext]
    exact ⟨_, rfl⟩

theorem operand_at_end : LacksOperand (Routine.read .operand) p := by
  have he : (Frame.mk .operand p).Enters := ⟨hm, nofun⟩
  refine he.ends_of_body (ends_bind.2 (ends_current.2 ?_))
  rw [current_at_end ht, hm]
  exact ⟨rfl, rfl⟩

theorem expression_at_end (least : Strength) :
    LacksOperand (Routine.read (.expression least)) p := by
  have he : (Frame.mk (.expression least) p).Enters := ⟨hm, nofun⟩
  exact he.ends_of_body (operand_at_end ht hm).bind

end

/-- At the end of the text every routine stops. -/
theorem Frame.Enters.halts {frame : Frame} (he : frame.Enters) (ht : frame.parser.tokens = []) :
    Halts frame.routine.read frame.parser := by
  obtain ⟨routine, p⟩ := frame
  have hm : p.endMark.kind = .endOfInput := he.endMark
  replace ht : p.tokens = [] := ht
  have hcurrent := current_at_end ht
  have hnext := next_at_end ht
  have hbody : Halts (Routine.body Routine.read routine) p → Halts routine.read p := he.ends_of_body
  cases routine with
  | program =>
    refine hbody (ends_bind.2 (ends_current.2 (ends_ite.2 ⟨fun _ => rfl, fun h => ?_⟩)))
    exact absurd (hcurrent ▸ hm) h
  | statements =>
    refine hbody (ends_bind.2 (ends_current.2 ?_))
    rw [hcurrent, hm]
    exact rfl
  | statement =>
    refine hbody (ends_bind.2 (ends_current.2 ?_))
    rw [hcurrent, hm]
    exact (expression_at_end ht hm .lowest).bind.halts
  | block => exact absurd ht (he.opened rfl)
  | expression least => exact (expression_at_end ht hm least).halts
  | operand => exact (operand_at_end ht hm).halts
  | extend least left =>
    refine hbody (ends_bind.2 (ends_next.2 (ends_ite.2 ⟨fun h => ?_, fun _ => rfl⟩)))
    rw [hnext, hm] at h
    exact absurd h.2 (Nat.not_lt_zero _)
  | items closing => exact absurd ht (he.opened rfl)
  | moreItems closing =>
    refine hbody (ends_bind.2 (ends_accept.2 ⟨fun h => ?_, fun _ => ?_⟩))
    · rw [hnext, hm] at h
      cases h
    · exact ends_bind.2 (ends_demand.2
        ⟨fun _ => advance_at_end ht, fun _ => ⟨rfl, _, by rw [hnext]⟩⟩)
  | parameters => exact hbody (demand_at_end ht hm (by decide))

/-- The call ends, with no more tokens left than before. It does what its routine says, whatever is
said of calls that are not below it, and makes only such as are: with fewer tokens left if it is one
more turn of a loop or an expression inside another. At the end of the text it stops. -/
structure Frame.Descends (frame : Frame) : Prop where
  finishes : Finishes frame.left frame.routine.read frame.parser
  agrees : ∀ call : Routine.Calls,
    (∀ inner : Frame, inner.Enters → inner.Below frame →
      Alike inner.routine.read (call inner.routine) inner.parser) →
    Alike frame.routine.read (frame.routine.body call) frame.parser
  below : ∀ inner, frame.Makes inner → inner.Enters ∧ inner.Below frame
  onward : ∀ inner, frame.Makes inner → inner.routine.Onward frame.routine →
    inner.left < frame.left
  halts : frame.parser.tokens = [] → Halts frame.routine.read frame.parser

theorem Frame.Enters.descends {frame : Frame} (he : frame.Enters) : frame.Descends where
  finishes := he.finishes_read
  agrees _ h := he.read_eq_body h
  below _ hmakes := hmakes.below he
  onward _ hmakes := (hmakes.below he).2.left_lt
  halts := he.halts

/-- The program goes on to the end of the text. -/
theorem program_exhausts (n : Nat) : ∀ p,
    Ends (program n) p (fun _ q => q.current.kind = .endOfInput) fun _ _ => True := by
  induction n with
  | zero => exact fun _ => trivial
  | succ n ih =>
    intro p
    rw [program, Body.program]
    refine ends_bind.2 (ends_current.2 (ends_ite.2 ⟨fun hc => hc, fun _ => ?_⟩))
    refine ends_bind.2 (ends_attempt.2 ((ends_somehow _ p).mono ?_ ?_))
    · exact fun s q _ => ends_bind.2 (ends_bind.2 ((ih _).mono (fun _ _ h => h) fun _ _ h => h))
    · exact fun s q _ => ⟨fun _ => ends_bind.2 (ends_bind.2 (ih _)), fun _ => trivial⟩

end Parse

namespace Parser

/-- Recovery goes no further: the statement is given up there, or no token is behind the first. -/
def Rests : List Token → Prop
  | token :: next :: _ => GivesUp token next
  | _ => True

/-- Each turn of recovery leaves one more token behind. -/
theorem abandon_turns : ∀ tokens, ∃ turns, turns ≤ tokens.length - 1 ∧
    abandon tokens = tokens.drop turns ∧ Rests (tokens.drop turns) ∧
    ∀ turn < turns, ¬Rests (tokens.drop turn)
  | [] => ⟨0, Nat.le_refl _, rfl, trivial, nofun⟩
  | [_] => ⟨0, Nat.le_refl _, rfl, trivial, nofun⟩
  | token :: next :: rest => by
    by_cases hgives : GivesUp token next
    · exact ⟨0, Nat.zero_le _, abandon_of_givesUp hgives rest, hgives, nofun⟩
    · obtain ⟨turns, hle, habandon, hrests, hbefore⟩ := abandon_turns (next :: rest)
      refine ⟨turns + 1, ?_, ?_, hrests, ?_⟩
      · simp only [List.length_cons] at hle ⊢
        omega
      · rw [abandon_of_not_givesUp hgives, habandon, List.drop_succ_cons]
      · intro turn hturn
        cases turn with
        | zero => exact hgives
        | succ turn => exact hbefore turn (Nat.lt_of_succ_lt_succ hturn)

end Parser

open Parse

/-- The call with which the parser begins. -/
def Parse.Frame.ofSource (source : String) : Frame :=
  ⟨.program, Parser.ofLexer (Lexer.ofString source)⟩

/-- All tokens of the source have been consumed when the program ends. -/
theorem program_consumes {source : String} {n : Nat} {prog : Program} {after : Parser}
    (hrun : (program n : Parse Program).run (Parser.ofLexer (Lexer.ofString source)) =
      .ok prog after) :
    after.tokens = [] ∧ after.current.kind = .endOfInput := by
  have hcurrent := (program_exhausts n _).of_ok hrun
  have hsuffix := ((obeys_program Parser.reaches_discipline n _).of_ok hrun).tokens
  refine ⟨?_, hcurrent⟩
  cases ht : after.tokens with
  | nil => rfl
  | cons token rest =>
    rw [ht] at hsuffix
    have hmem : token ∈ (Lexer.ofString source).tokens := hsuffix.subset List.mem_cons_self
    have hkind : after.current.kind = token.kind := by simp [Parser.current, ht]
    exact absurd (hkind ▸ hcurrent) (Lexer.tokens_proper _ token hmem).inside

/-- Reading ends for every source, and does so at the end of the text, with all tokens consumed and
whatever the limit if it is high enough. Each call that comes of it descends, where the calls below
one another cannot go on for ever. Calls inside one another are in proportion to the tokens, and
recovery leaves a token behind with each turn. -/
theorem reading_terminates (source : String) :
    let start := Frame.ofSource source
    (∃ after, (∀ n, start.parser.limit ≤ n →
        (program n : Parse Program).run start.parser =
          .ok (Reading.ofSource source).program after) ∧
      after.tokens = [] ∧ after.current.kind = .endOfInput) ∧
    (∀ n (routine : Routine), routine.run (n + 1) = routine.body (Routine.run n)) ∧
    WellFounded Frame.Below ∧
    (∀ frame, start.Leads frame → frame.Descends) ∧
    (∀ calls, (start :: calls).IsChain Frame.Makes →
      (start :: calls).length ≤ 8 * ((Lexer.ofString source).tokens.length + 1)) ∧
    ∀ tokens, ∃ turns, turns ≤ tokens.length - 1 ∧
      Parser.abandon tokens = tokens.drop turns ∧ Parser.Rests (tokens.drop turns) ∧
      ∀ turn < turns, ¬Parser.Rests (tokens.drop turn) := by
  intro start
  have he : start.Enters := ⟨rfl, nofun⟩
  refine ⟨?_, Routine.run_succ, Frame.below_wellFounded,
    fun frame hleads => (hleads.enters he).descends, fun calls hcalls => ?_, Parser.abandon_turns⟩
  · obtain ⟨after, hrun, -⟩ := reading_run_limit source
    refine ⟨after, fun n hn => ?_, program_consumes hrun⟩
    have hweight := start.weight_le_limit
    have halike : (program n : Parse Program).run start.parser =
        (program start.parser.limit : Parse Program).run start.parser :=
      he.alike hweight (Nat.le_trans hweight hn)
    rw [halike]
    exact hrun
  · have hlt := he.chain_lt hcalls
    have hweight : start.weight = 8 * (Lexer.ofString source).tokens.length + 6 := rfl
    rw [List.length_cons]
    omega

end MonkeyLang
