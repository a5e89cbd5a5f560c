import MonkeyLang.Proofs.Evaluation.Spans
import MonkeyLang.Proofs.Parsing.Append
import MonkeyLang.Session

namespace MonkeyLang

open Eval Grammar

/-- No place in particular. -/
def Span.erase (_ : Span) : Span := ⟨0, 0⟩

def Store.withoutSpans (store : Store) : Store := store.mapSpans Span.erase

def Answer.withoutSpans (answer : Answer) : Answer := answer.mapSpans Span.erase

/-- The line has no syntax errors, and no token or a semicolon behind balanced braces. -/
structure ClosedLine (line : String) : Prop where
  errors : (Reading.ofSource line).errors = []
  ends : (Lexer.ofString line).tokens = [] ∨ BracesBalanced (Lexer.ofString line).tokens ∧
    ∃ t, (Lexer.ofString line).tokens.getLast? = some t ∧ t.kind = .semicolon

instance (line : String) : Decidable (ClosedLine line) :=
  decidable_of_iff ((Reading.ofSource line).errors = [] ∧
    ((Lexer.ofString line).tokens = [] ∨ BracesBalanced (Lexer.ofString line).tokens ∧
      (Lexer.ofString line).tokens.getLast?.any fun t => t.kind = .semicolon))
    ⟨fun h => ⟨h.1, by simpa [Option.any_eq_true] using h.2⟩,
      fun h => ⟨h.errors, by simpa [Option.any_eq_true] using h.ends⟩⟩

/-- The programs of the lines one after the other. -/
def linesProgram (lines : List String) : Program :=
  lines.flatMap fun line => (Reading.ofSource line).program

theorem linesProgram_cons (line : String) (lines : List String) :
    linesProgram (line :: lines) = (Reading.ofSource line).program ++ linesProgram lines := by
  rw [linesProgram, List.flatMap_cons, linesProgram]

theorem linesProgram_append (before after : List String) :
    linesProgram (before ++ after) = linesProgram before ++ linesProgram after := by
  rw [linesProgram, List.flatMap_append, linesProgram, linesProgram]

namespace ClosedLine

variable {line : String}

theorem endsClosed (h : ClosedLine line) : EndsClosed (Lexer.ofString line).tokens := by
  intro t ht
  rcases h.ends with hnone | ⟨-, last, hlast, hk⟩
  · simp [hnone] at ht
  · obtain rfl : last = t := Option.some.inj (hlast.symm.trans ht)
    exact hk

theorem balanced (h : ClosedLine line) : BracesBalanced (Lexer.ofString line).tokens := by
  rcases h.ends with hnone | ⟨hb, -⟩
  · rw [hnone]
    decide
  · exact hb

end ClosedLine

/-- A line break before more text leaves the line as it is. -/
theorem reading_line_break {line : String} (h : ClosedLine line) (rest : String) :
    Reading.ofSource (line ++ "\n" ++ rest) = (Reading.ofSource line).append
      ((Reading.ofSource rest).mapSpans (Span.shift (byteLength (line ++ "\n").toList))) := by
  have hbreak : (Lexer.ofString "\n").tokens = [] := by decide +kernel
  have htokens : (Lexer.ofString (line ++ "\n")).tokens = (Lexer.ofString line).tokens := by
    rw [Lexer.tokens_append h.endsClosed, hbreak, List.map_nil, List.append_nil]
  have hline : Reading.ofSource (line ++ "\n") = Reading.ofSource line := by
    rw [reading_behind h.endsClosed h.balanced, reading_of_no_tokens hbreak]
    simp [Reading.append, Reading.mapSpans, Program.mapSpans, Stmt.mapAllSpans]
  have hc : EndsClosed (Lexer.ofString (line ++ "\n")).tokens := htokens ▸ h.endsClosed
  have hb : BracesBalanced (Lexer.ofString (line ++ "\n")).tokens := htokens ▸ h.balanced
  rw [reading_behind hc hb, hline]

/-- Joined lines have no syntax errors and the statements of all lines, up to their spans. -/
theorem reading_lines (lines : List String) (hl : ∀ line ∈ lines, ClosedLine line) :
    (Reading.ofSource ("\n".intercalate lines)).errors = [] ∧
      (Reading.ofSource ("\n".intercalate lines)).program.mapSpans Span.erase =
        (linesProgram lines).mapSpans Span.erase := by
  induction lines with
  | nil =>
    have hnone : (Lexer.ofString "").tokens = [] := by decide +kernel
    rw [String.intercalate_nil, reading_of_no_tokens hnone]
    exact ⟨rfl, rfl⟩
  | cons line lines ih =>
    have hline := hl line (by simp)
    cases lines with
    | nil => simp [linesProgram, hline.errors]
    | cons next rest =>
      obtain ⟨herrors, hprogram⟩ := ih fun line h => hl line (List.mem_cons_of_mem _ h)
      rw [String.intercalate_cons_cons, reading_line_break hline]
      simp only [Reading.append, Reading.mapSpans]
      have hmoved : ∀ (bytes : Nat) (program : Program),
          (program.mapSpans (Span.shift bytes)).mapSpans Span.erase =
            program.mapSpans Span.erase :=
        fun bytes program => Stmt.mapAllSpans_mapAllSpans (Span.shift bytes) Span.erase program
      refine ⟨by simp [hline.errors, herrors], ?_⟩
      rw [linesProgram_cons, Program.mapSpans_append, Program.mapSpans_append, hmoved, hprogram]

namespace Eval

/-- A program and another behind it: the value is that of the second, if it has a statement. -/
theorem runProgram_append (call : Call) (scope : ScopeId) (behind : Program) :
    ∀ program : Program, runProgram call scope (program ++ behind) = do
      let value ← runProgram call scope program
      if behind.isEmpty then return value else runProgram call scope behind
  | [] => by
    cases behind with
    | nil => simp [runProgram]
    | cons s rest => simp [runProgram]
  | [s] => by
    cases behind with
    | nil => simp
    | cons next rest =>
      rw [List.cons_append, List.nil_append, runProgram, runProgram, bind_assoc]
      simp
  | s :: next :: rest => by
    have ih := runProgram_append call scope behind (next :: rest)
    rw [List.cons_append] at ih
    rw [List.cons_append, List.cons_append, runProgram, runProgram, ih, bind_assoc]

end Eval

namespace Session

/-- The evaluation of the line is stopped, by a `return` or by a runtime error. -/
def stopped (limit : Nat) (session : Session) (line : String) : Bool :=
  match EStateM.run (runProgram (invoke limit) session.scope (Reading.ofSource line).program)
    session.store with
  | .ok _ _ => false
  | .error _ _ => true

def evalLines (limit : Nat) (session : Session) (lines : List String) : Session :=
  lines.foldl (fun session line => (session.evalLine limit line).2) session

/-- The lines up to the first that is stopped, that one with them. -/
def untilStop (limit : Nat) : Session → List String → List String
  | _, [] => []
  | session, line :: lines =>
    if session.stopped limit line then [line]
    else line :: untilStop limit (session.evalLine limit line).2 lines

/-- None of the lines is stopped when they are fed one by one. -/
def RunsThrough (limit : Nat) (session : Session) (lines : List String) : Prop :=
  ∀ before line after, lines = before ++ line :: after →
    (session.evalLines limit before).stopped limit line = false

variable {limit : Nat} {session : Session} {line : String} {lines : List String}

theorem evalLines_cons (session : Session) (line : String) (lines : List String) :
    session.evalLines limit (line :: lines) =
      (session.evalLine limit line).2.evalLines limit lines := by
  rw [evalLines, List.foldl_cons, evalLines]

theorem evalLines_append (before after : List String) :
    session.evalLines limit (before ++ after) =
      (session.evalLines limit before).evalLines limit after := by
  rw [evalLines, List.foldl_append, evalLines, evalLines]

theorem RunsThrough.cons (h : session.RunsThrough limit (line :: lines)) :
    session.stopped limit line = false ∧
      (session.evalLine limit line).2.RunsThrough limit lines := by
  refine ⟨h [] line lines rfl, fun before next after heq => ?_⟩
  have hnext := h (line :: before) next after (by rw [heq, List.cons_append])
  rwa [evalLines_cons] at hnext

theorem runsThrough_cons (hline : session.stopped limit line = false)
    (h : (session.evalLine limit line).2.RunsThrough limit lines) :
    session.RunsThrough limit (line :: lines) := by
  intro before next after heq
  cases before with
  | nil =>
    obtain ⟨rfl, -⟩ := List.cons.inj heq
    exact hline
  | cons first before =>
    obtain ⟨rfl, hrest⟩ := List.cons.inj heq
    rw [evalLines_cons]
    exact h before next after hrest

/-- A line without syntax errors is run as a program. -/
theorem evalLine_of_no_errors (he : (Reading.ofSource line).errors = []) :
    session.evalLine limit line =
      (.answer ((Reading.ofSource line).program.run limit session.scope session.store).1,
        ⟨session.scope,
          ((Reading.ofSource line).program.run limit session.scope session.store).2⟩) := by
  simp [evalLine, he]

theorem evalLines_scope (limit : Nat) (session : Session) (lines : List String) :
    (session.evalLines limit lines).scope = session.scope := by
  induction lines generalizing session with
  | nil => rfl
  | cons line lines ih =>
    have hline : (session.evalLine limit line).2.scope = session.scope := by
      simp only [evalLine]
      split <;> rfl
    rw [evalLines_cons, ih, hline]

/-- The result of the line's program in the session. -/
def result (limit : Nat) (session : Session) (program : Program) :
    EStateM.Result Exit Store (Option Value) :=
  EStateM.run (runProgram (invoke limit) session.scope program) session.store

theorem stopped_eq_true_iff : session.stopped limit line = true ↔
    ∃ exit after, session.result limit (Reading.ofSource line).program = .error exit after := by
  unfold stopped result
  rcases EStateM.run (runProgram (invoke limit) session.scope (Reading.ofSource line).program)
    session.store with ⟨value, after⟩ | ⟨exit, after⟩ <;> simp

theorem stopped_eq_false_iff : session.stopped limit line = false ↔
    ∃ value after, session.result limit (Reading.ofSource line).program = .ok value after := by
  unfold stopped result
  rcases EStateM.run (runProgram (invoke limit) session.scope (Reading.ofSource line).program)
    session.store with ⟨value, after⟩ | ⟨exit, after⟩ <;> simp

theorem result_append (p q : Program) : session.result limit (p ++ q) =
    match session.result limit p with
    | .ok value after =>
      if q.isEmpty then .ok value after else (⟨session.scope, after⟩ : Session).result limit q
    | .error exit after => .error exit after := by
  unfold result
  rw [runProgram_append, EStateM.run_bind]
  rcases EStateM.run (runProgram (invoke limit) session.scope p) session.store with
    ⟨value, after⟩ | ⟨exit, after⟩
  · cases q <;> rfl
  · rfl

/-- What a run answers and leaves behind shows in its result alone. -/
theorem run_of_result {session' : Session} {p q : Program}
    (h : session.result limit p = session'.result limit q) :
    p.run limit session.scope session.store = q.run limit session'.scope session'.store := by
  have hrun : ∀ (program : Program) (session : Session),
      runProgram (invoke limit) session.scope program session.store =
        session.result limit program := fun _ _ => rfl
  unfold Program.run
  rw [hrun, hrun, h]

theorem run_store_of_ok {p : Program} {value : Option Value} {after : Store}
    (h : session.result limit p = .ok value after) :
    (p.run limit session.scope session.store).2 = after := by
  have hrun : runProgram (invoke limit) session.scope p session.store = .ok value after := h
  unfold Program.run
  rw [hrun]
  cases value <;> rfl

/-- Lines that are not stopped leave behind what their programs leave behind together. -/
theorem RunsThrough.result (hl : ∀ line ∈ lines, (Reading.ofSource line).errors = [])
    (h : session.RunsThrough limit lines) : ∃ value,
      session.result limit (linesProgram lines) =
        .ok value (session.evalLines limit lines).store := by
  induction lines generalizing session with
  | nil => exact ⟨none, rfl⟩
  | cons line lines ih =>
    obtain ⟨hline, hlines⟩ := h.cons
    obtain ⟨value, after, hresult⟩ := stopped_eq_false_iff.mp hline
    have hafter : (session.evalLine limit line).2 = ⟨session.scope, after⟩ := by
      rw [evalLine_of_no_errors (hl line (by simp)), run_store_of_ok hresult]
    obtain ⟨last, hrest⟩ := ih (fun line h => hl line (List.mem_cons_of_mem _ h)) hlines
    have hall : session.evalLines limit (line :: lines) =
      (⟨session.scope, after⟩ : Session).evalLines limit lines := by rw [evalLines_cons, hafter]
    rw [hafter] at hrest
    rw [linesProgram_cons, result_append, hresult, hall]
    cases hp : linesProgram lines with
    | nil =>
      rw [hp] at hrest
      obtain ⟨-, hstore⟩ := EStateM.Result.ok.inj hrest
      exact ⟨value, by simp [← hstore]⟩
    | cons s rest =>
      rw [hp] at hrest
      exact ⟨last, by simpa using hrest⟩

/-- Behind lines that are not stopped, the program of all lines goes on as that of the others. -/
theorem RunsThrough.behind {rest : List String}
    (hl : ∀ line ∈ lines, (Reading.ofSource line).errors = [])
    (h : session.RunsThrough limit lines) (hne : linesProgram rest ≠ []) :
    session.result limit (linesProgram (lines ++ rest)) =
      (session.evalLines limit lines).result limit (linesProgram rest) := by
  obtain ⟨value, hresult⟩ := h.result hl
  have hsession : session.evalLines limit lines =
      ⟨session.scope, (session.evalLines limit lines).store⟩ := by
    rw [← evalLines_scope limit session lines]
  have hempty : (linesProgram rest).isEmpty = false := by simpa using hne
  rw [linesProgram_append, result_append, hresult, hsession]
  simp [hempty]

/-- Where a line has statements, is run behind lines that are not stopped, and nothing is run behind
it, all lines together answer and leave behind what it does. -/
theorem RunsThrough.ends {before after : List String}
    (hl : ∀ line ∈ before, (Reading.ofSource line).errors = [])
    (h : session.RunsThrough limit before) (hne : (Reading.ofSource line).program ≠ [])
    (hend : (session.evalLines limit before).stopped limit line = true ∨ linesProgram after = []) :
    (linesProgram (before ++ line :: after)).run limit session.scope session.store =
      (Reading.ofSource line).program.run limit (session.evalLines limit before).scope
        (session.evalLines limit before).store := by
  have hrest : linesProgram (line :: after) ≠ [] := by simp [linesProgram_cons, hne]
  have hall := h.behind hl hrest
  have hline : (session.evalLines limit before).result limit (linesProgram (line :: after)) =
      (session.evalLines limit before).result limit (Reading.ofSource line).program := by
    rw [linesProgram_cons]
    rcases hend with hs | hnone
    · obtain ⟨exit, stop, hresult⟩ := stopped_eq_true_iff.mp hs
      rw [result_append, hresult]
    · rw [hnone, List.append_nil]
  exact run_of_result (hall.trans hline)

/-- Either no line is stopped, or there is a first one that is. -/
theorem untilStop_cases (limit : Nat) (session : Session) (lines : List String) :
    session.RunsThrough limit lines ∧ session.untilStop limit lines = lines ∨
      ∃ before line after, lines = before ++ line :: after ∧ session.RunsThrough limit before ∧
        (session.evalLines limit before).stopped limit line = true ∧
        session.untilStop limit lines = before ++ [line] := by
  induction lines generalizing session with
  | nil => exact .inl ⟨fun before line after h => by simp at h, rfl⟩
  | cons line lines ih =>
    have hnone : session.RunsThrough limit [] := fun before line after h => by simp at h
    rw [untilStop]
    by_cases hs : session.stopped limit line = true
    · exact .inr ⟨[], line, lines, rfl, hnone, hs, by rw [if_pos hs]; rfl⟩
    · have hline : session.stopped limit line = false := by simpa using hs
      rw [if_neg hs]
      rcases ih (session.evalLine limit line).2 with
        ⟨hruns, heq⟩ | ⟨before, stop, after, rfl, hruns, hstop, heq⟩
      · exact .inl ⟨runsThrough_cons hline hruns, by rw [heq]⟩
      · have hfed : line :: (session.evalLine limit line).2.untilStop limit
            (before ++ stop :: after) = line :: before ++ [stop] := by rw [heq]; rfl
        rw [← evalLines_cons] at hstop
        exact .inr ⟨line :: before, stop, after, rfl, runsThrough_cons hline hruns, hstop, hfed⟩

theorem program_of_stopped (h : session.stopped limit line = true) :
    (Reading.ofSource line).program ≠ [] := by
  intro hnone
  obtain ⟨exit, after, hresult⟩ := stopped_eq_true_iff.mp h
  rw [hnone] at hresult
  cases hresult

/-- What the lines leave behind together, those up to the first that is stopped leave behind one by
one. -/
theorem lines_store (limit : Nat) (session : Session)
    (hl : ∀ line ∈ lines, (Reading.ofSource line).errors = []) :
    ((linesProgram lines).run limit session.scope session.store).2 =
      (session.evalLines limit (session.untilStop limit lines)).store := by
  rcases untilStop_cases limit session lines with
    ⟨hruns, heq⟩ | ⟨before, line, after, rfl, hruns, hs, heq⟩
  · obtain ⟨value, hresult⟩ := hruns.result hl
    rw [heq, run_store_of_ok hresult]
  · have hbefore : ∀ next ∈ before, (Reading.ofSource next).errors = [] :=
      fun next h => hl next (by simp [h])
    have hline : (session.evalLines limit (before ++ [line])) =
        ((session.evalLines limit before).evalLine limit line).2 := by
      rw [evalLines_append, evalLines_cons]
      rfl
    rw [heq, hruns.ends hbefore (program_of_stopped hs) (.inl hs), hline,
      evalLine_of_no_errors (hl line (by simp))]

/-- The line that is stopped answers as all lines do together. -/
theorem lines_stopped {before : List String}
    (hl : ∀ line ∈ lines, (Reading.ofSource line).errors = [])
    (hfed : session.untilStop limit lines = before ++ [line])
    (hs : (session.evalLines limit before).stopped limit line = true) :
    ((session.evalLines limit before).evalLine limit line).1 =
      .answer ((linesProgram lines).run limit session.scope session.store).1 := by
  rcases untilStop_cases limit session lines with
    ⟨hruns, heq⟩ | ⟨front, stop, after, rfl, hruns, -, heq⟩
  · have hnot := hruns before line [] (heq.symm.trans hfed)
    rw [hs] at hnot
    cases hnot
  · obtain ⟨rfl, hlast⟩ := List.append_inj' (heq.symm.trans hfed) rfl
    obtain rfl : stop = line := by simpa using hlast
    have hfront : ∀ next ∈ front, (Reading.ofSource next).errors = [] :=
      fun next h => hl next (by simp [h])
    rw [hruns.ends hfront (program_of_stopped hs) (.inl hs),
      evalLine_of_no_errors (hl stop (by simp))]

/-- The last line with a statement answers as all lines do together if none is stopped. -/
theorem lines_last {before after : List String}
    (hl : ∀ next ∈ before ++ line :: after, (Reading.ofSource next).errors = [])
    (hruns : session.RunsThrough limit before) (hne : (Reading.ofSource line).program ≠ [])
    (hnone : linesProgram after = []) :
    ((session.evalLines limit before).evalLine limit line).1 =
      .answer
        ((linesProgram (before ++ line :: after)).run limit session.scope session.store).1 := by
  have hbefore : ∀ next ∈ before, (Reading.ofSource next).errors = [] :=
    fun next h => hl next (by simp [h])
  rw [hruns.ends hbefore hne (.inr hnone), evalLine_of_no_errors (hl line (by simp))]

theorem RunsThrough.front {before after : List String}
    (h : session.RunsThrough limit (before ++ after)) : session.RunsThrough limit before := by
  rintro front line behind rfl
  exact h front line (behind ++ after) (by simp)

/-- The response is this answer, up to the spans in it. -/
def Response.Agrees (response : Response) (answer : Answer) : Prop :=
  ∃ given, response = .answer given ∧ given.withoutSpans = answer.withoutSpans

end Session

theorem linesProgram_of_no_tokens {lines : List String}
    (h : ∀ line ∈ lines, (Lexer.ofString line).tokens = []) : linesProgram lines = [] := by
  apply List.flatMap_eq_nil_iff.mpr
  intro line hm
  rw [reading_of_no_tokens (h line hm)]

/-- A session agrees with the run of a program. Closed lines, fed one by one up to the first that is
stopped, leave behind what all of them leave behind as one program in a fresh environment, up to the
spans in the bodies of functions. That program answers what the line that was stopped answers, or
else what the last line with a token does, and nothing if there is none. -/
theorem session_agrees_with_program (limit : Nat) (lines : List String)
    (hl : ∀ line ∈ lines, ClosedLine line) :
    (Reading.ofSource ("\n".intercalate lines)).errors = [] ∧
      ∀ answer store, (Reading.ofSource ("\n".intercalate lines)).program.run limit Store.fresh.1
          Store.fresh.2 = (answer, store) →
        (Session.start.evalLines limit (Session.start.untilStop limit lines)).scope =
            Store.fresh.1 ∧
          (Session.start.evalLines limit
            (Session.start.untilStop limit lines)).store.withoutSpans = store.withoutSpans ∧
          (∀ before line, Session.start.untilStop limit lines = before ++ [line] →
            (Session.start.evalLines limit before).stopped limit line = true →
            ((Session.start.evalLines limit before).evalLine limit line).1.Agrees answer) ∧
          (Session.start.RunsThrough limit lines →
            ((∀ line ∈ lines, (Lexer.ofString line).tokens = []) → answer = .none) ∧
            ∀ before line after, lines = before ++ line :: after →
              (Lexer.ofString line).tokens ≠ [] →
              (∀ next ∈ after, (Lexer.ofString next).tokens = []) →
              ((Session.start.evalLines limit before).evalLine limit line).1.Agrees answer) := by
  have hno : ∀ line ∈ lines, (Reading.ofSource line).errors = [] :=
    fun line h => (hl line h).errors
  obtain ⟨herrors, hprogram⟩ := reading_lines lines hl
  refine ⟨herrors, fun answer store hwhole => ?_⟩
  have hboth : ((linesProgram lines).run limit Store.fresh.1 Store.fresh.2).1.withoutSpans =
        answer.withoutSpans ∧
      ((linesProgram lines).run limit Store.fresh.1 Store.fresh.2).2.withoutSpans =
        store.withoutSpans := by
    have h := Program.run_mapSpans Span.erase limit (linesProgram lines) Store.fresh.1
      Store.fresh.2
    rw [← hprogram, Program.run_mapSpans, hwhole] at h
    exact ⟨(congrArg Prod.fst h).symm, (congrArg Prod.snd h).symm⟩
  obtain ⟨hanswer, hstore⟩ := hboth
  refine ⟨Session.evalLines_scope _ _ _, ?_, ?_, fun hruns => ⟨?_, ?_⟩⟩
  · rw [← hstore, ← Session.lines_store limit Session.start hno]
    rfl
  · intro before line hfed hs
    exact ⟨_, Session.lines_stopped hno hfed hs, hanswer⟩
  · intro hnone
    rw [linesProgram_of_no_tokens hnone] at hanswer
    cases answer with
    | none => rfl
    | value v => cases hanswer
    | tooDeep => cases hanswer
  · rintro before line after rfl htokens hafter
    have hne : (Reading.ofSource line).program ≠ [] :=
      fun h => htokens (tokens_of_no_program (hno line (by simp)) h)
    exact ⟨_, Session.lines_last hno hruns.front hne (linesProgram_of_no_tokens hafter), hanswer⟩

/-- A function from one line that returns in another, a blank line, and a `return` before a line
that is not reached. -/
def returningLines : List String :=
  ["let f = fn(x) { if (x) { return fn(y) { x + y; }; } };", " ", "let g = f(1);", "return g(2);",
    "let f = 0;"]

theorem session_agrees_returning :
    (∀ line ∈ returningLines, ClosedLine line) ∧
      Session.start.untilStop callLimit returningLines = returningLines.take 4 ∧
      (Session.start.evalLines callLimit (returningLines.take 4)).store.withoutSpans =
        ((Reading.ofSource ("\n".intercalate returningLines)).program.run callLimit
          Store.fresh.1 Store.fresh.2).2.withoutSpans := by
  have hl : ∀ line ∈ returningLines, ClosedLine line := by decide +kernel
  have hfed : Session.start.untilStop callLimit returningLines = returningLines.take 4 := by
    decide +kernel
  have hagrees := ((session_agrees_with_program callLimit returningLines hl).2 _ _
    (Prod.eta _).symm).2.1
  rw [hfed] at hagrees
  exact ⟨hl, hfed, hagrees⟩

end MonkeyLang
