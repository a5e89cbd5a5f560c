import MonkeyLang.Proofs.Command.Agreement
import MonkeyLang.Proofs.Session.Lines

namespace MonkeyLang

/-- The items that are marked. -/
def selected {α : Type} : List Bool → List α → List α
  | true :: marks, a :: items => a :: selected marks items
  | false :: marks, _ :: items => selected marks items
  | _, _ => []

namespace Session

instance : (response : Response) → Decidable (response = .answer .tooDeep)
  | .answer .tooDeep => isTrue rfl
  | .answer (.value _) | .answer .none | .syntaxErrors _ => isFalse nofun

/-- The responses to lines that are fed one by one. -/
def responses (limit : Nat) : Session → List String → List Response
  | _, [] => []
  | session, line :: lines =>
    (session.evalLine limit line).1 :: responses limit (session.evalLine limit line).2 lines

/-- The prompt and the response for each line. -/
def dialogue (prompt : String) (responses : List Response) : String :=
  String.join (responses.map fun response => prompt ++ response.text)

/-- The first lines of the input are these texts, each of them is answered within the limit on
nested calls, and `rest` is left of the input. -/
structure Answers (limit : Nat) (session : Session) (lines : List (List UInt8))
    (texts : List String) (rest : List (List UInt8)) : Prop where
  lines : ∃ front, lines = front ++ rest ∧ front.map Text.decode? = texts.map some
  answered : ∀ response ∈ session.responses limit texts, response ≠ .answer .tooDeep

variable {limit : Nat} {prompt : String} {session : Session} {line : List UInt8} {text : String}
  {texts : List String} {lines rest : List (List UInt8)}

theorem converse_unreadable (h : Text.decode? line = none) :
    session.converse limit prompt (line :: lines) = ⟨prompt, .unreadable, session⟩ := by
  rw [converse, h]

theorem converse_tooDeep (h : Text.decode? line = some text)
    (hd : (session.evalLine limit text).1 = .answer .tooDeep) :
    session.converse limit prompt (line :: lines) =
      ⟨prompt, .tooDeep, (session.evalLine limit text).2⟩ := by
  obtain ⟨response, after, heval⟩ : ∃ response after, session.evalLine limit text =
    (response, after) := ⟨_, _, rfl⟩
  rw [heval] at hd ⊢
  obtain rfl : response = .answer .tooDeep := hd
  simp only [converse, h, heval]

theorem converse_answer (h : Text.decode? line = some text)
    (hd : (session.evalLine limit text).1 ≠ .answer .tooDeep) :
    session.converse limit prompt (line :: lines) =
      { (session.evalLine limit text).2.converse limit prompt lines with
        output := prompt ++ (session.evalLine limit text).1.text ++
          ((session.evalLine limit text).2.converse limit prompt lines).output } := by
  rw [converse, h]
  dsimp only
  split
  · next after heval =>
    rw [heval] at hd
    exact absurd rfl hd
  · next response after _ heval =>
    rw [heval]

/-- Behind lines that are answered the session goes on with what is left of the input. -/
theorem Answers.converse (h : session.Answers limit lines texts rest) :
    session.converse limit prompt lines =
      { (session.evalLines limit texts).converse limit prompt rest with
        output := dialogue prompt (session.responses limit texts) ++
          ((session.evalLines limit texts).converse limit prompt rest).output } := by
  obtain ⟨⟨front, rfl, hfront⟩, hanswered⟩ := h
  induction texts generalizing session front with
  | nil =>
    obtain rfl : front = [] := List.map_eq_nil_iff.mp hfront
    simp [dialogue, responses, evalLines]
  | cons text texts ih =>
    obtain ⟨line, front, rfl, hline, hfront⟩ := List.map_eq_cons_iff.mp hfront
    obtain ⟨hfirst, hothers⟩ := List.forall_mem_cons.mp hanswered
    have hrest := ih hothers front hfront
    rw [List.cons_append, converse_answer hline hfirst, hrest, evalLines_cons]
    simp [dialogue, responses, String.join_cons, String.append_assoc]

/-- All lines of an input are answered, or there is a first that is not. -/
theorem exists_answers (limit : Nat) (session : Session) (lines : List (List UInt8)) :
    ∃ texts rest, session.Answers limit lines texts rest ∧
      (rest = [] ∨ ∃ line after, rest = line :: after ∧ (Text.decode? line = none ∨
        ∃ text, Text.decode? line = some text ∧
          ((session.evalLines limit texts).evalLine limit text).1 = .answer .tooDeep)) := by
  induction lines generalizing session with
  | nil => exact ⟨[], [], ⟨⟨[], rfl, rfl⟩, by simp [responses]⟩, .inl rfl⟩
  | cons line lines ih =>
    have hnone : session.Answers limit (line :: lines) [] (line :: lines) :=
      ⟨⟨[], rfl, rfl⟩, by simp [responses]⟩
    cases hline : Text.decode? line with
    | none => exact ⟨[], _, hnone, .inr ⟨line, lines, rfl, .inl hline⟩⟩
    | some text =>
      by_cases hd : (session.evalLine limit text).1 = .answer .tooDeep
      · exact ⟨[], _, hnone, .inr ⟨line, lines, rfl, .inr ⟨text, hline, hd⟩⟩⟩
      · obtain ⟨texts, rest, ⟨⟨front, rfl, hfront⟩, hanswered⟩, hstuck⟩ :=
          ih (session.evalLine limit text).2
        refine ⟨text :: texts, rest, ⟨⟨line :: front, rfl, ?_⟩, ?_⟩, ?_⟩
        · rw [List.map_cons, List.map_cons, hline, hfront]
        · exact List.forall_mem_cons.mpr ⟨hd, hanswered⟩
        · rwa [evalLines_cons]

/-- A line with syntax errors is answered with them and changes nothing. -/
theorem evalLine_of_errors {line : String} (h : (Reading.ofSource line).errors ≠ []) :
    session.evalLine limit line = (.syntaxErrors (Reading.ofSource line).errors, session) := by
  simp [evalLine, h]

/-- What is written for a line, and the session behind it: a line with a value, runtime errors
among them, has its text, one without has none, and syntax errors are told one by one. -/
inductive Replies (limit : Nat) (session : Session) (line : String) : String → Session → Prop where
  | value {value : Value} {store : Store} (hn : (Reading.ofSource line).errors = [])
    (hr : (Reading.ofSource line).program.run limit session.scope session.store =
      (.value value, store)) : Replies limit session line (value.inspect ++ "\n")
        ⟨session.scope, store⟩
  | nothing {store : Store} (hn : (Reading.ofSource line).errors = [])
    (hr : (Reading.ofSource line).program.run limit session.scope session.store =
      (.none, store)) : Replies limit session line "" ⟨session.scope, store⟩
  | errors (he : (Reading.ofSource line).errors ≠ []) : Replies limit session line
      (String.join
        ((Reading.ofSource line).errors.map fun error => "\t" ++ error.message ++ "\t\n"))
      session

theorem evalLine_replies {line : String}
    (hd : (session.evalLine limit line).1 ≠ .answer .tooDeep) :
    session.Replies limit line (session.evalLine limit line).1.text
      (session.evalLine limit line).2 := by
  by_cases he : (Reading.ofSource line).errors = []
  · obtain ⟨answer, store, hr⟩ : ∃ answer store, (Reading.ofSource line).program.run limit
      session.scope session.store = (answer, store) := ⟨_, _, rfl⟩
    rw [evalLine_of_no_errors he, hr] at hd ⊢
    cases answer with
    | value value => exact .value he hr
    | none => exact .nothing he hr
    | tooDeep => exact absurd rfl hd
  · have hlines : (fun error : SyntaxError => error.line ++ "\n") =
        fun error => "\t" ++ error.message ++ "\t\n" := by
      funext error
      rw [SyntaxError.line, String.append_assoc]
      rfl
    rw [evalLine_of_errors he]
    simp only [Response.text, hlines]
    exact .errors he

/-- Lines with syntax errors may be left out. -/
theorem responses_selected {marks : List Bool} {lines : List String}
    (h : List.Forall₂ (fun mark line => mark = false → (Reading.ofSource line).errors ≠ [])
      marks lines) (session : Session) :
    session.responses limit (selected marks lines) =
        selected marks (session.responses limit lines) ∧
      session.evalLines limit (selected marks lines) = session.evalLines limit lines := by
  induction h generalizing session with
  | nil => exact ⟨rfl, rfl⟩
  | @cons mark line marks lines hline _ ih =>
    obtain ⟨hresponses, hsession⟩ := ih (session.evalLine limit line).2
    cases mark with
    | true =>
      simp only [selected, responses, evalLines_cons]
      exact ⟨by rw [hresponses], hsession⟩
    | false =>
      have hsame : (session.evalLine limit line).2 = session := by
        rw [evalLine_of_errors (hline rfl)]
      rw [hsame] at hresponses hsession
      simp only [selected, responses, evalLines_cons, hsame]
      exact ⟨hresponses, hsession⟩

/-- A session is the fold of its lines. It writes the prompt and the response for each line that is
answered, and a last prompt. A line that is not UTF-8 ends it, and so does one whose calls are
nested too deeply, and nothing behind such a line is evaluated. A line with syntax errors changes
nothing, so that leaving out any of them changes no other response. -/
theorem conversation_folds_lines (limit : Nat) (prompt : String) (session : Session) :
    (∀ input texts rest, session.Answers limit (Text.inputLines input) texts rest →
      (rest = [] → session.converse limit prompt (Text.inputLines input) =
        ⟨dialogue prompt (session.responses limit texts) ++ prompt, .finished,
          session.evalLines limit texts⟩) ∧
      (∀ line behind, rest = line :: behind → Text.decode? line = none →
        session.converse limit prompt (Text.inputLines input) =
          ⟨dialogue prompt (session.responses limit texts) ++ prompt, .unreadable,
            session.evalLines limit texts⟩) ∧
      ∀ line text behind, rest = line :: behind → Text.decode? line = some text →
        ((session.evalLines limit texts).evalLine limit text).1 = .answer .tooDeep →
        session.converse limit prompt (Text.inputLines input) =
          ⟨dialogue prompt (session.responses limit texts) ++ prompt, .tooDeep,
            ((session.evalLines limit texts).evalLine limit text).2⟩) ∧
    (∀ input, ∃ texts rest, session.Answers limit (Text.inputLines input) texts rest ∧
      (rest = [] ∨ ∃ line behind, rest = line :: behind ∧ (Text.decode? line = none ∨
        ∃ text, Text.decode? line = some text ∧
          ((session.evalLines limit texts).evalLine limit text).1 = .answer .tooDeep))) ∧
    (∀ line, (session.evalLine limit line).1 ≠ .answer .tooDeep → session.Replies limit line
      (session.evalLine limit line).1.text (session.evalLine limit line).2) ∧
    (∀ line, (Reading.ofSource line).errors ≠ [] → (session.evalLine limit line).2 = session) ∧
    ∀ marks lines, List.Forall₂ (fun mark line => mark = false →
        (Reading.ofSource line).errors ≠ []) marks lines →
      session.responses limit (selected marks lines) =
          selected marks (session.responses limit lines) ∧
        session.evalLines limit (selected marks lines) = session.evalLines limit lines := by
  refine ⟨fun input texts rest h => ?_, fun input => exists_answers limit session _,
    fun line => evalLine_replies, fun line he => ?_,
    fun marks lines h => responses_selected h session⟩
  · rw [h.converse]
    refine ⟨?_, ?_, ?_⟩
    · rintro rfl
      rfl
    · rintro line behind rfl hnone
      rw [converse_unreadable hnone]
    · rintro line text behind rfl hline hd
      rw [converse_tooDeep hline hd]
  · rw [evalLine_of_errors he]

/-- A name that is not bound yet, a line with a syntax error, and then a byte that no text has. -/
def recoveringInput : List UInt8 :=
  bytesOf "foo\nlet = 1\r\nlet foo = 3;\nfoo + 1\n" ++ 255 :: 10 :: bytesOf "foo"

theorem conversation_folds_recovering : ∃ texts line behind,
    Session.start.Answers callLimit (Text.inputLines recoveringInput) texts (line :: behind) ∧
      Text.decode? line = none ∧
      List.Forall₂ (fun mark line => mark = false → (Reading.ofSource line).errors ≠ [])
        [true, false, true, true] texts ∧
      (Session.start.converse callLimit ">> " (Text.inputLines recoveringInput)).output =
        ">> ERROR: identifier not found: foo\n>> \tnext token error. " ++
          "expected=\x60Identifier\x60, actual=\x60=\x60\t\n>> >> 4\n>> " ∧
      (Session.start.responses callLimit (selected [true, false, true, true] texts)).map
        Response.text = ["ERROR: identifier not found: foo\n", "", "4\n"] := by
  obtain ⟨texts, htexts⟩ : ∃ texts, texts = ["foo", "let = 1", "let foo = 3;", "foo + 1"] :=
    ⟨_, rfl⟩
  have hlines : Text.inputLines recoveringInput =
      texts.map bytesOf ++ [[255], bytesOf "foo"] := by
    subst htexts
    decide +kernel
  have hdecoded : (texts.map bytesOf).map Text.decode? = texts.map some := by
    subst htexts
    decide +kernel
  have hanswered : ∀ response ∈ Session.start.responses callLimit texts,
      response ≠ .answer .tooDeep := by
    subst htexts
    decide +kernel
  have hbad : Text.decode? [255] = none := by decide +kernel
  have hmarks : List.Forall₂ (fun mark line => mark = false → (Reading.ofSource line).errors ≠ [])
      [true, false, true, true] texts := by
    subst htexts
    refine .cons nofun (.cons (fun _ => ?_) (.cons nofun (.cons nofun .nil)))
    decide +kernel
  have htold : dialogue ">> " (Session.start.responses callLimit texts) ++ ">> " =
      ">> ERROR: identifier not found: foo\n>> \tnext token error. " ++
        "expected=\x60Identifier\x60, actual=\x60=\x60\t\n>> >> 4\n>> " := by
    subst htexts
    decide +kernel
  have hothers : (selected [true, false, true, true]
      (Session.start.responses callLimit texts)).map Response.text =
        ["ERROR: identifier not found: foo\n", "", "4\n"] := by
    subst htexts
    decide +kernel
  have hanswers : Session.start.Answers callLimit (Text.inputLines recoveringInput) texts
      [[255], bytesOf "foo"] := ⟨⟨_, hlines, hdecoded⟩, hanswered⟩
  obtain ⟨hfold, -, -, -, hselected⟩ := conversation_folds_lines callLimit ">> " Session.start
  refine ⟨texts, _, _, hanswers, hbad, hmarks, ?_, ?_⟩
  · rw [(hfold _ _ _ hanswers).2.1 _ _ rfl hbad]
    exact htold
  · rw [(hselected _ _ hmarks).1]
    exact hothers

end Session

end MonkeyLang
