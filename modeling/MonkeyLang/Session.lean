import MonkeyLang.Eval.Run
import MonkeyLang.Syntax.Parser
import MonkeyLang.Text.Input
import MonkeyLang.Value.Inspect

namespace MonkeyLang

structure Session where
  scope : ScopeId
  store : Store

namespace Session

inductive Response where
  | answer (answer : Answer)
  | syntaxErrors (errors : List SyntaxError)

/-- What a session writes for a line. -/
def Response.text : Response → String
  | .answer (.value value) => value.inspect ++ "\n"
  | .answer .none => ""
  | .answer .tooDeep => ""
  | .syntaxErrors errors => String.join (errors.map fun error => error.line ++ "\n")

def start : Session :=
  let (scope, store) := Store.fresh
  ⟨scope, store⟩

/-- Runs a line. One with syntax errors changes nothing. -/
def evalLine (limit : Nat) (session : Session) (line : String) : Response × Session :=
  let reading := Reading.ofSource line
  if reading.errors.isEmpty then
    let (answer, store) := reading.program.run limit session.scope session.store
    (.answer answer, { session with store })
  else
    (.syntaxErrors reading.errors, session)

/-- How a session ends: with the input, at a line that is not UTF-8, or at a line whose calls were
nested too deeply. -/
inductive Ending where
  | finished
  | unreadable
  | tooDeep
deriving DecidableEq, Repr

/-- What comes of feeding a session its input: what it writes, how it ends, and the session then. -/
structure Conversation where
  output : String
  ending : Ending
  session : Session

/-- The prompt and the response for each line of the input, and a last prompt. -/
def converse (limit : Nat) (prompt : String) : Session → List (List UInt8) → Conversation
  | session, [] => ⟨prompt, .finished, session⟩
  | session, line :: lines =>
    match Text.decode? line with
    | none => ⟨prompt, .unreadable, session⟩
    | some text =>
      match evalLine limit session text with
      | (.answer .tooDeep, after) => ⟨prompt, .tooDeep, after⟩
      | (response, after) =>
        let rest := converse limit prompt after lines
        { rest with output := prompt ++ response.text ++ rest.output }

/-- What a session writes for the lines of its input, and how it ends. -/
def transcript (limit : Nat) (prompt : String) (session : Session) (lines : List (List UInt8)) :
    String × Ending :=
  let conversation := converse limit prompt session lines
  (conversation.output, conversation.ending)

def defaultPrompt : String := ">> "

end Session

end MonkeyLang
