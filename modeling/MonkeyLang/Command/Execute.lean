import MonkeyLang.Command.Args
import MonkeyLang.Report.Render
import MonkeyLang.Syntax.Outline

namespace MonkeyLang

/-- The exit code and the texts for standard output and standard error. -/
structure Execution where
  exit : Nat
  out : String
  err : String
deriving DecidableEq, Repr

namespace Command

def syntaxErrorCode : Nat := 65

def runtimeErrorCode : Nat := 70

def unreadableCode : Nat := 74

def usageCode : Nat := 2

def failureCode : Nat := 101

def joinLines (lines : List String) : String := String.join (lines.map fun line => line ++ "\n")

/-- A path in quotes, with a backslash before apostrophes too. -/
def quotedPath (path : String) : String :=
  let escape := fun c => if c == '\x27' then ['\\', c] else Text.escape c
  String.ofList ('"' :: path.toList.flatMap escape ++ ['"'])

/-- Every token on a line, the end mark included; illegal tokens make the command fail. -/
def executeTokenize (source : String) (format : TokenFormat) : Execution :=
  let lexer := Lexer.ofString source
  let tokens := lexer.tokens ++ [lexer.endMark]
  let line := fun (token : Token) =>
    match format with
    | .basic => token.line
    | .debug => token.outline.compact
  ⟨if tokens.any (fun token => token.kind = .illegal) then syntaxErrorCode else 0,
    joinLines (tokens.map line), ""⟩

def syntaxErrorText (library : Report.Library) (path source : String) (format : ErrorFormat)
    (error : SyntaxError) : String :=
  match format with
  | .basic => error.line
  | .pretty => library.report path source error

/-- The debug format is one for programs and for errors alike. -/
def executeParse (library : Report.Library) (path source : String) (format : ProgramFormat)
    (errors : ErrorFormat) : Execution :=
  let reading := Reading.ofSource source
  if reading.errors.isEmpty then
    let text :=
      match format with
      | .canonical => reading.program.text
      | .debug => reading.program.outline.indented
    ⟨0, text ++ "\n", ""⟩
  else
    let text := fun (error : SyntaxError) =>
      match format with
      | .canonical => syntaxErrorText library path source errors error
      | .debug => error.outline.compact
    ⟨syntaxErrorCode, "", joinLines (reading.errors.map text)⟩

/-- What is left of an answer: an error, nothing for `null` and for no value, or the text of a
value. -/
def ofAnswer (errors : ErrorFormat) : Answer → Execution
  | .value (.error error) =>
    let text :=
      match errors with
      | .basic => error.line
      | .pretty => error.codedLine
    ⟨runtimeErrorCode, "", text ++ "\n"⟩
  | .value .null | .none => ⟨0, "", ""⟩
  | .value value => ⟨0, value.inspect ++ "\n", ""⟩
  | .tooDeep => ⟨failureCode, "", "calls are nested too deeply\n"⟩

def executeRun (library : Report.Library) (limit : Nat) (path source : String)
    (errors : ErrorFormat) : Execution :=
  let reading := Reading.ofSource source
  if reading.errors.isEmpty then
    let (scope, store) := Store.fresh
    ofAnswer errors (reading.program.run limit scope store).1
  else
    ⟨syntaxErrorCode, "",
      joinLines (reading.errors.map (syntaxErrorText library path source errors))⟩

def banner : String :=
  "This is the Monkey programming language!\nFeel free to type in commands\n"

def executeSession (limit : Nat) (prompt : String) (input : List UInt8) : Execution :=
  match Session.transcript limit prompt Session.start (Text.inputLines input) with
  | (output, .finished) => ⟨0, banner ++ output, ""⟩
  | (output, .unreadable) => ⟨failureCode, banner ++ output, "the input is not UTF-8\n"⟩
  | (output, .tooDeep) => ⟨failureCode, banner ++ output, "calls are nested too deeply\n"⟩

/-- Announces what is done with a file, and does it if the file is there and is UTF-8. -/
def onFile (activity path : String) (content : Option (List UInt8)) (go : String → Execution) :
    Execution :=
  let announcement := activity ++ " " ++ quotedPath path ++ "...\n"
  match content >>= Text.decode? with
  | some source =>
    let done := go source
    { done with err := announcement ++ done.err }
  | none => ⟨unreadableCode, "", announcement ++ "cannot read " ++ path ++ "\n"⟩

def helpText : String :=
  joinLines ["Usage: monkey [COMMAND]", "", "Commands:",
    "  tokenize [--format basic|debug] PATH",
    "  parse [--format canonical|debug] [--errors basic|pretty] PATH",
    "  run [--errors basic|pretty] PATH",
    "  repl [--prompt PROMPT]",
    "  help [COMMAND]"]

def versionText : String := "monkey 1.0.0\n"

/-- Executes a command, given the content of the file it reads, if there is one, and the input.
Reports are drawn by the library. -/
def executeWith (library : Report.Library) (limit : Nat) (content : Option (List UInt8))
    (input : List UInt8) : Command → Execution
  | tokenize path format =>
    onFile "Tokenizing" path content fun source => executeTokenize source format
  | parse path format errors =>
    onFile "Parsing" path content fun source =>
      executeParse library path source format errors
  | run path errors =>
    onFile "Running" path content fun source => executeRun library limit path source errors
  | session prompt => executeSession limit prompt input
  | help => ⟨0, helpText, ""⟩
  | version => ⟨0, versionText, ""⟩

def execute (limit : Nat) (content : Option (List UInt8)) (input : List UInt8)
    (command : Command) : Execution :=
  executeWith Report.terminal limit content input command

/-- The execution for arguments that no command takes. -/
def misuse : Execution := ⟨usageCode, "", helpText⟩

end Command

end MonkeyLang
