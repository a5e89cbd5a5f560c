import MonkeyLang.Session

namespace MonkeyLang

inductive TokenFormat where
  | basic
  | debug
deriving DecidableEq, Repr

inductive ProgramFormat where
  | canonical
  | debug
deriving DecidableEq, Repr

inductive ErrorFormat where
  | basic
  | pretty
deriving DecidableEq, Repr

inductive Command where
  | tokenize (path : String) (format : TokenFormat)
  | parse (path : String) (format : ProgramFormat) (errors : ErrorFormat)
  | run (path : String) (errors : ErrorFormat)
  | session (prompt : String)
  | help
  | version
deriving DecidableEq, Repr

namespace TokenFormat

def ofName? : String → Option TokenFormat
  | "basic" => some .basic
  | "debug" => some .debug
  | _ => none

end TokenFormat

namespace ProgramFormat

def ofName? : String → Option ProgramFormat
  | "canonical" => some .canonical
  | "debug" => some .debug
  | _ => none

end ProgramFormat

namespace ErrorFormat

def ofName? : String → Option ErrorFormat
  | "basic" => some .basic
  | "pretty" => some .pretty
  | _ => none

end ErrorFormat

namespace Command

/-- The file that the command reads. -/
def path? : Command → Option String
  | tokenize path _ | parse path _ _ | run path _ => some path
  | _ => none

/-- Which arguments a command takes: whether a path, and which options with which values. -/
structure Form where
  takesPath : Bool
  options : List (String × (String → Bool))

/-- The arguments given so far. -/
structure Given where
  path : Option String
  options : List (String × String)

/-- Why the arguments are not read to their end. -/
inductive Stop where
  | help
  | usage
deriving DecidableEq, Repr

namespace Given

def empty : Given := ⟨none, []⟩

def option? (given : Given) (name : String) : Option String := given.options.lookup name

/-- There is room for one path, and it has to have a name. -/
def addPath (form : Form) (given : Given) (path : String) : Except Stop Given :=
  if form.takesPath && given.path.isNone && !path.isEmpty then
    .ok { given with path := some path }
  else
    .error .usage

/-- An option is given once at most, with a value that the form accepts. -/
def addOption (form : Form) (given : Given) (name value : String) : Except Stop Given :=
  match form.options.lookup name with
  | some accepts =>
    if accepts value && (given.option? name).isNone then
      .ok { given with options := (name, value) :: given.options }
    else
      .error .usage
  | none => .error .usage

end Given

/-- The shapes of an argument. -/
inductive Argument where
  | separator
  | long (name : String) (value : Option String)
  | short (letters : List Char)
  | plain (text : String)

/-- Two hyphens begin the long form of an option, which may have a value behind an equals sign, and
one begins the short form; one hyphen alone is a plain argument. -/
def Argument.ofString (text : String) : Argument :=
  match text.toList with
  | ['-', '-'] => separator
  | '-' :: '-' :: rest =>
    let name := rest.takeWhile (· != '=')
    match rest.dropWhile (· != '=') with
    | [] => long (String.ofList name) none
    | _ :: value => long (String.ofList name) (some (String.ofList value))
  | '-' :: c :: rest => short (c :: rest)
  | _ => plain text

/-- Whether the argument can stand as the value of the option before it. -/
def Argument.isPlain : Argument → Bool
  | plain _ => true
  | _ => false

/-- The arguments of a command. Behind a separator all of them are plain. -/
def readGiven (form : Form) (given : Given) : List String → Except Stop Given
  | [] => .ok given
  | text :: rest =>
    match Argument.ofString text with
    | .separator => rest.foldlM (Given.addPath form) given
    | .long "help" none | .short ('h' :: _) => .error .help
    | .long name (some value) => do readGiven form (← given.addOption form name value) rest
    | .long name none =>
      match rest with
      | value :: rest =>
        if (Argument.ofString value).isPlain then do
          readGiven form (← given.addOption form name value) rest
        else
          .error .usage
      | [] => .error .usage
    | .short _ => .error .usage
    | .plain path => do readGiven form (← given.addPath form path) rest

def tokenFormat : String × (String → Bool) :=
  ("format", fun value => (TokenFormat.ofName? value).isSome)

def programFormat : String × (String → Bool) :=
  ("format", fun value => (ProgramFormat.ofName? value).isSome)

def errorFormat : String × (String → Bool) :=
  ("errors", fun value => (ErrorFormat.ofName? value).isSome)

def prompt : String × (String → Bool) := ("prompt", fun _ => true)

/-- The commands by name, with the form of their arguments and what they make of them. -/
def table : List (String × Form × (Given → Option Command)) :=
  [("tokenize", ⟨true, [tokenFormat]⟩, fun given => do
      let path ← given.path
      return .tokenize path (((given.option? "format") >>= TokenFormat.ofName?).getD .basic)),
    ("parse", ⟨true, [programFormat, errorFormat]⟩, fun given => do
      let path ← given.path
      return .parse path (((given.option? "format") >>= ProgramFormat.ofName?).getD .canonical)
        (((given.option? "errors") >>= ErrorFormat.ofName?).getD .pretty)),
    ("run", ⟨true, [errorFormat]⟩, fun given => do
      let path ← given.path
      return .run path (((given.option? "errors") >>= ErrorFormat.ofName?).getD .pretty)),
    ("repl", ⟨false, [prompt]⟩, fun given =>
      some (.session ((given.option? "prompt").getD Session.defaultPrompt)))]

/-- Help on all commands, or on one that is named. -/
def ofHelpArgs : List String → Option Command
  | [] => some help
  | [name] => if name = "help" ∨ (table.lookup name).isSome then some help else none
  | _ => none

/-- The command that the arguments ask for, or nothing if they ask for none. Without arguments that
is a session. -/
def ofArgs : List String → Option Command
  | [] => some (.session Session.defaultPrompt)
  | "help" :: args => ofHelpArgs args
  | name :: args =>
    match table.lookup name with
    | some (form, make) =>
      match readGiven form Given.empty args with
      | .ok given => make given
      | .error .help => some help
      | .error .usage => none
    | none =>
      match Argument.ofString name with
      | .separator => if args.isEmpty then some (.session Session.defaultPrompt) else none
      | .long "help" none | .short ('h' :: _) => some help
      | .long "version" none | .short ('V' :: _) => some version
      | _ => none

end Command

end MonkeyLang
