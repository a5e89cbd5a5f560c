import MonkeyLang.Command.Execute

namespace MonkeyLang.Main

/-- The bytes up to the next line feed, with it, behind those read so far. -/
partial def readLine (input : IO.FS.Stream) (before : ByteArray) : IO ByteArray := do
  match (← input.read 1).toList with
  | [] => return before
  | byte :: _ =>
    let bytes := before.push byte
    if byte == 10 then return bytes else readLine input bytes

/-- Prompts, reads and answers until the input ends or is not UTF-8. -/
partial def converse (prompt : String) (input output : IO.FS.Stream) (session : Session) :
    IO UInt32 := do
  output.putStr prompt
  output.flush
  match Text.inputLines (← readLine input ByteArray.empty).toList with
  | [] => return 0
  | line :: _ =>
    match Text.decode? line with
    | none => return UInt32.ofNat Command.failureCode
    | some text =>
      let (response, after) := session.evalLine callLimit text
      output.putStr response.text
      converse prompt input output after

def readContent (command : Command) : IO (Option (List UInt8)) :=
  match command.path? with
  | none => return none
  | some path =>
    try
      return some (← IO.FS.readBinFile path).toList
    catch _ =>
      return none

def finish (execution : Execution) : IO UInt32 := do
  IO.eprint execution.err
  IO.print execution.out
  return UInt32.ofNat execution.exit

def dispatch (args : List String) : IO UInt32 := do
  match Command.ofArgs args with
  | none => finish Command.misuse
  | some (.session prompt) =>
    IO.print Command.banner
    converse prompt (← IO.getStdin) (← IO.getStdout) Session.start
  | some command => finish (command.execute callLimit (← readContent command) [])

end MonkeyLang.Main

def main (args : List String) : IO UInt32 := MonkeyLang.Main.dispatch args
