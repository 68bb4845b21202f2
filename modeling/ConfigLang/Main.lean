import ConfigLang.Command.Run

/-!
# The program

Reads what a command may look at, runs it, and carries out what it asks for.
-/

namespace ConfigLang.Program

/-- All bytes of a stream. -/
partial def readAll (stream : IO.FS.Stream) (bytes : ByteArray) : IO ByteArray := do
  let chunk ← stream.read 65536
  if chunk.isEmpty then return bytes else readAll stream (bytes ++ chunk)

/-- Whether an action succeeds. -/
def succeeds (action : IO Unit) : IO Bool := do
  try
    action
    return true
  catch _ => return false

/-- The text of a source that is no argument. -/
def sourceText (source : Source) : IO (Option String) := do
  try
    match source with
    | .standardInput => return String.fromUTF8? (← readAll (← IO.getStdin) .empty)
    | .file path => return some (← IO.FS.readFile path)
  catch _ => return none

/-- The source that a command reads. -/
def commandSource? : Command → Option Source
  | .compile source .. | .check source | .lex source | .parse source => some source
  | .eval .. => none

/-- The names of the variables that a document may look up. -/
def variableNames (text : String) : List String :=
  match Lexer.tokenize text with
  | .error _ => []
  | .ok tokens => tokens.filterMap fun
    | .input name => Scope.variableOf? name
    | _ => none

/-- The variables of the process among the given names. -/
def processVariables (names : List String) : IO (List (String × String)) :=
  names.filterMapM fun name => return (← IO.getEnv name).map (name, ·)

/-- Prints an outcome and gives its exit code. -/
def report (outcome : Outcome) : IO UInt32 := do
  (← IO.getStdout).putStr outcome.output
  (← IO.getStderr).putStr outcome.note
  return outcome.exitCode.toUInt32

/-- Runs the program on its arguments and gives its exit code. -/
def run (args : List String) : IO UInt32 := do
  match Command.ofStrings? args with
  | none => report .misused
  | some command =>
    let text ← match commandSource? command with
      | some source => sourceText source
      | none => pure none
    let document := match command with
      | .eval document _ => document
      | _ => text.getD ""
    let known ← processVariables (variableNames document)
    let surroundings : Surroundings := {
      standardInput := text
      environment := Assoc.get? (Assoc.insertAll [] known)
      fileText := fun _ => text
      canWrite := fun _ => true }
    -- Whether a file can be written is known once it has been tried.
    let written ← match (command.run surroundings).file? with
      | some (path, document) => succeeds (IO.FS.writeFile path document)
      | none => pure true
    report (command.run { surroundings with canWrite := fun _ => written })

end ConfigLang.Program

/-- The program. -/
def main (args : List String) : IO UInt32 := ConfigLang.Program.run args
