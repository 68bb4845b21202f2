import ConfigLang.Command.Arguments
import ConfigLang.Compilation
import ConfigLang.Document.Outline
import ConfigLang.Text.Blank

/-!
# Running commands

A command runs act by act: it reads what it needs, prints and writes, and a fault ends it where it
is. What it has printed and written by then stays, and is part of its outcome. The surroundings are
what it may look at.
-/

namespace ConfigLang

/-- What a command can see of the system it runs on. The standard streams take all that is printed
to them; only a file can refuse what is written to it, and one that does stays as it is. -/
structure Surroundings where
  /-- The standard input, if it is text. -/
  standardInput : Option String
  /-- The variables of the process. -/
  environment : Environment
  /-- The text of a file, if it can be read. -/
  fileText : String → Option String
  /-- Whether a file can be written. -/
  canWrite : String → Bool

/-- What a command has left behind so far. -/
structure Delivery where
  /-- What was printed. -/
  output : String
  /-- What the user was told apart from the output. -/
  note : String
  /-- The paths and the texts of the files that were written, in order. -/
  files : List (String × String)
deriving DecidableEq, Repr

/-- Nothing was printed, and no file was written. -/
def Delivery.nothing : Delivery := ⟨"", "", []⟩

/-- How the program ends, and what it leaves behind. -/
inductive Outcome where
  /-- The arguments ask for nothing that the program can do. Asking for help or for the version
  counts as this too. -/
  | misused
  /-- An error ended the command after it had left this. -/
  | failed (e : Error) (left : Delivery)
  | done (left : Delivery)
deriving DecidableEq, Repr

/-! ## Acts -/

/-- What a command does, act by act. An error ends it, and what it has left by then stays. -/
abbrev Action (α : Type) := ExceptT Error (StateM Delivery) α

namespace Action

/-- Prints a text. -/
def print (text : String) : Action Unit :=
  modifyThe Delivery fun d => { d with output := d.output ++ text }

/-- Tells the user something apart from the output. -/
def tell (text : String) : Action Unit :=
  modifyThe Delivery fun d => { d with note := d.note ++ text }

/-- Writes a text to a file. -/
def write (s : Surroundings) (path text : String) : Action Unit :=
  if s.canWrite path then modifyThe Delivery fun d => { d with files := d.files ++ [(path, text)] }
  else throw (.io ("failed to write " ++ path))

/-- How acts end that start when this has been left, and what is left then. -/
def runFrom {α : Type} (d : Delivery) (a : Action α) : Except Error α × Delivery := a.run.run d

/-- How the program ends that does this and no more. -/
def outcome (a : Action Unit) : Outcome :=
  match a.runFrom .nothing with
  | (.ok (), d) => .done d
  | (.error e, d) => .failed e d

end Action

namespace Source

/-- How messages name a source. -/
def name : Source → String
  | .standardInput => "<stdin>"
  | .file path => path

/-- The document that a source holds. -/
def read (s : Surroundings) : Source → Except Error String
  | .standardInput =>
    match s.standardInput with
    | some text => .ok text
    | none => .error (.io "failed to read stdin")
  | .file path =>
    match s.fileText path with
    | some text => .ok text
    | none => .error (.io ("failed to read " ++ path))

end Source

namespace Command

/-! ## Texts -/

/-- The text with a line feed at its end. -/
def endLine (text : String) : String :=
  if text.toList.getLast? = some '\n' then text else text ++ "\n"

/-- The text without the white space at its end. -/
def trimEnd (text : String) : String :=
  String.ofList (text.toList.reverse.dropWhile Text.isBlank).reverse

/-- A path, read backwards, from its last component on: slashes behind it and components that are a
dot alone do not count. -/
def dropTrailing : List Char → List Char
  | '/' :: cs => dropTrailing cs
  | '.' :: '/' :: cs => dropTrailing cs
  | cs => cs

/-- What follows the last dot in the last component of a path; a dot at its start does not count. -/
def extension? (path : String) : Option String :=
  let component := ((dropTrailing path.toList.reverse).takeWhile (· ≠ '/')).reverse
  let extension := (component.reverse.takeWhile (· ≠ '.')).reverse
  if component = ['.', '.'] ∨ component.length ≤ extension.length + 1 then none
  else some (String.ofList extension)

/-! ## Compiling -/

/-- The variables that a document sees: the last value given for a name, or else the variable of
the process, unless the process is left out. -/
def environment (given : List (String × String)) (isolated : Bool) (process : Environment) :
    Environment := fun name =>
  match Assoc.get? (Assoc.insertAll [] given) name with
  | some value => some value
  | none => if isolated then none else process name

/-- The format of the output: the one asked for, or that of the file to write. -/
def formatFor (format : Option Format) (output : Option String) : Format :=
  (format.or ((output.bind extension?).bind Format.ofExtension?)).getD .jsonPretty

/-! ## Commands -/

/-- Leaves a document at the output file, or prints it if there is none. -/
def place (s : Surroundings) (output : Option String) (document : String) : Action Unit :=
  match output with
  | some path => do
    Action.write s path document
    Action.tell ("Wrote " ++ path ++ "\n")
  | none => Action.print document

/-- The acts of a command. -/
def acts (s : Surroundings) : Command → Action Unit
  | .compile source output format given isolated => do
    let text ← source.read s
    let value ← ConfigLang.compile (environment given isolated s.environment) text
    place s output (endLine ((formatFor format output).render value))
  | .eval document format => do
    let value ← ConfigLang.compile s.environment document
    Action.print (trimEnd (format.render value) ++ "\n")
  | .check source => do
    let text ← source.read s
    let _ ← ConfigLang.compile s.environment text
    Action.tell (source.name ++ ": OK\n")
  | .lex source => do
    let text ← source.read s
    let tokens ← tokensOf text
    tokens.forM fun token => Action.print (token.listing ++ "\n")
  | .parse source => do
    let text ← source.read s
    let document ← documentOf text
    Action.print (document.outline ++ "\n")

/-- Runs a command. The log that `RUST_LOG` asks for is left out of what it tells. -/
def run (s : Surroundings) (c : Command) : Outcome := (c.acts s).outcome

end Command

/-- Runs the program on its arguments. -/
def runArguments (s : Surroundings) (args : List String) : Outcome :=
  match Command.ofStrings? args with
  | none => .misused
  | some c => c.run s

namespace Outcome

/-- What the program has left behind. -/
def left : Outcome → Delivery
  | .done d | .failed _ d => d
  | .misused => .nothing

/-- The exit code of the program. -/
def exitCode : Outcome → Nat
  | .done _ => 0
  | .failed (.io _) _ => 3
  | .failed _ _ => 1
  | .misused => 2

/-- What is printed. -/
def output (o : Outcome) : String := o.left.output

/-- The paths and the texts of the files that are written. -/
def files (o : Outcome) : List (String × String) := o.left.files

/-- The file that is written last. -/
def file? (o : Outcome) : Option (String × String) := o.files.getLast?

/-- What the user is told apart from the output. An error is reported at the end. -/
def note : Outcome → String
  | .done d => d.note
  | .failed e d =>
    let advice := match e.help? with
      | some help => "help: " ++ help ++ "\n"
      | none => ""
    d.note ++ e.code ++ "\n" ++ e.message ++ "\n" ++ advice
  | .misused => "usage: compile|eval|check|lex|parse [OPTIONS] <SOURCE>\n"

/-- The number of the error that ended the program. -/
def diagnostic? : Outcome → Option String
  | .failed e _ => some e.code
  | .done _ | .misused => none

end Outcome

end ConfigLang
