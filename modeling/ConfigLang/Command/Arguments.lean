import ConfigLang.Format

/-!
# Command lines

What the arguments of the program ask for. A command has one argument of its own; options may stand
before and behind it, and after `--` nothing is an option. Arguments are Unicode text: a file whose
name is none cannot be named.
-/

namespace ConfigLang

/-- Where a document is read from. -/
inductive Source where
  | standardInput
  | file (path : String)
deriving DecidableEq, Repr

/-- What the program is asked to do. -/
inductive Command where
  /-- Write the value of a document, to a file if one is named. Given variables come before those
  of the process, which `isolated` leaves out. -/
  | compile (source : Source) (output : Option String) (format : Option Format)
      (given : List (String × String)) (isolated : Bool)
  /-- Write the value of a document given as an argument. -/
  | eval (document : String) (format : Format)
  /-- Find the errors of a document. -/
  | check (source : Source)
  /-- List the tokens of a document. -/
  | lex (source : Source)
  /-- Show how a document was read. -/
  | parse (source : Source)
deriving DecidableEq, Repr

/-! ## Options -/

namespace Command

/-- The options of the commands. -/
inductive Flag where
  | output
  | format
  | variable
  | isolated
deriving DecidableEq, Repr

/-- The names of the commands. -/
inductive Name where
  | compile
  | eval
  | check
  | lex
  | parse
deriving DecidableEq, Repr

/-- The command with the given name. -/
def Name.ofString? : String → Option Name
  | "compile" => some .compile
  | "eval" => some .eval
  | "check" => some .check
  | "lex" => some .lex
  | "parse" => some .parse
  | _ => none

/-- The options that a command has. -/
def Name.flags : Name → List Flag
  | .compile => [.output, .format, .variable, .isolated]
  | .eval => [.format]
  | .check | .lex | .parse => []

/-- Whether a value goes with an option. -/
def Flag.takesValue : Flag → Bool
  | .isolated => false
  | .output | .format | .variable => true

/-- Whether an option may be given more than once. -/
def Flag.repeats (f : Flag) : Bool := f == .variable

/-- The option that two dashes and a name stand for. -/
def Flag.ofLong? : String → Option Flag
  | "output" => some .output
  | "format" => some .format
  | "env" => some .variable
  | "no-os-env" => some .isolated
  | _ => none

/-- The option that a dash and a letter stand for. -/
def Flag.ofShort? : Char → Option Flag
  | 'o' => some .output
  | 'f' => some .format
  | _ => none

/-- An argument, by its form alone. -/
inductive Word where
  /-- Two dashes: no options follow. -/
  | terminator
  /-- An option, if there is one of that name, perhaps with a value in the same argument. -/
  | option (flag : Option Flag) (value : Option String)
  /-- Anything else; a dash alone is no option. -/
  | plain (text : String)
deriving DecidableEq, Repr

/-- The form of an argument: `--name`, `--name=value`, `-n`, `-nvalue` and `-n=value` are
options. -/
def Word.ofString (arg : String) : Word :=
  match arg.toList with
  | ['-', '-'] => .terminator
  | '-' :: '-' :: cs =>
    let name := cs.takeWhile (· ≠ '=')
    let value := match cs.drop name.length with
      | [] => none
      | _ :: value => some (String.ofList value)
    .option (Flag.ofLong? (String.ofList name)) value
  | '-' :: letter :: cs =>
    let value := match cs with
      | [] => none
      | '=' :: value => some (String.ofList value)
      | value => some (String.ofList value)
    .option (Flag.ofShort? letter) value
  | _ => .plain arg

/-! ## Reading arguments -/

/-- The arguments of a command: its own, and its options with their values. -/
structure Arguments where
  own : List String
  options : List (Flag × String)
deriving DecidableEq, Repr

namespace Arguments

/-- The arguments with one more option, if the command `name` has it and it may be given again. -/
def addOption (name : Name) (a : Arguments) (flag : Flag) (value : String) : Option Arguments :=
  if flag ∈ name.flags ∧ (flag.repeats ∨ flag ∉ a.options.map Prod.fst) then
    some { a with options := a.options ++ [(flag, value)] }
  else none

/-- Sorts the arguments of the command `name` into options and others. An option without its value
takes the next argument, which must not have the form of an option; `pending` is that option. -/
def read (name : Name) (a : Arguments) :
    (pending : Option Flag) → List String → Option Arguments
  | none, [] => some a
  | some _, [] => none
  | some flag, arg :: args =>
    match Word.ofString arg with
    | .plain text => (a.addOption name flag text).bind fun a => read name a none args
    | _ => none
  | none, arg :: args =>
    match Word.ofString arg with
    | .terminator => some { a with own := a.own ++ args }
    | .plain text => read name { a with own := a.own ++ [text] } none args
    | .option none _ => none
    | .option (some flag) (some value) =>
      if flag.takesValue then (a.addOption name flag value).bind fun a => read name a none args
      else none
    | .option (some flag) none =>
      if flag.takesValue then read name a (some flag) args
      else (a.addOption name flag "").bind fun a => read name a none args

/-- The values given for an option. -/
def values (a : Arguments) (flag : Flag) : List String :=
  (a.options.filter (·.1 == flag)).map Prod.snd

/-- The only argument that is no option. -/
def single? (a : Arguments) : Option String :=
  match a.own with
  | [text] => some text
  | _ => none

/-- The source that the only own argument names. -/
def source? (a : Arguments) : Option Source :=
  match a.single? with
  | some "-" | some "/dev/stdin" => some .standardInput
  | some "" | none => none
  | some path => some (.file path)

/-- The output file, if one is named; its name must not be empty. -/
def output? (a : Arguments) : Option (Option String) :=
  match a.values .output with
  | [] => some none
  | path :: _ => if path = "" then none else some (some path)

/-- The format, if one is named; there must be one of that name. -/
def format? (a : Arguments) : Option (Option Format) :=
  match a.values .format with
  | [] => some none
  | name :: _ => (Format.ofName? name).map some

end Arguments

/-- A name and a value around the first equals sign. -/
def assignment? (text : String) : Option (String × String) :=
  let name := text.toList.takeWhile (· ≠ '=')
  match text.toList.drop name.length with
  | [] => none
  | _ :: value => some (String.ofList name, String.ofList value)

/-- The command with the given name and arguments. -/
def ofArguments? (name : Name) (a : Arguments) : Option Command :=
  match name with
  | .compile => do
    let given ← (a.values .variable).mapM assignment?
    return .compile (← a.source?) (← a.output?) (← a.format?) given
      (!(a.values .isolated).isEmpty)
  | .eval => do return .eval (← a.single?) ((← a.format?).getD .jsonPretty)
  | .check => do return .check (← a.source?)
  | .lex => do return .lex (← a.source?)
  | .parse => do return .parse (← a.source?)

/-- The command that the arguments of the program ask for. Help and the version are no command here:
`help`, `--help`, `-h`, `--version` and `-V`, which ask for an answer on the standard output and
exit code 0, are refused like any unknown name. -/
def ofStrings? : List String → Option Command
  | [] => none
  | first :: args => do
    let name ← Name.ofString? first
    ofArguments? name (← Arguments.read name ⟨[], []⟩ none args)

end Command

end ConfigLang
