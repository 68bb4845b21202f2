import ConfigLang.Document.Draft
import ConfigLang.Evaluation
import ConfigLang.Lexer.Error

/-!
# Errors

Everything that can keep a document from becoming output, by the stage that finds it.
-/

namespace ConfigLang

namespace ParseError

/-- A list of labels as alternatives. -/
def alternatives (labels : List String) : String :=
  let quotedLabels := labels.map fun label => "'" ++ label ++ "'"
  match quotedLabels.getLast? with
  | none => "<nothing>"
  | some last =>
    match quotedLabels.dropLast with
    | [] => last
    | firsts => "one of " ++ String.intercalate ", " firsts ++ " or " ++ last

/-- The error in words. -/
def message : ParseError → String
  | .unexpectedToken expected found => "expected " ++ alternatives expected ++ ", got " ++ found
  | .nestingTooDeep limit => "maximum nesting depth of " ++ toString limit ++ " exceeded"

/-- The number of the error in the language's list of diagnostics. -/
def code : ParseError → String
  | .unexpectedToken .. => "E0101"
  | .nestingTooDeep _ => "E0102"

end ParseError

/-- The stages of compiling a document. -/
inductive Stage where
  | lex
  | parse
  | eval
  | io
deriving DecidableEq, Repr

/-- An error of any stage. -/
inductive Error where
  | lex (e : LexError)
  | parse (e : ParseError)
  | eval (e : EvalError)
  /-- A file or a stream that cannot be read or written. -/
  | io (message : String)
deriving DecidableEq, Repr

namespace Error

/-- The stage that found the error. -/
def stage : Error → Stage
  | .lex _ => .lex
  | .parse _ => .parse
  | .eval _ => .eval
  | .io _ => .io

/-- The error in words. -/
def message : Error → String
  | .lex e => e.message
  | .parse e => e.message
  | .eval e => e.message
  | .io message => "I/O error: " ++ message

/-- The number of the error in the language's list of diagnostics. -/
def code : Error → String
  | .lex e => e.code
  | .parse e => e.code
  | .eval e => e.code
  | .io _ => "E0301"

/-- Advice that goes with the error. -/
def help? : Error → Option String
  | .lex e => e.help?
  | .parse _ => none
  | .eval e => e.help?
  | .io _ => none

end Error

end ConfigLang
