import ConfigLang.Lexer.Mode

/-!
# Lexical errors
-/

namespace ConfigLang

/-- What is wrong with a literal whose kind is clear from its start. -/
inductive LiteralFlaw where
  | unterminatedSegment
  | missingFraction
  | floatRange
  | missingHexDigits
  | hexRange
  | integerRange
deriving DecidableEq, Repr

/-- Why no token can be read. -/
inductive LexError where
  /-- No rule of the mode matches; without a mode, text follows the end of the document. -/
  | unexpectedText (mode : Option Lexer.Mode) (excerpt : String)
  | invalidLiteral (literal : String) (flaw : LiteralFlaw)
  | invalidEscape (sequence : String)
  /-- A rule matched the empty text. -/
  | stalled (mode : Lexer.Mode)
deriving DecidableEq, Repr

/-- The flaw in words. -/
def LiteralFlaw.message : LiteralFlaw → String
  | .unterminatedSegment => "unterminated quoted path segment"
  | .missingFraction => "expected digits after the decimal point"
  | .floatRange => "float is out of range"
  | .missingHexDigits => "expected hex digits after `0x`"
  | .hexRange => "hex integer does not fit in 32 bits"
  | .integerRange => "integer is out of range for a 32-bit signed value"

namespace LexError

/-- How messages name the place of unexpected text. -/
def placeName : Option Lexer.Mode → String
  | some mode => mode.name
  | none => "closed document"

/-- The error in words. -/
def message : LexError → String
  | .unexpectedText mode excerpt =>
    "unexpected input in " ++ placeName mode ++ " context: `" ++ excerpt ++ "`"
  | .invalidLiteral literal flaw => "invalid literal `" ++ literal ++ "`: " ++ flaw.message
  | .invalidEscape sequence => "invalid escape sequence `" ++ sequence ++ "`"
  | .stalled mode => "lexer made no progress in " ++ mode.name ++ " context"

/-- The number of the error in the language's list of diagnostics. -/
def code : LexError → String
  | .unexpectedText .. => "E0001"
  | .invalidLiteral .. => "E0002"
  | .invalidEscape .. => "E0003"
  | .stalled .. => "E0004"

/-- Advice that goes with the error. -/
def help? : LexError → Option String
  | .unexpectedText (some mode) _ => some mode.hint
  | .unexpectedText none _ => some "nothing may follow the end of the document"
  | .invalidLiteral .. => none
  | .invalidEscape _ => some "valid escapes are \\\\ \\\" \\n \\r \\t \\$ and \\uXXXX"
  | .stalled _ => some "this is a bug in corn, please report it"

end LexError

end ConfigLang
