import ConfigLang.Token

/-!
# Lexer modes

Which tokens may come next depends on the construct that is open: `true` is a value after an
equals sign and a key at the start of an entry, and white space belongs to a string. A mode lists
the patterns it tries, in order, and what each does to the stack of modes.
-/

namespace ConfigLang.Lexer

/-- The construct that decides how the next token is read. -/
inductive Mode where
  | topLevel
  | bindings
  | value
  | object
  | array
  | string
deriving DecidableEq, Repr

/-- A class of tokens that one mode may look for. -/
inductive Pattern where
  | symbol (s : Symbol)
  | input
  | quotedSegment
  | segment
  | float
  | hexInteger
  | integer
  | escape
  | characters
deriving DecidableEq, Repr

/-- What a token does to the stack of modes. -/
inductive Move where
  | stay
  | push (mode : Mode)
  | replace (mode : Mode)
  | pop
deriving DecidableEq, Repr

/-- A pattern and what its token does. -/
structure Rule where
  pattern : Pattern
  move : Move
deriving DecidableEq, Repr

/-- The stack of modes, innermost first, after a move. Nothing can be popped from an empty one. -/
def Move.apply : Move → List Mode → List Mode
  | .stay, modes => modes
  | .push mode, modes => mode :: modes
  | .replace mode, modes => mode :: modes.tail
  | .pop, modes => modes.tail

namespace Mode

/-- The rules of a mode, in the order in which they are tried. -/
def rules : Mode → List Rule
  | .topLevel => [
      ⟨.symbol .braceOpen, .push .object⟩,
      ⟨.symbol .letWord, .push .bindings⟩]
  | .bindings => [
      ⟨.symbol .inWord, .pop⟩,
      ⟨.symbol .braceOpen, .stay⟩,
      ⟨.symbol .braceClose, .stay⟩,
      ⟨.input, .stay⟩,
      ⟨.symbol .equals, .push .value⟩]
  | .value => [
      ⟨.symbol .braceOpen, .replace .object⟩,
      ⟨.symbol .bracketOpen, .replace .array⟩,
      ⟨.symbol .trueWord, .pop⟩,
      ⟨.symbol .falseWord, .pop⟩,
      ⟨.symbol .nullWord, .pop⟩,
      ⟨.symbol .quote, .replace .string⟩,
      ⟨.input, .pop⟩,
      ⟨.float, .pop⟩,
      ⟨.hexInteger, .pop⟩,
      ⟨.integer, .pop⟩,
      ⟨.symbol .bracketClose, .pop⟩]
  | .object => [
      ⟨.symbol .braceClose, .pop⟩,
      ⟨.symbol .equals, .push .value⟩,
      ⟨.symbol .spread, .stay⟩,
      ⟨.symbol .dot, .stay⟩,
      ⟨.input, .stay⟩,
      ⟨.quotedSegment, .stay⟩,
      ⟨.segment, .stay⟩]
  | .array => [
      ⟨.symbol .bracketClose, .pop⟩,
      ⟨.symbol .braceOpen, .push .object⟩,
      ⟨.symbol .bracketOpen, .push .array⟩,
      ⟨.symbol .spread, .stay⟩,
      ⟨.symbol .trueWord, .stay⟩,
      ⟨.symbol .falseWord, .stay⟩,
      ⟨.symbol .nullWord, .stay⟩,
      ⟨.symbol .quote, .push .string⟩,
      ⟨.input, .stay⟩,
      ⟨.float, .stay⟩,
      ⟨.hexInteger, .stay⟩,
      ⟨.integer, .stay⟩]
  | .string => [
      ⟨.symbol .quote, .pop⟩,
      ⟨.input, .stay⟩,
      ⟨.escape, .stay⟩,
      ⟨.characters, .stay⟩]

/-- How messages name a mode. -/
def name : Mode → String
  | .topLevel => "top-level"
  | .bindings => "assign block"
  | .value => "value"
  | .object => "object"
  | .array => "array"
  | .string => "string"

/-- What may stand here, for text that no rule matches. -/
def hint : Mode → String
  | .topLevel => "a document is an object, optionally preceded by `let \x7b ... \x7d in`"
  | .bindings => "inputs are declared as `$name = value`"
  | .value => "expected a value: object, array, string, number, boolean, null or `$input`"
  | .object => "object entries are `key = value` pairs or `..$input` spreads"
  | .array => "array items are values or `..$input` spreads"
  | .string => "special characters in strings must be escaped, e.g. `\\$` or `\\\"`"

end Mode

end ConfigLang.Lexer
