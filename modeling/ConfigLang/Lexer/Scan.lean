import ConfigLang.Lexer.Error
import ConfigLang.Text.Blank
import ConfigLang.Text.Excerpt
import ConfigLang.Text.Hexadecimal
import ConfigLang.Text.Letter
import ConfigLang.Text.Numeral

/-!
# Matching patterns

Each pattern either declines a text, reads a token from its start, or refuses it: a text is refused
when its start can only be meant as this pattern but is malformed.
-/

namespace ConfigLang.Lexer

/-- A token and the text it was read from. -/
structure Lexeme where
  token : Token
  text : List Char
deriving DecidableEq, Repr

/-- Letters, numerals and the underscore, which names of inputs are made of. -/
def isNameChar (c : Char) : Bool := Text.isLetter c || Text.isNumeral c || c == '_'

/-- What a name of an input may start with. -/
def isNameStart (c : Char) : Bool := Text.isLetter c || c == '_'

/-- What a bare segment of a key is made of. -/
def isSegmentChar (c : Char) : Bool := !Text.isBlank c && c != '=' && c != '.'

/-- What stands for itself in a string. -/
def isPlainChar (c : Char) : Bool := c != '\\' && c != '"' && c != '$'

/-! ## Symbols, names and runs -/

/-- The spelling of a symbol. -/
def scanSymbol (s : Symbol) (cs : List Char) : Option Lexeme :=
  if s.text.toList.isPrefixOf cs then some ⟨.symbol s, s.text.toList⟩ else none

/-- A dollar sign, a letter or underscore, and as many name characters as follow. -/
def scanInput : List Char → Option Lexeme
  | '$' :: c :: cs =>
    if isNameStart c then
      let text := '$' :: c :: cs.takeWhile isNameChar
      some ⟨.input (String.ofList text), text⟩
    else none
  | _ => none

/-- The longest run of segment characters. -/
def scanSegment (cs : List Char) : Option Lexeme :=
  match cs.takeWhile isSegmentChar with
  | [] => none
  | text => some ⟨.segment (String.ofList text), text⟩

/-- Everything between two single quotes. -/
def scanQuotedSegment : List Char → Except LexError (Option Lexeme)
  | '\'' :: cs =>
    let body := cs.takeWhile (· ≠ '\'')
    if body.length < cs.length then
      .ok (some ⟨.segment (String.ofList body), '\'' :: body ++ ['\'']⟩)
    else
      .error (.invalidLiteral (String.ofList (Text.excerpt ('\'' :: cs))) .unterminatedSegment)
  | _ => .ok none

/-- The longest run of characters that stand for themselves. -/
def scanCharacters (cs : List Char) : Option Lexeme :=
  match cs.takeWhile isPlainChar with
  | [] => none
  | text => some ⟨.characters (String.ofList text), text⟩

/-! ## Numbers -/

/-- The minus sign that a number may start with. -/
def signOf : List Char → List Char
  | '-' :: _ => ['-']
  | _ => []

/-- The sign that an exponent may start with. -/
def exponentSign : List Char → List Char
  | '+' :: _ => ['+']
  | cs => signOf cs

/-- An exponent with at least one digit, or nothing. -/
def exponentOf : List Char → List Char
  | e :: cs =>
    if e = 'e' ∨ e = 'E' then
      let sign := exponentSign cs
      match (cs.drop sign.length).takeWhile Char.isDigit with
      | [] => []
      | digits => e :: sign ++ digits
    else []
  | [] => []

/-- The value of an exponent read by `exponentOf`. -/
def exponentValue : List Char → Int
  | _ :: '-' :: digits => -(Nat.ofDigitChars 10 digits 0 : Int)
  | _ :: '+' :: digits => Nat.ofDigitChars 10 digits 0
  | _ :: digits => Nat.ofDigitChars 10 digits 0
  | [] => 0

/-- The number that `±whole.fraction` with an exponent denotes, rounded to the nearest. -/
def floatValue (negative : Bool) (whole fraction exponent : List Char) : Binary64 :=
  .ofDecimal negative (Nat.ofDigitChars 10 (whole ++ fraction) 0)
    (exponentValue exponent - fraction.length)

/-- Digits, a point, digits and perhaps an exponent. Digits before two points are left to the
pattern for integers: there a spread follows a number. -/
def scanFloat (cs : List Char) : Except LexError (Option Lexeme) :=
  let sign := signOf cs
  let whole := (cs.drop sign.length).takeWhile Char.isDigit
  if whole.isEmpty then .ok none
  else
    let head := sign ++ whole
    match cs.drop head.length with
    | '.' :: rest =>
      let fraction := rest.takeWhile Char.isDigit
      if fraction.isEmpty then
        if rest.head? = some '.' then .ok none
        else .error (.invalidLiteral (String.ofList (head ++ ['.'])) .missingFraction)
      else
        let exponent := exponentOf (rest.drop fraction.length)
        let text := head ++ '.' :: fraction ++ exponent
        let value := floatValue (!sign.isEmpty) whole fraction exponent
        if value.isFinite then .ok (some ⟨.float value, text⟩)
        else .error (.invalidLiteral (String.ofList text) .floatRange)
    | _ => .ok none

/-- `0x` and hexadecimal digits, read as the bits of a 32-bit integer. -/
def scanHexInteger : List Char → Except LexError (Option Lexeme)
  | '0' :: 'x' :: cs =>
    let digits := cs.takeWhile Text.isHexDigit
    let text := '0' :: 'x' :: digits
    let value := Text.ofHexDigits digits 0
    if digits.isEmpty then .error (.invalidLiteral (String.ofList text) .missingHexDigits)
    else if value < 0x100000000 then .ok (some ⟨.integer (Int32.ofNat value), text⟩)
    else .error (.invalidLiteral (String.ofList text) .hexRange)
  | _ => .ok none

/-- The number that decimal digits behind a sign denote. -/
def integerValue (sign digits : List Char) : Int :=
  if sign.isEmpty then Nat.ofDigitChars 10 digits 0 else -Nat.ofDigitChars 10 digits 0

/-- An optional minus sign and decimal digits. -/
def scanInteger (cs : List Char) : Except LexError (Option Lexeme) :=
  let sign := signOf cs
  let digits := (cs.drop sign.length).takeWhile Char.isDigit
  if digits.isEmpty then .ok none
  else
    let text := sign ++ digits
    let value := integerValue sign digits
    if -0x80000000 ≤ value ∧ value < 0x80000000 then
      .ok (some ⟨.integer (Int32.ofInt value), text⟩)
    else .error (.invalidLiteral (String.ofList text) .integerRange)

/-! ## Escapes -/

/-- The character that a backslash and `c` stand for. -/
def simpleEscape? : Char → Option Char
  | '\\' => some '\\'
  | '"' => some '"'
  | 'n' => some '\n'
  | 'r' => some '\r'
  | 't' => some '\t'
  | '$' => some '$'
  | _ => none

/-- The character with the code point `n`; surrogates are not characters. -/
def charOfCodePoint? (n : Nat) : Option Char :=
  if n.isValidChar then some (Char.ofNat n) else none

/-- The character named by the first four hexadecimal digits of a text. -/
def namedChar? (cs : List Char) : Option Char :=
  let digits := cs.take 4
  if digits.length = 4 ∧ digits.all Text.isHexDigit then
    charOfCodePoint? (Text.ofHexDigits digits 0)
  else none

/-- A backslash and a character that has an escape, or `\u` and four hexadecimal digits. -/
def scanEscape : List Char → Except LexError (Option Lexeme)
  | '\\' :: 'u' :: cs =>
    let text := '\\' :: 'u' :: cs.take 4
    match namedChar? cs with
    | some c => .ok (some ⟨.escape c, text⟩)
    | none => .error (.invalidEscape (String.ofList text))
  | '\\' :: c :: _ =>
    match simpleEscape? c with
    | some e => .ok (some ⟨.escape e, ['\\', c]⟩)
    | none => .error (.invalidEscape (String.ofList ['\\', c]))
  | ['\\'] => .error (.invalidEscape "\\")
  | _ => .ok none

/-! ## All patterns -/

/-- Reads a token of the given class from the start of a text. -/
def Pattern.scan : Pattern → List Char → Except LexError (Option Lexeme)
  | .symbol s, cs => .ok (scanSymbol s cs)
  | .input, cs => .ok (scanInput cs)
  | .quotedSegment, cs => scanQuotedSegment cs
  | .segment, cs => .ok (scanSegment cs)
  | .float, cs => scanFloat cs
  | .hexInteger, cs => scanHexInteger cs
  | .integer, cs => scanInteger cs
  | .escape, cs => scanEscape cs
  | .characters, cs => .ok (scanCharacters cs)

/-- The first rule that does not decline decides. -/
def firstMatch : List Rule → List Char → Except LexError (Option (Lexeme × Move))
  | [], _ => .ok none
  | rule :: rules, cs =>
    match rule.pattern.scan cs with
    | .error e => .error e
    | .ok (some lexeme) => .ok (some (lexeme, rule.move))
    | .ok none => firstMatch rules cs

end ConfigLang.Lexer
