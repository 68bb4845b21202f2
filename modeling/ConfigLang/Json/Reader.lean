import ConfigLang.Assoc
import ConfigLang.Lexer.Scan
import ConfigLang.Value.Basic

/-!
# Reading JSON

The value that a JSON text denotes, by the grammar of JSON alone: nothing here knows how the texts
of `ConfigLang.Json` are laid out. Members keep their order, and the last value of a key that comes
more than once counts. A number without fraction and exponent is an integer and any other the
nearest floating-point number; numbers that are out of range denote nothing.
-/

namespace ConfigLang.Json

open Lexer

/-! ## White space -/

/-- What may stand between tokens. -/
def isSpace (c : Char) : Bool := c == ' ' || c == '\t' || c == '\n' || c == '\r'

/-- A text without the white space at its start. -/
def skipSpace (cs : List Char) : List Char := cs.dropWhile isSpace

/-! ## Strings -/

/-- The character that a backslash and a letter stand for. -/
def escape? : Char → Option Char
  | '"' => some '"'
  | '\\' => some '\\'
  | '/' => some '/'
  | 'b' => some '\x08'
  | 'f' => some '\x0c'
  | 'n' => some '\n'
  | 'r' => some '\r'
  | 't' => some '\t'
  | _ => none

/-- The code points in a string up to its closing quote, and what follows. The number that `\u`
gives may also be half of one. -/
def readCodes : List Char → Option (List Nat × List Char)
  | [] | ['\\'] => none
  | '"' :: cs => some ([], cs)
  | '\\' :: 'u' :: a :: b :: c :: d :: cs =>
    if [a, b, c, d].all Text.isHexDigit then
      (readCodes cs).map fun (codes, rest) => (Text.ofHexDigits [a, b, c, d] 0 :: codes, rest)
    else none
  | '\\' :: c :: cs =>
    (escape? c).bind fun e => (readCodes cs).map fun (codes, rest) => (e.toNat :: codes, rest)
  | c :: cs =>
    if c.toNat < 0x20 then none
    else (readCodes cs).map fun (codes, rest) => (c.toNat :: codes, rest)

/-- The characters with the given code points; a high half and the low half behind it make one. -/
def joinHalves : List Nat → Option (List Char)
  | [] => some []
  | high :: low :: codes =>
    if 0xD800 ≤ high ∧ high < 0xDC00 ∧ 0xDC00 ≤ low ∧ low < 0xE000 then
      (joinHalves codes).map
        (Char.ofNat (0x10000 + 0x400 * (high - 0xD800) + (low - 0xDC00)) :: ·)
    else (charOfCodePoint? high).bind fun c => (joinHalves (low :: codes)).map (c :: ·)
  | [code] => (charOfCodePoint? code).map ([·])

/-- A string behind its opening quote. -/
def readString (cs : List Char) : Option (String × List Char) :=
  (readCodes cs).bind fun (codes, rest) =>
    (joinHalves codes).map fun chars => (String.ofList chars, rest)

/-! ## Numbers -/

/-- A point and the digits behind it, or nothing. -/
def fractionOf : List Char → List Char
  | '.' :: cs =>
    match cs.takeWhile Char.isDigit with
    | [] => []
    | digits => '.' :: digits
  | _ => []

/-- The number with these parts. -/
def numberValue? (negative : Bool) (whole fraction exponent : List Char) : Option Value :=
  if fraction.isEmpty && exponent.isEmpty then
    let absolute : Int := Nat.ofDigitChars 10 whole 0
    let value := if negative then -absolute else absolute
    if -0x80000000 ≤ value ∧ value < 0x80000000 then some (.integer (Int32.ofInt value)) else none
  else
    let value := floatValue negative whole (fraction.drop 1) exponent
    if value.isFinite then some (.float value) else none

/-- A number: no needless zero stands before its other digits. -/
def readNumber (cs : List Char) : Option (Value × List Char) :=
  let sign := signOf cs
  let whole := (cs.drop sign.length).takeWhile Char.isDigit
  let fraction := fractionOf (cs.drop (sign ++ whole).length)
  let exponent := exponentOf (cs.drop (sign ++ whole ++ fraction).length)
  if whole = [] ∨ whole.head? = some '0' ∧ whole ≠ ['0'] then none
  else
    (numberValue? (!sign.isEmpty) whole fraction exponent).map
      (·, cs.drop (sign ++ whole ++ fraction ++ exponent).length)

/-! ## Values -/

/-- A key, its colon and the white space around the colon. -/
def readKey : List Char → Option (String × List Char)
  | '"' :: cs =>
    (readString cs).bind fun (key, rest) =>
      match skipSpace rest with
      | ':' :: rest => some (key, skipSpace rest)
      | _ => none
  | _ => none

mutual

/-- A value at the start of a text, and what follows. Reading a value, an item or a field takes
`fuel`, and a character of the text at least. -/
def readValue : (fuel : Nat) → List Char → Option (Value × List Char)
  | 0, _ => none
  | fuel + 1, cs =>
    match cs with
    | 'n' :: 'u' :: 'l' :: 'l' :: cs => some (.null, cs)
    | 't' :: 'r' :: 'u' :: 'e' :: cs => some (.bool true, cs)
    | 'f' :: 'a' :: 'l' :: 's' :: 'e' :: cs => some (.bool false, cs)
    | '"' :: cs => (readString cs).map fun (s, rest) => (.string s, rest)
    | '[' :: cs =>
      match skipSpace cs with
      | ']' :: cs => some (.array [], cs)
      | cs => do
        let (v, cs) ← readValue fuel cs
        let (vs, cs) ← readItems fuel (skipSpace cs)
        return (.array (v :: vs), cs)
    | '\x7b' :: cs =>
      match skipSpace cs with
      | '\x7d' :: cs => some (.object [], cs)
      | cs => do
        let (key, cs) ← readKey cs
        let (v, cs) ← readValue fuel cs
        let (fields, cs) ← readFields fuel (skipSpace cs)
        return (.object (Assoc.insertAll [] ((key, v) :: fields)), cs)
    | cs => readNumber cs

/-- The items after the first and the end of an array. -/
def readItems : (fuel : Nat) → List Char → Option (List Value × List Char)
  | 0, _ => none
  | fuel + 1, cs =>
    match cs with
    | ']' :: cs => some ([], cs)
    | ',' :: cs => do
      let (v, cs) ← readValue fuel (skipSpace cs)
      let (vs, cs) ← readItems fuel (skipSpace cs)
      return (v :: vs, cs)
    | _ => none

/-- The fields after the first and the end of an object. -/
def readFields : (fuel : Nat) → List Char → Option (List (String × Value) × List Char)
  | 0, _ => none
  | fuel + 1, cs =>
    match cs with
    | '\x7d' :: cs => some ([], cs)
    | ',' :: cs => do
      let (key, cs) ← readKey (skipSpace cs)
      let (v, cs) ← readValue fuel cs
      let (fields, cs) ← readFields fuel (skipSpace cs)
      return ((key, v) :: fields, cs)
    | _ => none

end

/-- The value that a whole text denotes, with white space around it. -/
def read (text : String) : Option Value :=
  (readValue (text.toList.length + 1) (skipSpace text.toList)).bind fun (v, rest) =>
    if skipSpace rest = [] then some v else none

end ConfigLang.Json
