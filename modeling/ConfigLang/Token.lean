import ConfigLang.Binary64.Style
import ConfigLang.Text.Quoted

/-!
# Tokens

The words of a document: fixed symbols and words, and those that carry text or a number.
-/

namespace ConfigLang

/-- The tokens with only one spelling. -/
inductive Symbol where
  | braceOpen
  | braceClose
  | bracketOpen
  | bracketClose
  | equals
  | quote
  | spread
  | dot
  | letWord
  | inWord
  | trueWord
  | falseWord
  | nullWord
deriving DecidableEq, Repr

/-- A word of a document. -/
inductive Token where
  | symbol (s : Symbol)
  /-- One segment of a key, without its quotes. -/
  | segment (text : String)
  | float (x : Binary64)
  | integer (n : Int32)
  /-- An escaped character of a string. -/
  | escape (c : Char)
  /-- A run of unescaped characters of a string. -/
  | characters (text : String)
  /-- The name of an input, with its dollar sign. -/
  | input (name : String)
deriving DecidableEq, Repr

/-- The spelling of a symbol. -/
def Symbol.text : Symbol → String
  | .braceOpen => "\x7b"
  | .braceClose => "\x7d"
  | .bracketOpen => "["
  | .bracketClose => "]"
  | .equals => "="
  | .quote => "\""
  | .spread => ".."
  | .dot => "."
  | .letWord => "let"
  | .inWord => "in"
  | .trueWord => "true"
  | .falseWord => "false"
  | .nullWord => "null"

/-- Numbers in listings of tokens: every digit is written out, whatever the exponent. -/
def FloatStyle.listing : FloatStyle where
  ties := .up
  positional := fun _ => true
  marksWhole := false
  signsExponent := false
  infinity := ['i', 'n', 'f']
  nan := ['N', 'a', 'N']

namespace Token

/-- How messages name the end of the tokens. -/
def endLabel : String := "<eof>"

/-- How messages name a token of this kind. -/
def label : Token → String
  | .symbol s => s.text
  | .segment _ => "<path_seg>"
  | .float _ => "<float>"
  | .integer _ => "<integer>"
  | .escape _ => "<char_esc>"
  | .characters _ => "<char_seq>"
  | .input _ => "<input>"

/-- How messages name the next token, if there is one. -/
def labelOf : Option Token → String
  | some t => t.label
  | none => endLabel

/-- What a token carries, as listings show it. -/
def payload? : Token → Option String
  | .symbol _ => none
  | .segment s => some (String.ofList (Text.quoted s.toList))
  | .float x => some (String.ofList (FloatStyle.listing.write x))
  | .integer n => some (toString n.toInt)
  | .escape c => some (String.ofList (Text.quotedChar c))
  | .characters s => some (String.ofList (Text.quoted s.toList))
  | .input name => some name

/-- The line that a listing of tokens has for this token. -/
def listing (t : Token) : String :=
  match t.payload? with
  | none => t.label
  | some payload => t.label ++ " " ++ payload

end Token

end ConfigLang
