import ConfigLang.Text.Extender
import ConfigLang.Text.Printable

/-!
# Quoted text

The form in which messages show text and single characters: between quotes, on one line, with
everything that could be misread written as an escape.
-/

namespace ConfigLang.Text

/-- `c` as `\u{…}`, with its code point in lowercase hexadecimal. -/
def codePointEscape (c : Char) : List Char :=
  ['\\', 'u', '\x7b'] ++ Nat.toDigits 16 c.toNat ++ ['\x7d']

/-- One character between quotes `quote`: the quote itself, the backslash and the usual controls
have escapes of two characters; extenders and unprintable characters are named by code point. -/
def escapeWithin (quote c : Char) : List Char :=
  match c with
  | '\x00' => ['\\', '0']
  | '\t' => ['\\', 't']
  | '\r' => ['\\', 'r']
  | '\n' => ['\\', 'n']
  | '\\' => ['\\', '\\']
  | c =>
    if c = quote then ['\\', c]
    else if isExtender c || !isPrintable c then codePointEscape c
    else [c]

/-- Text between double quotes. -/
def quoted (s : List Char) : List Char := '"' :: s.flatMap (escapeWithin '"') ++ ['"']

/-- A single character between single quotes. -/
def quotedChar (c : Char) : List Char := '\'' :: escapeWithin '\'' c ++ ['\'']

end ConfigLang.Text
