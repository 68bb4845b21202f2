import ConfigLang.Binary64.Rounding
import ConfigLang.Text.Hexadecimal

/-!
# What plain YAML scalars read as

A text written without quotes may read as a null, a boolean or a number. Such texts are quoted when
they are meant as strings.
-/

namespace ConfigLang.Yaml

/-- The spellings of null, the empty text among them. -/
def isNullText (s : String) : Bool := s ∈ ["", "null", "Null", "NULL", "~"]

/-- The spellings of the booleans. -/
def isBoolText (s : String) : Bool := s ∈ ["true", "True", "TRUE", "false", "False", "FALSE"]

/-! ## Whole numbers -/

/-- The base that a mark before the digits names. -/
def baseOfMark? : Char → Option Nat
  | 'x' => some 16
  | 'o' => some 8
  | 'b' => some 2
  | _ => none

/-- The number that digits of a base denote, if there is at least one and all are digits of it. -/
def digitsValue? (base : Nat) (cs : List Char) : Option Nat :=
  if !cs.isEmpty && cs.all fun c => Text.isHexDigit c && decide (Text.hexDigitValue c < base) then
    some (cs.foldl (fun n c => base * n + Text.hexDigitValue c) 0)
  else none

/-- Digits in base ten, or in the base named by a mark after a zero. -/
def isWholeBelow (limit : Nat) (cs : List Char) : Bool :=
  let marked := match cs with
    | '0' :: mark :: digits => (baseOfMark? mark).bind (digitsValue? · digits)
    | _ => none
  marked.any (· < limit) || (digitsValue? 10 cs).any (· < limit)

/-- A whole number of at most 128 bits, with an optional sign; a minus sign takes one of them. -/
def isIntegerText : List Char → Bool
  | '+' :: cs => isWholeBelow (Nat.pow 2 128) cs
  | '-' :: cs => isWholeBelow (Nat.pow 2 127 + 1) cs
  | cs => isWholeBelow (Nat.pow 2 128) cs

/-- Two or more decimal digits that start with zero, with an optional sign. -/
def isZeroLedText (s : List Char) : Bool :=
  let cs := match s with
    | '+' :: cs => cs
    | '-' :: cs => cs
    | cs => cs
  cs.head? = some '0' && decide (1 < cs.length) && cs.all Char.isDigit

/-! ## Floating-point numbers -/

/-- The magnitude of decimal digits around at most one point, with an optional exponent. -/
def floatMagnitude? (cs : List Char) : Option Nat :=
  let whole := cs.takeWhile Char.isDigit
  let (fraction, rest) := match cs.dropWhile Char.isDigit with
    | '.' :: rest => (rest.takeWhile Char.isDigit, rest.dropWhile Char.isDigit)
    | rest => ([], rest)
  let exponent? : Option Int := match rest with
    | [] => some 0
    | e :: rest =>
      if e = 'e' ∨ e = 'E' then
        match rest with
        | '-' :: digits => (digitsValue? 10 digits).map fun n => -(n : Int)
        | '+' :: digits => (digitsValue? 10 digits).map fun n => (n : Int)
        | digits => (digitsValue? 10 digits).map fun n => (n : Int)
      else none
  if whole.isEmpty && fraction.isEmpty then none
  else exponent?.map fun exponent =>
    Binary64.decimalMagnitude (Nat.ofDigitChars 10 (whole ++ fraction) 0)
      (exponent - fraction.length)

/-- A decimal that does not round to infinity, with an optional sign, or a name of infinity or
NaN. -/
def isFloatText (s : List Char) : Bool :=
  let absolute := match s with
    | '+' :: cs => cs
    | '-' :: cs => cs
    | cs => cs
  String.ofList absolute ∈ [".inf", ".Inf", ".INF"] ||
    String.ofList s ∈ [".nan", ".NaN", ".NAN"] ||
    (floatMagnitude? absolute).any (· < Binary64.infinityMagnitude)

/-- Whether `s` without quotes would not be read as a string by every reader. -/
def readsAsOther (s : List Char) : Bool :=
  isNullText (String.ofList s) || isBoolText (String.ofList s) || isIntegerText s ||
    isZeroLedText s || isFloatText s

end ConfigLang.Yaml
