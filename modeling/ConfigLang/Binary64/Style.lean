import ConfigLang.Binary64.Shortest

/-!
# Styles of written numbers

How the shortest digits of a floating-point number become text. Each output of the program has a
style of its own, next to the writer that uses it.
-/

namespace ConfigLang

/-- The decisions that one output takes about floating-point numbers. -/
structure FloatStyle where
  /-- Which of two equally near shortest decimals is written. -/
  ties : TieRule
  /-- The exponents of the first digit for which no exponent is written. -/
  positional : Int → Bool
  /-- Whether a whole number in positional form ends in `.0`. -/
  marksWhole : Bool
  /-- Whether a positive exponent has a plus sign. -/
  signsExponent : Bool
  /-- The text of infinity, after its sign. -/
  infinity : List Char
  /-- The text of NaN. -/
  nan : List Char

namespace FloatStyle

/-- Digits without the zeros at their end. -/
def dropFinalZeros (digits : List Char) : List Char :=
  (digits.reverse.dropWhile (· = '0')).reverse

/-- Digits with a point after the one of exponent zero; the first has the exponent `lead`. -/
def pointed (marksWhole : Bool) (digits : List Char) : (lead : Int) → List Char
  | .negSucc k => ['0', '.'] ++ List.replicate k '0' ++ digits
  | .ofNat k =>
    let whole := digits.take (k + 1) ++ List.replicate (k + 1 - digits.length) '0'
    match digits.drop (k + 1) with
    | [] => if marksWhole then whole ++ ['.', '0'] else whole
    | fraction => whole ++ '.' :: fraction

/-- The digits of an exponent with its sign. -/
def exponentText (signsExponent : Bool) : Int → List Char
  | .negSucc k => '-' :: Nat.toDigits 10 (k + 1)
  | .ofNat k => if signsExponent then '+' :: Nat.toDigits 10 k else Nat.toDigits 10 k

/-- Digits with a point after the first, and the exponent `lead`. -/
def scientific (signsExponent : Bool) (digits : List Char) (lead : Int) : List Char :=
  let mantissa := match digits with
    | first :: second :: rest => first :: '.' :: second :: rest
    | digits => digits
  mantissa ++ 'e' :: exponentText signsExponent lead

/-- The text of the absolute value `d`. -/
def writeDecimal (style : FloatStyle) (d : Decimal) : List Char :=
  if d.coefficient = 0 then pointed style.marksWhole ['0'] 0
  else
    let digits := Nat.toDigits 10 d.coefficient
    let lead := d.exponent + digits.length - 1
    if style.positional lead then pointed style.marksWhole (dropFinalZeros digits) lead
    else scientific style.signsExponent (dropFinalZeros digits) lead

/-- The text of `x`. -/
def write (style : FloatStyle) (x : Binary64) : List Char :=
  if x.isNaN then style.nan
  else
    let absolute :=
      if x.isFinite then
        style.writeDecimal (if x.magnitude = 0 then ⟨0, 0⟩ else x.shortest style.ties)
      else style.infinity
    if x.isNegative then '-' :: absolute else absolute

end FloatStyle

end ConfigLang
