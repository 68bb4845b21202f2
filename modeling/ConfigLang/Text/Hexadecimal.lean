/-!
# Hexadecimal digits
-/

namespace ConfigLang.Text

/-- One of `0` to `9`, `a` to `f` and `A` to `F`. -/
def isHexDigit (c : Char) : Bool :=
  c.isDigit || ('a' ≤ c && c ≤ 'f') || ('A' ≤ c && c ≤ 'F')

/-- The value of a hexadecimal digit. -/
def hexDigitValue (c : Char) : Nat :=
  if c.isDigit then c.toNat - '0'.toNat
  else if 'a' ≤ c then c.toNat - 'a'.toNat + 10
  else c.toNat - 'A'.toNat + 10

/-- The number that a run of hexadecimal digits denotes, read from `n` on. -/
def ofHexDigits : List Char → Nat → Nat
  | [], n => n
  | c :: cs, n => ofHexDigits cs (16 * n + hexDigitValue c)

/-- `n` in hexadecimal with the given digits above nine, padded with zeros to `width`. -/
def toHexDigits (upper : Bool) (width n : Nat) : List Char :=
  let digits := (Nat.toDigits 16 n).map fun c => if upper then c.toUpper else c
  List.replicate (width - digits.length) '0' ++ digits

end ConfigLang.Text
