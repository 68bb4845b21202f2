import Mathlib.Data.String.Basic
import ConfigLang.Lexer.Scan

/-!
# Patterns by bytes

A lexer that keeps its place as a number of bytes works out how long a token is by adding up lengths
in bytes, and takes texts apart at the sums. Such a cut has no result inside a character or behind
the end of the text. The patterns are written here in that way, with a cut that has no result as a
failure of its own.
-/

namespace ConfigLang.Lexer

open String (utf8Len utf8Len_cons utf8Len_eq_zero)

/-! ## Cuts -/

/-- The text before and after its first `n` bytes, where a character ends or starts there. -/
def splitBytes : Nat → List Char → Option (List Char × List Char)
  | 0, cs => some ([], cs)
  | _ + 1, [] => none
  | n + 1, c :: cs =>
    if c.utf8Size ≤ n + 1 then
      (splitBytes (n + 1 - c.utf8Size) cs).map fun (front, back) => (c :: front, back)
    else none

/-- A text can be cut where a character ends or starts, and nowhere else. -/
theorem splitBytes_eq_some_iff {n : Nat} {cs front back : List Char} :
    splitBytes n cs = some (front, back) ↔ cs = front ++ back ∧ utf8Len front = n := by
  fun_induction splitBytes n cs generalizing front with
  | case1 cs =>
    rw [Option.some.injEq, Prod.mk.injEq, utf8Len_eq_zero]
    constructor
    · rintro ⟨rfl, rfl⟩
      exact ⟨rfl, rfl⟩
    · rintro ⟨rfl, rfl⟩
      exact ⟨rfl, rfl⟩
  | case2 n =>
    simp only [reduceCtorEq, false_iff, not_and]
    intro h
    obtain ⟨rfl, -⟩ := List.append_eq_nil_iff.1 h.symm
    simp
  | case3 n c cs hle ih =>
    have hpos := c.utf8Size_pos
    simp only [Option.map_eq_some_iff, Prod.mk.injEq, Prod.exists]
    constructor
    · rintro ⟨front, back, h, rfl, rfl⟩
      obtain ⟨rfl, hlen⟩ := ih.1 h
      refine ⟨rfl, ?_⟩
      rw [utf8Len_cons]
      omega
    · rintro ⟨hcs, hlen⟩
      cases front with
      | nil => cases hlen
      | cons d front =>
        obtain ⟨rfl, rfl⟩ := List.cons.inj hcs
        rw [utf8Len_cons] at hlen
        exact ⟨front, back, ih.2 ⟨rfl, by omega⟩, rfl, rfl⟩
  | case4 n c cs hlt =>
    simp only [reduceCtorEq, false_iff, not_and]
    intro hcs hlen
    cases front with
    | nil => cases hlen
    | cons d front =>
      obtain ⟨rfl, -⟩ := List.cons.inj hcs
      rw [utf8Len_cons] at hlen
      omega

/-- A computation that refuses a text by an error, and has no result at all after a cut that has
none. -/
abbrev Slicing (α : Type) := ExceptT LexError Option α

/-- The first `n` bytes of a text. -/
def upTo (n : Nat) (cs : List Char) : Slicing (List Char) := liftM ((splitBytes n cs).map Prod.fst)

/-- A text without its first `n` bytes. -/
def behind (n : Nat) (cs : List Char) : Slicing (List Char) :=
  liftM ((splitBytes n cs).map Prod.snd)

/-- The number of bytes before the first character of a kind. -/
def findByte (p : Char → Bool) : List Char → Option Nat
  | [] => none
  | c :: cs => if p c then some 0 else (findByte p cs).map (c.utf8Size + ·)

/-- The number of bytes of the characters of a kind that a text starts with. -/
def leading (p : Char → Bool) (cs : List Char) : Nat :=
  (findByte (fun c => !p c) cs).getD (utf8Len cs)

theorem findByte_eq (p : Char → Bool) (cs : List Char) :
    findByte p cs = if (cs.takeWhile fun c => !p c).length < cs.length then
      some (utf8Len (cs.takeWhile fun c => !p c)) else none := by
  induction cs with
  | nil => rfl
  | cons c cs ih =>
    rw [findByte, List.takeWhile_cons]
    cases hc : p c with
    | true => simp
    | false =>
      simp only [Bool.false_eq_true, if_false, ih, Bool.not_false, if_true, List.length_cons,
        Nat.add_lt_add_iff_right, utf8Len_cons]
      split
      · rw [Option.map_some, Nat.add_comm]
      · rfl

theorem leading_eq (p : Char → Bool) (cs : List Char) :
    leading p cs = utf8Len (cs.takeWhile p) := by
  have hnot : (fun c => !!p c) = p := funext fun c => Bool.not_not (p c)
  have hrun : cs.takeWhile p <+: cs := List.takeWhile_prefix p
  rw [leading, findByte_eq, hnot]
  split
  · rfl
  · rename_i hlen
    have hall : cs.takeWhile p = cs := hrun.eq_of_length_le (Nat.le_of_not_lt hlen)
    rw [hall]
    rfl

/-- The number of bytes of a minus sign, if there is one. -/
def signLength (cs : List Char) : Nat := if cs.head? = some '-' then 1 else 0

/-! ## Patterns -/

/-- A symbol and the length of its spelling. -/
def matchSymbol (s : Symbol) (cs : List Char) : Slicing (Option (Token × Nat)) :=
  if s.text.toList.isPrefixOf cs then return some (.symbol s, s.text.utf8ByteSize) else return none

/-- A dollar sign and a name. -/
def matchInput : List Char → Slicing (Option (Token × Nat))
  | '$' :: rest =>
    match rest.head? with
    | some first =>
      if isNameStart first then do
        let len := 1 + leading isNameChar rest
        return some (.input (String.ofList (← upTo len ('$' :: rest))), len)
      else return none
    | none => return none
  | _ => return none

/-- The text between two single quotes, and the length of both with it. -/
def matchQuotedSegment : List Char → Slicing (Option (Token × Nat))
  | '\'' :: rest =>
    match findByte (· == '\'') rest with
    | some stop => do
      return some (.segment (String.ofList (← upTo stop rest)), stop + 2)
    | none =>
      throw (.invalidLiteral (String.ofList (Text.excerpt ('\'' :: rest))) .unterminatedSegment)
  | _ => return none

/-- A run of characters of one kind. -/
def matchRun (p : Char → Bool) (token : String → Token) (cs : List Char) :
    Slicing (Option (Token × Nat)) :=
  let len := leading p cs
  if 0 < len then do
    return some (token (String.ofList (← upTo len cs)), len)
  else return none

/-- The length of an exponent with at least one digit. -/
def exponentLength : List Char → Slicing Nat
  | e :: cs =>
    if e = 'e' ∨ e = 'E' then do
      let sign := if cs.head? = some '+' ∨ cs.head? = some '-' then 1 else 0
      let digits := leading Char.isDigit (← behind sign cs)
      return if 0 < digits then 1 + sign + digits else 0
    else return 0
  | [] => return 0

/-- The number that the text of a float denotes. -/
def parseFloat (text : List Char) : Binary64 :=
  let sign := signOf text
  let whole := (text.drop sign.length).takeWhile Char.isDigit
  let decimals := text.drop (sign.length + whole.length + 1)
  let fraction := decimals.takeWhile Char.isDigit
  floatValue (!sign.isEmpty) whole fraction (decimals.drop fraction.length)

/-- A float in `cs` whose point stands behind `head` bytes and before `rest`. -/
def matchDecimals (cs : List Char) (head : Nat) (rest : List Char) :
    Slicing (Option (Token × Nat)) :=
  let fraction := leading Char.isDigit rest
  if fraction = 0 then
    if rest.head? = some '.' then return none
    else do
      throw (.invalidLiteral (String.ofList (← upTo (head + 1) cs)) .missingFraction)
  else do
    let point := head + (1 + fraction)
    let len := point + (← exponentLength (← behind point cs))
    let text ← upTo len cs
    let value := parseFloat text
    if value.isFinite then return some (.float value, len)
    else throw (.invalidLiteral (String.ofList text) .floatRange)

/-- A float, with the lengths of its parts added up on the way. -/
def matchFloat (cs : List Char) : Slicing (Option (Token × Nat)) := do
  let sign := signLength cs
  let whole := leading Char.isDigit (← behind sign cs)
  if whole = 0 then return none
  else
    let head := sign + whole
    match ← behind head cs with
    | '.' :: rest => matchDecimals cs head rest
    | _ => return none

/-- A hexadecimal integer: two bytes for its mark, and one for each digit. -/
def matchHexInteger : List Char → Slicing (Option (Token × Nat))
  | '0' :: 'x' :: rest => do
    let digits := leading Text.isHexDigit rest
    let text ← upTo (2 + digits) ('0' :: 'x' :: rest)
    if digits = 0 then throw (.invalidLiteral (String.ofList text) .missingHexDigits)
    else
      let value := Text.ofHexDigits (← upTo digits rest) 0
      if value < 0x100000000 then return some (.integer (Int32.ofNat value), utf8Len text)
      else throw (.invalidLiteral (String.ofList text) .hexRange)
  | _ => return none

/-- The integer that a text of digits behind a sign denotes, within 32 bits. -/
def parseInteger? (text : List Char) : Option Int32 :=
  let sign := signOf text
  let value := integerValue sign (text.drop sign.length)
  if -0x80000000 ≤ value ∧ value < 0x80000000 then some (Int32.ofInt value) else none

/-- A decimal integer. -/
def matchInteger (cs : List Char) : Slicing (Option (Token × Nat)) := do
  let sign := signLength cs
  let digits := leading Char.isDigit (← behind sign cs)
  if digits = 0 then return none
  else
    let len := sign + digits
    let text ← upTo len cs
    match parseInteger? text with
    | some n => return some (.integer n, len)
    | none => throw (.invalidLiteral (String.ofList text) .integerRange)

/-- Four bytes that are hexadecimal digits and name a character. With the two bytes before them they
are six. -/
def matchCodePoint (hex : List Char) : Slicing (Option (Token × Nat)) :=
  let invalid := LexError.invalidEscape (String.ofList ('\\' :: 'u' :: hex.take 4))
  match splitBytes 4 hex with
  | some (digits, _) =>
    if digits.all Text.isHexDigit then
      match charOfCodePoint? (Text.ofHexDigits digits 0) with
      | some c => return some (.escape c, 6)
      | none => throw invalid
    else throw invalid
  | none => throw invalid

/-- An escape, which is two bytes long but for those that name a code point. -/
def matchEscape : List Char → Slicing (Option (Token × Nat))
  | '\\' :: rest =>
    match rest.head? with
    | some 'u' => do matchCodePoint (← behind 1 rest)
    | some c =>
      match simpleEscape? c with
      | some e => return some (.escape e, 2)
      | none => throw (.invalidEscape (String.ofList ['\\', c]))
    | none => throw (.invalidEscape "\\")
  | _ => return none

/-- Reads a token of the given class from the start of a text, with its length in bytes. -/
def Pattern.tryMatch : Pattern → List Char → Slicing (Option (Token × Nat))
  | .symbol s, cs => matchSymbol s cs
  | .input, cs => matchInput cs
  | .quotedSegment, cs => matchQuotedSegment cs
  | .segment, cs => matchRun isSegmentChar .segment cs
  | .float, cs => matchFloat cs
  | .hexInteger, cs => matchHexInteger cs
  | .integer, cs => matchInteger cs
  | .escape, cs => matchEscape cs
  | .characters, cs => matchRun isPlainChar .characters cs

end ConfigLang.Lexer
