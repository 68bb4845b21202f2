import ConfigLang.Lexer.BytePatterns
import ConfigLang.Lexer.Run

/-!
# A lexer with a position

A lexer can keep its source as a whole, and its place there as a number of bytes. In each step such
a cursor cuts the source at its place, skips trivia in a loop that goes to the end of the blanks and
to the end of the comment behind them by turns, and tries the patterns by bytes.
-/

namespace ConfigLang.Lexer

open String (utf8Len utf8Len_cons utf8Len_append)

/-! ## Trivia -/

/-- The first line of a comment behind blanks takes some bytes. -/
theorem comment_pos {rest : List Char} (h : ['/', '/'].isPrefixOf (rest.dropWhile Text.isBlank)) :
    0 < leading (· ≠ '\n') (rest.dropWhile Text.isBlank) ∧ 0 < utf8Len rest := by
  obtain ⟨line, hline⟩ := List.isPrefixOf_iff_prefix.1 h
  have hle : utf8Len (rest.dropWhile Text.isBlank) ≤ utf8Len rest :=
    String.utf8Len_le_of_suffix (List.dropWhile_suffix _)
  have hslash : '/'.utf8Size = 1 := rfl
  rw [← hline] at hle ⊢
  rw [leading_eq, List.cons_append, List.takeWhile_cons_of_pos (by decide)]
  rw [List.cons_append, utf8Len_cons] at hle
  rw [utf8Len_cons]
  constructor <;> omega

theorem utf8Len_of_splitBytes {n : Nat} {source : String} {front back : List Char}
    (h : splitBytes n source.toList = some (front, back)) :
    n + utf8Len back = source.utf8ByteSize := by
  obtain ⟨hsource, hn⟩ := splitBytes_eq_some_iff.1 h
  rw [← String.utf8Len_toList, hsource, utf8Len_append, hn]

/-- The position behind the trivia at a position: behind the blanks there, and if a comment follows
them, behind the trivia at the line feed that ends it, or at the end of the source. -/
def skipFrom (source : String) (position : Nat) : Option Nat :=
  match _hcut : splitBytes position source.toList with
  | none => none
  | some (_, rest) =>
    let trimmed := rest.dropWhile Text.isBlank
    let start := position + (utf8Len rest - utf8Len trimmed)
    if ['/', '/'].isPrefixOf trimmed then skipFrom source (start + leading (· ≠ '\n') trimmed)
    else some start
termination_by source.utf8ByteSize - position
decreasing_by
  rename_i hcomment
  obtain ⟨hline, hrest⟩ := comment_pos hcomment
  have hsize := utf8Len_of_splitBytes _hcut
  omega

/-! ## Steps -/

/-- Reads a token by the first rule whose pattern does not decline. -/
def tryRules : List Rule → List Char → Slicing (Option (Token × Nat × Move))
  | [], _ => return none
  | rule :: rules, cs => do
    match ← rule.pattern.tryMatch cs with
    | some (t, n) => return some (t, n, rule.move)
    | none => tryRules rules cs

/-- A lexer that keeps its place in a source as a number of bytes. -/
structure Cursor where
  source : String
  position : Nat
  modes : List Mode

namespace Cursor

/-- A cursor at the start of a source. -/
def ofText (source : String) : Cursor := ⟨source, 0, [.topLevel]⟩

/-- The text behind the position. -/
def remaining (c : Cursor) : Option (List Char) :=
  (splitBytes c.position c.source.toList).map Prod.snd

/-- The cursor behind trivia, unless a string is open. -/
def skip (c : Cursor) : Option Cursor :=
  if c.modes.head? = some .string then some c
  else (skipFrom c.source c.position).map fun position => { c with position }

/-- Reads the next token, or finds that the source has ended. -/
def next (c : Cursor) : Option (Except LexError (Option Token) × Cursor) := do
  let c ← c.skip
  let rest ← c.remaining
  if rest.isEmpty then return (.ok none, c)
  else
    match c.modes with
    | [] => return (.error (.unexpectedText none (String.ofList (Text.excerpt rest))), c)
    | mode :: _ =>
      match ← (tryRules mode.rules rest).run with
      | .error e => return (.error e, c)
      | .ok none =>
        return (.error (.unexpectedText (some mode) (String.ofList (Text.excerpt rest))), c)
      | .ok (some (t, n, move)) =>
        if n = 0 then return (.error (.stalled mode), c)
        else return (.ok (some t), ⟨c.source, c.position + n, move.apply c.modes⟩)

/-- The cursor after a number of steps, whether or not they have read a token. -/
def afterSteps (c : Cursor) : Nat → Option Cursor
  | 0 => some c
  | k + 1 => do
    let (_, c) ← (← c.afterSteps k).next
    return c

end Cursor

end ConfigLang.Lexer
