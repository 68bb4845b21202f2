/-!
# Excerpts

The part of a text that a message quotes: its first line, cut after a fixed number of characters.
-/

namespace ConfigLang.Text

/-- A carriage return at the very end is dropped. -/
def dropFinalReturn (line : List Char) : List Char :=
  if line.getLast? = some '\r' then line.dropLast else line

/-- The text up to its first line feed. A carriage return counts as part of the line break only
when the line feed follows it. -/
def firstLine (s : List Char) : List Char :=
  let line := s.takeWhile (· ≠ '\n')
  if line.length < s.length then dropFinalReturn line else line

/-- How many characters of a line an excerpt keeps. -/
def excerptLimit : Nat := 24

/-- The first line of `s`; a longer line is cut and ends in three dots. -/
def excerpt (s : List Char) : List Char :=
  let line := firstLine s
  if line.length ≤ excerptLimit then line else line.take excerptLimit ++ ['.', '.', '.']

end ConfigLang.Text
