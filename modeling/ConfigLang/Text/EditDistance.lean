/-!
# Edit distance

The least number of characters to insert, delete or replace to turn one text into another. The
distances from a text to all suffixes of the other form a row; each character of the first text,
taken from its end, makes the next row from the one before. One row is enough if it is overwritten
in each pass.
-/

namespace ConfigLang.Text

/-- The row of `c :: s` from the row of `s`: its entry at a suffix `t` is the distance from
`c :: s` to `t`. -/
def distanceRow (c : Char) : List Char → List Nat → List Nat
  | [], below => below.map (· + 1)
  | d :: t, below :: diagonal :: row =>
    let rest := distanceRow c t (diagonal :: row)
    let right := rest.headD 0
    min (min (below + 1) (right + 1)) (diagonal + if c = d then 0 else 1) :: rest
  | _ :: _, row => row

/-- The distances from `s` to every suffix of `t`, the longest suffix first. -/
def distances (t : List Char) : List Char → List Nat
  | [] => (List.range (t.length + 1)).reverse
  | c :: s => distanceRow c t (distances t s)

/-- The least number of single-character edits from `s` to `t`. -/
def editDistance (s t : List Char) : Nat := (distances t s).headD 0

/-! ## In one row -/

/-- The row after one more character of the first text, the `i`th, against all of `t`. -/
def updateRow (c : Char) (i : Nat) (t : List Char) (before : Array Nat) : Array Nat := Id.run do
  let mut row := before
  let mut diagonal := row[0]!
  row := row.set! 0 (i + 1)
  for (d, j) in t.zipIdx do
    let next := min (min (row[j + 1]! + 1) (row[j]! + 1)) (diagonal + if c = d then 0 else 1)
    diagonal := row[j + 1]!
    row := row.set! (j + 1) next
  return row

/-- The distance of two texts, computed in one row. -/
def distanceInRow (s t : List Char) : Nat := Id.run do
  if s.isEmpty then
    return t.length
  if t.isEmpty then
    return s.length
  let mut row := Array.range (t.length + 1)
  for (c, i) in s.zipIdx do
    row := updateRow c i t row
  return row[t.length]!

end ConfigLang.Text
