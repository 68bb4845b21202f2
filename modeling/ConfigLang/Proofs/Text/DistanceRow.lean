import ConfigLang.Proofs.Text.ShortestEdits
import Mathlib

/-!
# The distance in one row

One row is enough to compute the distance of two texts: it is passed once for each character of the
first text, and each entry is overwritten when the next needs no more of it than its old value,
which is saved.

* `IsRow`, `IsRowUpTo`: what the row holds between two passes, and in the middle of one.
* `IsRowUpTo.step`, `updateRow_isRow`: one entry, and one pass.
* `distanceInRow_eq`: the last entry is the distance.
* `editDistance_shortest`: the distance is that of a shortest script, and a metric.
-/

namespace ConfigLang.Text

open Std.Do

set_option mvcgen.warning false

/-! ## What the row holds -/

/-- The row holds the distances from `s` to the beginnings of `t`. -/
structure IsRow (s t : List Char) (row : Array Nat) : Prop where
  size : row.size = t.length + 1
  entry : ∀ j ≤ t.length, row[j]! = editDistance s (t.take j)

/-- Up to its `k`th entry the row is that of `s ++ [c]`, and behind it still that of `s`; the old
value of the `k`th entry is saved. -/
structure IsRowUpTo (k : Nat) (s : List Char) (c : Char) (t : List Char) (row : Array Nat)
    (saved : Nat) : Prop where
  size : row.size = t.length + 1
  behind : ∀ j ≤ k, row[j]! = editDistance (s ++ [c]) (t.take j)
  ahead : ∀ j, k < j → j ≤ t.length → row[j]! = editDistance s (t.take j)
  saved_eq : saved = editDistance s (t.take k)

theorem entry_set {row : Array Nat} {i : Nat} (h : i < row.size) (v j : Nat) :
    (row.set! i v)[j]! = if i = j then v else row[j]! := by
  grind

/-- The first row: a beginning of `t` is made of nothing by as many insertions as it is long. -/
theorem isRow_range (t : List Char) : IsRow [] t (Array.range (t.length + 1)) where
  size := by simp
  entry := by
    intro j hj
    have hlt : j < t.length + 1 := by omega
    simp [editDistance_nil_left, hj, hlt]

section
variable {s t : List Char} {c d : Char} {row : Array Nat} {k saved : Nat}

theorem IsRow.start (h : IsRow s t row) (c : Char) :
    IsRowUpTo 0 s c t (row.set! 0 (s.length + 1)) row[0]! where
  size := by simp [h.size]
  behind := by
    intro j hj
    obtain rfl : j = 0 := by omega
    simp [h.size, editDistance_nil_right]
  ahead := by
    intro j hj hle
    rw [entry_set (by simp [h.size]), if_neg (by omega), h.entry j hle]
  saved_eq := h.entry 0 (by omega)

/-- The next entry is computed from its own old value, the new value on its left and the saved one,
by the recurrence at the ends of the texts. -/
theorem IsRowUpTo.step (h : IsRowUpTo k s c t row saved) (hd : t[k]? = some d) :
    IsRowUpTo (k + 1) s c t
      (row.set! (k + 1)
        (min (min (row[k + 1]! + 1) (row[k]! + 1)) (saved + if c = d then 0 else 1)))
      row[k + 1]! := by
  obtain ⟨hk, hget⟩ := List.getElem?_eq_some_iff.1 hd
  have htake : t.take (k + 1) = t.take k ++ [d] := by
    rw [List.take_succ_eq_append_getElem hk, hget]
  have hsize : k + 1 < row.size := by rw [h.size]; omega
  have hold := h.ahead (k + 1) (by omega) (by omega)
  have hleft := h.behind k (by omega)
  refine ⟨by simp [h.size], ?_, ?_, hold⟩
  · intro j hj
    rw [entry_set hsize]
    by_cases hnew : k + 1 = j
    · rw [if_pos hnew, ← hnew, hold, hleft, h.saved_eq, htake, editDistance_concat_concat]
    · rw [if_neg hnew, h.behind j (by omega)]
  · intro j hj hle
    rw [entry_set hsize, if_neg (by omega), h.ahead j (by omega) hle]

theorem IsRowUpTo.isRow (h : IsRowUpTo t.length s c t row saved) : IsRow (s ++ [c]) t row :=
  ⟨h.size, h.behind⟩

end

/-! ## Loops -/

/-- The character that a loop over a text has come to, and its place. -/
theorem getElem?_of_zipIdx {t : List Char} {before after : List (Char × Nat)} {d : Char} {j : Nat}
    (h : t.zipIdx = before ++ (d, j) :: after) : j = before.length ∧ t[j]? = some d := by
  have hget : t.zipIdx[before.length]? = some (d, j) := by simp [h]
  grind

theorem updateRow_isRow {s t : List Char} {before : Array Nat} (h : IsRow s t before) (c : Char) :
    IsRow (s ++ [c]) t (updateRow c s.length t before) := by
  generalize hrow : updateRow c s.length t before = row
  unfold updateRow at hrow
  apply Id.of_wp_run_eq hrow
  mvcgen invariants
  | inv1 => ⇓⟨cursor, row, saved⟩ => ⌜IsRowUpTo cursor.prefix.length s c t row saved⌝
  case vc1.step passed current rest hsplit state _ _ hinv =>
    obtain ⟨hj, hd⟩ := getElem?_of_zipIdx hsplit
    rw [hj] at hd
    simpa [hj] using hinv.step hd
  case vc2.pre => exact h.start c
  case vc3.post.success hinv =>
    rw [List.length_zipIdx] at hinv
    exact hinv.isRow

theorem distanceInRow_eq (s t : List Char) : distanceInRow s t = editDistance s t := by
  apply Id.of_wp_run_eq rfl (fun n => n = editDistance s t)
  mvcgen invariants
  | inv1 => ⇓⟨cursor, row⟩ => ⌜IsRow (List.map Prod.fst cursor.prefix) t row⌝
  case vc1.isTrue hs =>
    rw [List.isEmpty_iff.1 hs, editDistance_nil_left]
  case vc2.isFalse.isTrue ht =>
    rw [List.isEmpty_iff.1 ht, editDistance_nil_right]
  case vc3.step passed current rest hsplit before _ hinv =>
    obtain ⟨hi, -⟩ := getElem?_of_zipIdx hsplit
    show IsRow ((passed ++ [current]).map Prod.fst) t (updateRow current.1 current.2 t before)
    simpa [hi] using updateRow_isRow hinv current.1
  case vc4.isFalse.isFalse.pre => exact isRow_range t
  case vc5.isFalse.isFalse.post.success hinv =>
    simpa using hinv.entry t.length (by omega)

/-! ## The edit distance -/

/-- **The distance of two texts is the least number of edits.** Some script of so many insertions,
deletions and replacements of one character turns the one into the other, and none is shorter; one
row that is passed in place computes it. So it is symmetric, zero only between equal texts, and no
way over a third text is shorter. -/
theorem editDistance_shortest (s t : List Char) :
    IsLeast {n | Edits n s t} (editDistance s t) ∧ distanceInRow s t = editDistance s t ∧
      editDistance t s = editDistance s t ∧ (editDistance s t = 0 ↔ s = t) ∧
      ∀ u, editDistance s u ≤ editDistance s t + editDistance t u :=
  ⟨isLeast_editDistance s t, distanceInRow_eq s t, editDistance_comm t s,
    editDistance_eq_zero_iff, editDistance_triangle s t⟩

/-- Two characters are replaced and one is inserted. -/
example : distanceInRow "kitten".toList "sitting".toList = 3 := by decide +kernel

end ConfigLang.Text
