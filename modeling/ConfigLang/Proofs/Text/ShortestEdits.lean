import ConfigLang.Text.EditDistance
import Mathlib.Order.Bounds.Basic

/-!
# The distance of two texts is that of a shortest script

A script turns a text into another by single edits, at any places and in any order. The distance
that is computed row by row takes edits from the left only; no other script is shorter.

* `editDistance_cons_cons`: the recurrence that the rows follow.
* `Edit.editDistance_le`: one edit changes the distance to another text by one at most.
* `isLeast_editDistance`: the distance is the length of a shortest script.
* `editDistance_comm`, `editDistance_triangle`, `editDistance_reverse`: scripts can be undone, put
  together and read from the right.
-/

namespace ConfigLang.Text

/-! ## Scripts -/

/-- One character inserted, deleted or replaced. -/
inductive Edit : List Char → List Char → Prop where
  | insert (u v : List Char) (c : Char) : Edit (u ++ v) (u ++ c :: v)
  | delete (u v : List Char) (c : Char) : Edit (u ++ c :: v) (u ++ v)
  | replace (u v : List Char) (c d : Char) : Edit (u ++ c :: v) (u ++ d :: v)

/-- Some script of `n` edits turns one text into another. -/
inductive Edits : Nat → List Char → List Char → Prop where
  | none (s : List Char) : Edits 0 s s
  | cons {n : Nat} {s s' t : List Char} (h : Edit s s') (rest : Edits n s' t) : Edits (n + 1) s t

section
variable {m n : Nat} {s s' t u : List Char}

theorem Edit.symm (h : Edit s t) : Edit t s := by
  cases h with
  | insert u v c => exact .delete u v c
  | delete u v c => exact .insert u v c
  | replace u v c d => exact .replace u v d c

theorem Edit.after (h : Edit s t) (c : Char) : Edit (c :: s) (c :: t) := by
  cases h with
  | insert u v d => exact .insert (c :: u) v d
  | delete u v d => exact .delete (c :: u) v d
  | replace u v d e => exact .replace (c :: u) v d e

theorem Edit.reverse (h : Edit s t) : Edit s.reverse t.reverse := by
  cases h with
  | insert u v c => simpa using Edit.insert v.reverse u.reverse c
  | delete u v c => simpa using Edit.delete v.reverse u.reverse c
  | replace u v c d => simpa using Edit.replace v.reverse u.reverse c d

theorem Edits.trans (h : Edits m s t) (h' : Edits n t u) : Edits (m + n) s u := by
  induction h with
  | none => simpa using h'
  | cons h _ ih => simpa [Nat.add_right_comm] using Edits.cons h (ih h')

theorem Edits.single (h : Edit s t) : Edits 1 s t := .cons h (.none t)

theorem Edits.symm (h : Edits n s t) : Edits n t s := by
  induction h with
  | none s => exact .none s
  | cons h _ ih => exact ih.trans (.single h.symm)

theorem Edits.after (h : Edits n s t) (c : Char) : Edits n (c :: s) (c :: t) := by
  induction h with
  | none s => exact .none (c :: s)
  | cons h _ ih => exact .cons (h.after c) ih

theorem Edits.reverse (h : Edits n s t) : Edits n s.reverse t.reverse := by
  induction h with
  | none s => exact .none s.reverse
  | cons h _ ih => exact .cons h.reverse ih

theorem Edits.eq_of_zero (h : Edits 0 s t) : s = t := by
  cases h
  rfl

end

/-! ## The recurrence -/

theorem distances_nil (s : List Char) : distances [] s = [s.length] := by
  induction s with
  | nil => rfl
  | cons c s ih => rw [distances, ih]; rfl

theorem distances_ne_nil (t s : List Char) : distances t s ≠ [] := by
  induction s with
  | nil => simp [distances]
  | cons c s ih =>
    obtain ⟨below, row, hrow⟩ := List.exists_cons_of_ne_nil ih
    rw [distances, hrow]
    cases t <;> cases row <;> simp [distanceRow]

theorem exists_distances (t s : List Char) : ∃ row, distances t s = editDistance s t :: row := by
  obtain ⟨below, row, hrow⟩ := List.exists_cons_of_ne_nil (distances_ne_nil t s)
  exact ⟨row, by rw [editDistance, hrow]; rfl⟩

/-- A row goes on with the row for the suffixes of what is behind its first character. -/
theorem distances_cons (d : Char) (t s : List Char) :
    distances (d :: t) s = editDistance s (d :: t) :: distances t s := by
  induction s with
  | nil => simp [distances, editDistance, List.range_succ]
  | cons c s ih =>
    obtain ⟨row, hrow⟩ := exists_distances t s
    rw [editDistance, distances, distances, ih, hrow]
    rfl

theorem editDistance_nil_left (t : List Char) : editDistance [] t = t.length := by
  simp [editDistance, distances, List.range_succ]

theorem editDistance_nil_right (s : List Char) : editDistance s [] = s.length := by
  rw [editDistance, distances_nil]
  rfl

theorem editDistance_cons_cons (c d : Char) (s t : List Char) :
    editDistance (c :: s) (d :: t) =
      min (min (editDistance s (d :: t) + 1) (editDistance (c :: s) t + 1))
        (editDistance s t + if c = d then 0 else 1) := by
  obtain ⟨row, hrow⟩ := exists_distances t s
  rw [editDistance, distances, distances_cons, hrow, distanceRow, ← hrow]
  rfl

/-! ## No script is shorter -/

theorem editDistance_self (s : List Char) : editDistance s s = 0 := by
  induction s with
  | nil => rfl
  | cons c s ih => simp [editDistance_cons_cons, ih]

theorem editDistance_cons_le (c : Char) (s t : List Char) :
    editDistance (c :: s) t ≤ editDistance s t + 1 := by
  cases t with
  | nil => simp [editDistance_nil_right]
  | cons d t =>
    rw [editDistance_cons_cons]
    omega

theorem editDistance_le_of_cons_right (d : Char) (s t : List Char) :
    editDistance s (d :: t) ≤ editDistance s t + 1 := by
  cases s with
  | nil => simp [editDistance_nil_left]
  | cons c s =>
    rw [editDistance_cons_cons]
    omega

theorem editDistance_le_cons (c : Char) (s t : List Char) :
    editDistance s t ≤ editDistance (c :: s) t + 1 := by
  induction t with
  | nil => simp only [editDistance_nil_right, List.length_cons]; omega
  | cons d t ih =>
    have hright := editDistance_le_of_cons_right d s t
    rw [editDistance_cons_cons]
    omega

theorem editDistance_replace_le (c c' : Char) (s t : List Char) :
    editDistance (c :: s) t ≤ editDistance (c' :: s) t + 1 := by
  induction t with
  | nil => simp [editDistance_nil_right]
  | cons d t ih =>
    rw [editDistance_cons_cons, editDistance_cons_cons]
    split <;> split <;> omega

section
variable {s s' : List Char} (h : ∀ t, editDistance s t ≤ editDistance s' t + 1)
include h

theorem editDistance_cons_le_cons (c : Char) (t : List Char) :
    editDistance (c :: s) t ≤ editDistance (c :: s') t + 1 := by
  induction t with
  | nil => simpa [editDistance_nil_right] using h []
  | cons d t ih =>
    have hskip := h (d :: t)
    have hboth := h t
    rw [editDistance_cons_cons, editDistance_cons_cons]
    omega

/-- What stands before the edit does not matter. -/
theorem editDistance_append_le (u t : List Char) :
    editDistance (u ++ s) t ≤ editDistance (u ++ s') t + 1 := by
  induction u generalizing t with
  | nil => exact h t
  | cons c u ih => exact editDistance_cons_le_cons ih c t

end

theorem Edit.editDistance_le {s s' : List Char} (h : Edit s s') (t : List Char) :
    editDistance s t ≤ editDistance s' t + 1 := by
  cases h with
  | insert u v c => exact editDistance_append_le (editDistance_le_cons c v) u t
  | delete u v c => exact editDistance_append_le (editDistance_cons_le c v) u t
  | replace u v c c' => exact editDistance_append_le (editDistance_replace_le c c' v) u t

theorem Edits.editDistance_le {n : Nat} {s t : List Char} (h : Edits n s t) :
    editDistance s t ≤ n := by
  induction h with
  | none s => exact (editDistance_self s).le
  | @cons n s s' t h _ ih =>
    have hfirst := h.editDistance_le t
    omega

/-! ## A script of this length -/

theorem edits_from_nil (t : List Char) : Edits t.length [] t := by
  induction t with
  | nil => exact .none []
  | cons d t ih => exact .cons (.insert [] [] d) (ih.after d)

theorem edits_editDistance (s t : List Char) : Edits (editDistance s t) s t := by
  induction s generalizing t with
  | nil =>
    rw [editDistance_nil_left]
    exact edits_from_nil t
  | cons c s ihs =>
    induction t with
    | nil =>
      rw [editDistance_nil_right]
      simpa using (edits_from_nil (c :: s)).symm
    | cons d t iht =>
      have hdelete : Edits (editDistance s (d :: t) + 1) (c :: s) (d :: t) :=
        .cons (.delete [] s c) (ihs (d :: t))
      have hinsert : Edits (editDistance (c :: s) t + 1) (c :: s) (d :: t) :=
        iht.trans (.single (.insert [] t d))
      have hboth : Edits (editDistance s t + if c = d then 0 else 1) (c :: s) (d :: t) := by
        split
        · subst d
          exact (ihs t).after c
        · exact .cons (.replace [] s c d) ((ihs t).after d)
      have hleast : editDistance (c :: s) (d :: t) = editDistance s (d :: t) + 1 ∨
          editDistance (c :: s) (d :: t) = editDistance (c :: s) t + 1 ∨
          editDistance (c :: s) (d :: t) = editDistance s t + if c = d then 0 else 1 := by
        rw [editDistance_cons_cons]
        omega
      rcases hleast with h | h | h
      · rwa [h]
      · rwa [h]
      · rwa [h]

/-- The distance is the number of edits of a shortest script. -/
theorem isLeast_editDistance (s t : List Char) :
    IsLeast {n | Edits n s t} (editDistance s t) :=
  ⟨edits_editDistance s t, fun _ h => Edits.editDistance_le h⟩

/-! ## A metric -/

theorem editDistance_comm (s t : List Char) : editDistance s t = editDistance t s :=
  Nat.le_antisymm (edits_editDistance t s).symm.editDistance_le
    (edits_editDistance s t).symm.editDistance_le

theorem editDistance_eq_zero_iff {s t : List Char} : editDistance s t = 0 ↔ s = t := by
  constructor
  · intro h
    exact Edits.eq_of_zero (h ▸ edits_editDistance s t)
  · intro h
    rw [h, editDistance_self]

theorem editDistance_triangle (s t u : List Char) :
    editDistance s u ≤ editDistance s t + editDistance t u :=
  ((edits_editDistance s t).trans (edits_editDistance t u)).editDistance_le

theorem editDistance_reverse (s t : List Char) :
    editDistance s.reverse t.reverse = editDistance s t := by
  refine Nat.le_antisymm (edits_editDistance s t).reverse.editDistance_le ?_
  simpa using (edits_editDistance s.reverse t.reverse).reverse.editDistance_le

/-- The recurrence at the ends of the texts. -/
theorem editDistance_concat_concat (c d : Char) (s t : List Char) :
    editDistance (s ++ [c]) (t ++ [d]) =
      min (min (editDistance s (t ++ [d]) + 1) (editDistance (s ++ [c]) t + 1))
        (editDistance s t + if c = d then 0 else 1) := by
  have h := editDistance_cons_cons c d s.reverse t.reverse
  have hs : c :: s.reverse = (s ++ [c]).reverse := by simp
  have ht : d :: t.reverse = (t ++ [d]).reverse := by simp
  rwa [hs, ht, editDistance_reverse, editDistance_reverse, editDistance_reverse,
    editDistance_reverse] at h

end ConfigLang.Text
