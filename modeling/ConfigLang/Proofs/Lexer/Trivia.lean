import ConfigLang.Lexer.Run

/-!
# Trivia

White space and comments as texts of their own, beside the functions that skip them.

* `skipTrivia_append`: trivia before a text is skipped.
* `exists_trivia`: what is skipped is trivia, closed unless the text ends in a comment.
* `skipTrivia_eq_self_iff`: nothing is skipped where neither white space nor a comment starts.
* `skipTrivia_maximal`: behind the trivia starts neither white space nor a comment.
-/

namespace ConfigLang.Lexer

open Text (isBlank)

/-- White space and comments, each comment closed by the end of its line. -/
inductive IsTrivia : List Char → Prop
  | nil : IsTrivia []
  | blank {c : Char} {cs : List Char} (hc : isBlank c) (h : IsTrivia cs) : IsTrivia (c :: cs)
  | comment {body cs : List Char} (hbody : '\n' ∉ body) (h : IsTrivia cs) :
    IsTrivia ('/' :: '/' :: body ++ '\n' :: cs)

/-- Trivia at the end of a text, where a comment need not be closed. -/
inductive IsLastTrivia : List Char → Prop
  | closed {cs : List Char} (h : IsTrivia cs) : IsLastTrivia cs
  | comment {cs body : List Char} (h : IsTrivia cs) (hbody : '\n' ∉ body) :
    IsLastTrivia (cs ++ '/' :: '/' :: body)

theorem IsLastTrivia.blank {c : Char} {cs : List Char} (hc : isBlank c) (h : IsLastTrivia cs) :
    IsLastTrivia (c :: cs) := by
  cases h with
  | closed h => exact .closed (.blank hc h)
  | comment h hbody => exact .comment (.blank hc h) hbody

theorem IsLastTrivia.after_comment {body cs : List Char} (hbody : '\n' ∉ body)
    (h : IsLastTrivia cs) : IsLastTrivia ('/' :: '/' :: body ++ '\n' :: cs) := by
  cases h with
  | closed h => exact .closed (.comment hbody h)
  | comment h hlast =>
    have hcomment := IsLastTrivia.comment (.comment hbody h) hlast
    simpa using hcomment

/-! ## Skipping -/

theorem skipTrivia_blank {c : Char} (hc : isBlank c) (cs : List Char) :
    skipTrivia (c :: cs) = skipTrivia cs := by
  rw [skipTrivia, if_pos hc]

theorem skipTrivia_slashes (cs : List Char) :
    skipTrivia ('/' :: '/' :: cs) = skipComment cs := by
  have hslash : ¬ isBlank '/' := by decide
  rw [skipTrivia, if_neg hslash, if_pos ⟨rfl, rfl⟩, skipComment, if_neg (by decide)]

theorem skipComment_of_not_mem {cs : List Char} (h : '\n' ∉ cs) : skipComment cs = [] := by
  induction cs with
  | nil => rfl
  | cons c cs ih =>
    simp only [List.mem_cons, not_or] at h
    rw [skipComment, if_neg (Ne.symm h.1), ih h.2]

theorem skipComment_append {body : List Char} (h : '\n' ∉ body) (cs : List Char) :
    skipComment (body ++ '\n' :: cs) = skipTrivia cs := by
  induction body with
  | nil => rw [List.nil_append, skipComment, if_pos rfl]
  | cons c body ih =>
    simp only [List.mem_cons, not_or] at h
    rw [List.cons_append, skipComment, if_neg (Ne.symm h.1), ih h.2]

/-- Trivia before a text is skipped. -/
theorem skipTrivia_append {trivia : List Char} (h : IsTrivia trivia) (cs : List Char) :
    skipTrivia (trivia ++ cs) = skipTrivia cs := by
  induction h with
  | nil => rfl
  | blank hc _ ih => rw [List.cons_append, skipTrivia_blank hc, ih]
  | @comment body rest hbody _ ih =>
    have hcomment := skipComment_append hbody (rest ++ cs)
    rw [← ih, ← hcomment, ← skipTrivia_slashes]
    simp

/-- Trivia at the end of a text is skipped with the comment that the end cuts off. -/
theorem skipTrivia_last {trivia : List Char} (h : IsLastTrivia trivia) :
    skipTrivia trivia = [] := by
  cases h with
  | closed h =>
    rw [← List.append_nil trivia, skipTrivia_append h, skipTrivia]
  | comment h hbody =>
    rw [skipTrivia_append h, skipTrivia_slashes, skipComment_of_not_mem hbody]

/-- What is skipped is trivia. It can end in an open comment only where the text ends. -/
theorem exists_trivia (cs : List Char) :
    ∃ trivia, cs = trivia ++ skipTrivia cs ∧
      (IsTrivia trivia ∨ IsLastTrivia trivia ∧ skipTrivia cs = []) := by
  cases cs with
  | nil => exact ⟨[], rfl, .inl .nil⟩
  | cons c cs =>
    by_cases hc : isBlank c
    · obtain ⟨trivia, hcs, h⟩ := exists_trivia cs
      rw [skipTrivia_blank hc]
      exact ⟨c :: trivia, congrArg (c :: ·) hcs,
        h.imp (.blank hc) (And.imp_left (.blank hc))⟩
    by_cases hslash : c = '/' ∧ cs.head? = some '/'
    · obtain ⟨rfl, hhead⟩ := hslash
      obtain ⟨cs, rfl⟩ := List.head?_eq_some_iff.1 hhead
      rw [skipTrivia_slashes]
      by_cases hmem : '\n' ∈ cs
      · obtain ⟨body, rest, rfl, hbody⟩ := List.eq_append_cons_of_mem hmem
        obtain ⟨trivia, hrest, h⟩ := exists_trivia rest
        rw [skipComment_append hbody]
        refine ⟨'/' :: '/' :: body ++ '\n' :: trivia, ?_,
          h.imp (.comment hbody) (And.imp_left (.after_comment hbody))⟩
        simpa using hrest
      · rw [skipComment_of_not_mem hmem]
        exact ⟨'/' :: '/' :: cs, by simp, .inr ⟨.comment .nil hmem, rfl⟩⟩
    · rw [skipTrivia, if_neg hc, if_neg hslash]
      exact ⟨[], rfl, .inl .nil⟩
termination_by cs.length
decreasing_by all_goals simp_all <;> omega

theorem skipTrivia_skipTrivia (cs : List Char) : skipTrivia (skipTrivia cs) = skipTrivia cs := by
  obtain ⟨trivia, hcs, htrivia | ⟨-, hnil⟩⟩ := exists_trivia cs
  · calc skipTrivia (skipTrivia cs)
      _ = skipTrivia (trivia ++ skipTrivia cs) := (skipTrivia_append htrivia _).symm
      _ = skipTrivia cs := congrArg skipTrivia hcs.symm
  · rw [hnil, skipTrivia]

/-- Nothing is skipped where neither white space nor a comment starts. -/
theorem skipTrivia_eq_self_iff {cs : List Char} :
    skipTrivia cs = cs ↔ (∀ c ∈ cs.head?, isBlank c = false) ∧ ¬ ['/', '/'] <+: cs := by
  cases cs with
  | nil => simp [skipTrivia]
  | cons c cs =>
    have hlength := (skipTrivia_suffix cs).length_le
    constructor
    · intro h
      have hc : isBlank c = false := by
        cases hc : isBlank c with
        | false => rfl
        | true =>
          rw [skipTrivia_blank hc] at h
          have hlen := congrArg List.length h
          simp only [List.length_cons] at hlen
          omega
      refine ⟨by simpa using hc, ?_⟩
      rintro ⟨rest, hrest⟩
      simp only [List.cons_append, List.nil_append, List.cons.injEq] at hrest
      obtain ⟨rfl, rfl⟩ := hrest
      have hcomment := (skipComment_suffix rest).length_le
      rw [skipTrivia_slashes] at h
      have hlen := congrArg List.length h
      simp only [List.length_cons] at hlen
      omega
    · rintro ⟨hc, hslash⟩
      rw [skipTrivia, if_neg (by simpa using hc), if_neg]
      rintro ⟨rfl, hhead⟩
      obtain ⟨cs, rfl⟩ := List.head?_eq_some_iff.1 hhead
      exact hslash ⟨cs, rfl⟩

/-- Behind the trivia starts neither white space nor a comment. -/
theorem skipTrivia_maximal (cs : List Char) :
    (∀ c ∈ (skipTrivia cs).head?, isBlank c = false) ∧ ¬ ['/', '/'] <+: skipTrivia cs :=
  skipTrivia_eq_self_iff.1 (skipTrivia_skipTrivia cs)

end ConfigLang.Lexer
