import ConfigLang.Proofs.Lexer.Cursor

/-!
# A lexer that stops stays put

A step that fails, or that finds the end of the text, leaves the modes as they are and moves past
trivia only. There is no more trivia then, so the next step starts where it ends and finds the same.

* `next_again`: a step that reads no token is repeated by the next one.
* `lexer_stays_put`: the statement for lexers and for cursors.
-/

namespace ConfigLang.Lexer

open String (utf8Len utf8Len_append)

/-! ## Steps that read no token -/

section
variable {l l' : Lexer} {result : Except LexError (Option Lexeme)}

theorem ahead_ahead (l : Lexer) : ahead ⟨l.ahead, l.modes⟩ = l.ahead := by
  by_cases hs : InString l.modes
  · exact ahead_of_inString hs
  · have hagain : ahead ⟨l.ahead, l.modes⟩ = skipTrivia l.ahead := ahead_of_not_inString hs
    rw [hagain, ahead_of_not_inString hs, skipTrivia_skipTrivia]

/-- What a step without a token leaves, and what every later step finds: the modes are the same,
and the text ahead is that behind the trivia. -/
structure StaysPut (l l' : Lexer) (result : Except LexError (Option Lexeme)) : Prop where
  modes : l'.modes = l.modes
  moved : ∃ trivia, l.rest = trivia ++ l'.rest ∧ (InString l.modes → trivia = []) ∧
    (IsTrivia trivia ∨ IsLastTrivia trivia ∧ l'.rest = [])
  again : ∀ k, (l'.afterSteps k).next = (result, l')

variable (h : l.next = (result, l')) (hr : ∀ lexeme, result ≠ .ok (some lexeme))
include h hr

/-- A step that reads no token is repeated by the next one. -/
theorem next_again : l'.next = (result, l') := by
  obtain rfl := next_of_not_some h hr
  unfold next at h ⊢
  rw [ahead_ahead]
  exact h

theorem afterSteps_again (k : Nat) : l'.afterSteps k = l' := by
  induction k with
  | zero => rfl
  | succ k ih => rw [afterSteps, ih, next_again h hr]

theorem staysPut_of_next : StaysPut l l' result := by
  have hl' := next_of_not_some h hr
  obtain ⟨trivia, hrest, hstring, htrivia⟩ := l.exists_gap
  refine ⟨by rw [hl'], ⟨trivia, ?_, hstring, ?_⟩, fun k => ?_⟩
  · rw [hl']
    exact hrest
  · rw [hl']
    exact htrivia
  · rw [afterSteps_again h hr, next_again h hr]

end

/-! ## Cursors -/

theorem skipFrom_again {source : String} {before trivia cs : List Char}
    (h : source.toList = before ++ (trivia ++ skipTrivia cs)) :
    skipFrom source (utf8Len (before ++ trivia)) = some (utf8Len (before ++ trivia)) := by
  rw [← List.append_assoc] at h
  obtain ⟨more, hmore, hfrom⟩ := skipFrom_eq h
  rw [skipTrivia_skipTrivia] at hmore
  obtain rfl : more = [] := List.self_eq_append_left.1 hmore
  rw [hfrom, List.append_nil]

/-- A cursor that stands where a lexer stands is determined by its source. -/
theorem StandsAt.unique {c c' : Cursor} {l : Lexer} (h : StandsAt c l) (h' : StandsAt c' l)
    (hsource : c.source = c'.source) : c = c' := by
  obtain ⟨before, hplace, hposition⟩ := h.place
  obtain ⟨before', hplace', hposition'⟩ := h'.place
  have hbefore : before = before' := by
    rw [hsource, hplace'] at hplace
    exact (List.append_cancel_right hplace).symm
  have hmodes : c.modes = c'.modes := h.modes.trans h'.modes.symm
  have hpositions : c.position = c'.position := by rw [hposition, hposition', hbefore]
  cases c
  cases c'
  simp_all

/-- The same for a cursor, whose position moves past the trivia. -/
structure Cursor.StaysPut (c c' : Cursor) (result : Except LexError (Option Token)) : Prop where
  source : c'.source = c.source
  modes : c'.modes = c.modes
  moved : ∃ before trivia rest, c.source.toList = before ++ (trivia ++ rest) ∧
    c.position = utf8Len before ∧ c'.position = utf8Len (before ++ trivia) ∧
    (InString c.modes → trivia = []) ∧ (IsTrivia trivia ∨ IsLastTrivia trivia ∧ rest = [])
  again : ∀ k, (c'.afterSteps k).bind Cursor.next = some (result, c')

section
variable {c c' : Cursor} {l : Lexer} {result : Except LexError (Option Token)}

/-- A cursor that stands where a lexer stands stays put where the lexer does. -/
theorem StandsAt.staysPut (hc : StandsAt c l) (h : c.next = some (result, c'))
    (hr : ∀ t, result ≠ .ok (some t)) : c.StaysPut c' result := by
  obtain ⟨c₁, hnext, hsource, hc'⟩ := hc.next
  rw [h, Option.some.injEq, Prod.mk.injEq] at hnext
  obtain ⟨rfl, rfl⟩ := hnext
  have hlexer : StaysPut l l.next.2 l.next.1 := by
    refine staysPut_of_next rfl fun lexeme hlexeme => hr lexeme.token ?_
    rw [hlexeme]
    rfl
  have hagain : l.next.2.next = (l.next.1, l.next.2) := hlexer.again 0
  have hnext : c'.next = some (l.next.1.map (Option.map Lexeme.token), c') := by
    obtain ⟨c₂, hnext, hsource₂, hc₂⟩ := hc'.next
    rw [hagain] at hnext hc₂
    rw [hnext, hc₂.unique hc' hsource₂]
  have hsteps (k : Nat) : c'.afterSteps k = some c' := by
    induction k with
    | zero => rfl
    | succ k ih =>
      rw [Cursor.afterSteps, ih, Option.bind_eq_bind, Option.bind_some, hnext]
      rfl
  obtain ⟨trivia, hrest, hstring, htrivia⟩ := hlexer.moved
  obtain ⟨before, hplace, hposition⟩ := hc.place
  obtain ⟨before', hplace', hposition'⟩ := hc'.place
  have hbefore : before' = before ++ trivia := by
    rw [hsource, hplace, hrest, ← List.append_assoc] at hplace'
    exact (List.append_cancel_right hplace').symm
  refine ⟨hsource, ?_, ⟨before, trivia, l.next.2.rest, ?_, hposition, ?_, ?_, htrivia⟩, fun k => ?_⟩
  · rw [hc'.modes, hlexer.modes, hc.modes]
  · rw [hplace, ← hrest]
  · rw [hposition', hbefore]
  · rw [hc.modes]
    exact hstring
  · rw [hsteps, Option.bind_some, hnext]

end

/-- **A lexer that stops stays put.** A step that fails leaves the modes as they are, moves past
trivia only, and is repeated by every later step; so is a step that finds the end of the text. What
is skipped is white space and comments, the last of them perhaps cut off by the end of the text, and
nothing of the kind is left: behind it starts neither white space nor a comment, and skipping again
changes nothing. The same holds of the loop by which a cursor skips, and of every cursor that has
come to its place by steps from the start of its source. -/
theorem lexer_stays_put :
    (∀ (l l' : Lexer) (e : LexError), l.next = (.error e, l') → StaysPut l l' (.error e)) ∧
    (∀ l l' : Lexer, l.next = (.ok none, l') → StaysPut l l' (.ok none)) ∧
    (∀ (source : String) (k : Nat) (c c' : Cursor), (Cursor.ofText source).afterSteps k = some c →
      (∀ e, c.next = some (.error e, c') → c.StaysPut c' (.error e)) ∧
        (c.next = some (.ok none, c') → c.StaysPut c' (.ok none))) ∧
    (∀ cs : List Char,
      (∃ trivia, cs = trivia ++ skipTrivia cs ∧
        (IsTrivia trivia ∨ IsLastTrivia trivia ∧ skipTrivia cs = [])) ∧
      (∀ c ∈ (skipTrivia cs).head?, Text.isBlank c = false) ∧ ¬ ['/', '/'] <+: skipTrivia cs ∧
      skipTrivia (skipTrivia cs) = skipTrivia cs) ∧
    (∀ trivia : List Char, IsLastTrivia trivia → skipTrivia trivia = []) ∧
    ∀ (source : String) (before rest : List Char), source.toList = before ++ rest →
      ∃ trivia, rest = trivia ++ skipTrivia rest ∧
        skipFrom source (utf8Len before) = some (utf8Len (before ++ trivia)) ∧
        skipFrom source (utf8Len (before ++ trivia)) = some (utf8Len (before ++ trivia)) := by
  refine ⟨fun l l' e h => staysPut_of_next h (by simp), fun l l' h => staysPut_of_next h (by simp),
    fun source k c c' hsteps => ?_, fun cs => ?_, fun trivia => skipTrivia_last,
    fun source before rest h => ?_⟩
  · obtain ⟨c₁, hsteps₁, -, hc⟩ := (standsAt_ofText source).afterSteps k
    obtain rfl : c = c₁ := Option.some.inj (hsteps.symm.trans hsteps₁)
    exact ⟨fun e h => hc.staysPut h (by simp), fun h => hc.staysPut h (by simp)⟩
  · obtain ⟨hblank, hcomment⟩ := skipTrivia_maximal cs
    exact ⟨exists_trivia cs, hblank, hcomment, skipTrivia_skipTrivia cs⟩
  · obtain ⟨trivia, hrest, hfrom⟩ := skipFrom_eq h
    exact ⟨trivia, hrest, hfrom, skipFrom_again (hrest ▸ h)⟩

/-- A brace that opens nothing behind a comment, and a comment cut off by the end of the text. -/
theorem lexer_stays_put_behind_comment :
    StaysPut (ofText " // a\n\x7d".toList) ⟨['\x7d'], [.topLevel]⟩
        (.error (.unexpectedText (some .topLevel) "\x7d")) ∧
      StaysPut (ofText " // a".toList) ⟨[], [.topLevel]⟩ (.ok none) :=
  ⟨lexer_stays_put.1 _ _ _ (by rfl), lexer_stays_put.2.1 _ _ (by rfl)⟩

end ConfigLang.Lexer
