import ConfigLang.Proofs.Lexer.Scanning

/-!
# What the patterns decline

For every pattern, the starts of a text that it does not decline. A pattern reads or refuses a text
that it recognises by a few characters, and looks no further to decide that the text is its own;
floats alone look at one character behind those.

* `scan_eq_none_iff`: a pattern declines exactly the texts with none of its starts.
-/

namespace ConfigLang.Lexer

/-- A start of a text, before `rest`, by which a pattern takes the text for its own. -/
def Pattern.Opens : Pattern → List Char → List Char → Prop
  | .symbol s, start, _ => start = s.text.toList
  | .input, start, _ => ∃ c, start = ['$', c] ∧ isNameStart c
  | .quotedSegment, start, _ => ∃ c, start = [c] ∧ c = '\''
  | .segment, start, _ => ∃ c, start = [c] ∧ isSegmentChar c
  | .float, start, rest =>
    ∃ sign whole, start = sign ++ whole ++ ['.'] ∧ IsSign sign ∧ IsDigits whole ∧
      rest.head? ≠ some '.'
  | .hexInteger, start, _ => start = ['0', 'x']
  | .integer, start, _ => ∃ sign digit, start = sign ++ [digit] ∧ IsSign sign ∧ digit.isDigit
  | .escape, start, _ => ∃ c, start = [c] ∧ c = '\\'
  | .characters, start, _ => ∃ c, start = [c] ∧ isPlainChar c

/-! ## Symbols, names and runs -/

theorem scanSymbol_eq_none_iff {s : Symbol} {cs : List Char} :
    scanSymbol s cs = none ↔ ¬ s.text.toList <+: cs := by
  simp [scanSymbol, List.isPrefixOf_iff_prefix]

theorem scanInput_eq_none_iff {cs : List Char} :
    scanInput cs = none ↔ ∀ c rest, cs = '$' :: c :: rest → isNameStart c = false := by
  unfold scanInput
  split
  · rename_i c cs
    by_cases hc : isNameStart c <;> simp [hc]
  · rename_i hne
    simp only [true_iff]
    intro c rest hcs
    exact absurd hcs (hne c rest)

/-- A token made of a run of characters of a class is declined where no such character starts. -/
theorem run_eq_none_iff {p : Char → Bool} {token : List Char → Token} {cs : List Char} :
    (match cs.takeWhile p with
      | [] => none
      | text => some (⟨token text, text⟩ : Lexeme)) = none ↔ Stops p cs := by
  cases cs with
  | nil => simp [Stops]
  | cons c cs => cases hc : p c <;> simp [stops_cons, hc]

theorem scanQuotedSegment_eq_none_iff {cs : List Char} :
    scanQuotedSegment cs = .ok none ↔ ∀ c ∈ cs.head?, ¬ c = '\'' := by
  unfold scanQuotedSegment
  split
  · dsimp only
    split <;> simp
  · rename_i hne
    simp only [true_iff]
    rintro c hc rfl
    obtain ⟨cs, rfl⟩ := List.head?_eq_some_iff.1 hc
    exact hne cs rfl

/-! ## Numbers -/

theorem scanInteger_eq_none_iff {cs : List Char} :
    scanInteger cs = .ok none ↔
      ∀ sign digit rest, cs = sign ++ digit :: rest → IsSign sign → digit.isDigit = false := by
  constructor
  · rintro h sign digit rest rfl hs
    cases hd : digit.isDigit with
    | false => rfl
    | true =>
      have hdigits : IsDigits [digit] := ⟨by simp, by simpa using hd⟩
      have hsign : signOf (sign ++ digit :: rest) = sign := signOf_append hs hdigits
      unfold scanInteger at h
      rw [hsign] at h
      dsimp only at h
      rw [List.drop_left, List.takeWhile_cons_of_pos hd, List.isEmpty_cons,
        if_neg Bool.false_ne_true] at h
      rcases ite_eq_iff.1 h with ⟨-, h⟩ | ⟨-, h⟩ <;> cases h
  · intro h
    obtain ⟨hs, cs', hcs⟩ := signOf_spec cs
    unfold scanInteger
    generalize signOf cs = sign at hs hcs
    subst hcs
    dsimp only
    rw [List.drop_left]
    cases cs' with
    | nil => rfl
    | cons digit rest =>
      rw [List.takeWhile_cons_of_neg (by simp [h sign digit rest rfl hs])]
      rfl

theorem scanHexInteger_eq_none_iff {cs : List Char} :
    scanHexInteger cs = .ok none ↔ ¬ ['0', 'x'] <+: cs := by
  unfold scanHexInteger
  split
  · rename_i cs
    have hstart : ['0', 'x'] <+: '0' :: 'x' :: cs := ⟨cs, rfl⟩
    simp only [hstart, not_true, iff_false]
    split
    · simp
    · split <;> simp
  · rename_i hne
    simp only [true_iff]
    rintro ⟨rest, rfl⟩
    exact hne rest rfl

theorem scanFloat_eq_none_iff {cs : List Char} :
    scanFloat cs = .ok none ↔
      ∀ sign whole rest, cs = sign ++ (whole ++ '.' :: rest) → IsSign sign → IsDigits whole →
        rest.head? = some '.' := by
  constructor
  · rintro h sign whole rest rfl hs hw
    have hw' : whole.isEmpty = false := by simpa using hw.1
    have hdot : Stops Char.isDigit ('.' :: rest) := stops_cons.2 (by decide)
    unfold scanFloat at h
    rw [signOf_append hs hw] at h
    dsimp only at h
    rw [List.drop_left, takeWhile_append_of_stops hw.2 hdot, hw', ← List.append_assoc,
      List.drop_left] at h
    simp only [Bool.false_eq_true, if_false] at h
    split at h
    · split at h
      · assumption
      · cases h
    · split at h <;> cases h
  · intro h
    obtain ⟨hs, cs', hcs⟩ := signOf_spec cs
    unfold scanFloat
    generalize signOf cs = sign at hs hcs
    subst hcs
    dsimp only
    rw [List.drop_left]
    generalize hr : cs'.takeWhile Char.isDigit = whole
    obtain ⟨cs'', rfl, hwhole, -⟩ := takeWhile_eq_iff.1 hr
    rw [← List.append_assoc, List.drop_left]
    cases whole with
    | nil => rfl
    | cons d whole =>
      simp only [List.isEmpty_cons, Bool.false_eq_true, if_false]
      split
      · rename_i rest
        -- Behind the point there is another one, so no fraction.
        have hhead := h sign (d :: whole) rest rfl hs ⟨by simp, hwhole⟩
        obtain ⟨rest, rfl⟩ := List.head?_eq_some_iff.1 hhead
        rw [List.takeWhile_cons_of_neg (by decide)]
        rfl
      · rfl

/-! ## Escapes -/

theorem scanEscape_eq_none_iff {cs : List Char} :
    scanEscape cs = .ok none ↔ ∀ c ∈ cs.head?, ¬ c = '\\' := by
  unfold scanEscape
  split
  · dsimp only
    split <;> simp
  · split <;> simp
  · simp
  · rename_i hpair hone
    simp only [true_iff]
    rintro c hc rfl
    obtain ⟨cs, rfl⟩ := List.head?_eq_some_iff.1 hc
    cases cs with
    | nil => exact hone rfl
    | cons d cs => exact hpair d cs rfl

/-! ## All patterns -/

/-- A text has no start of one character of a class if its first character is not of the class. -/
theorem head_iff {q : Char → Prop} {cs : List Char} :
    (∀ c ∈ cs.head?, ¬ q c) ↔ ∀ start rest, cs = start ++ rest → ¬ ∃ c, start = [c] ∧ q c := by
  constructor
  · rintro h start rest rfl ⟨c, rfl, hc⟩
    exact h c rfl hc
  · rintro h c hhead hc
    obtain ⟨cs, rfl⟩ := List.head?_eq_some_iff.1 hhead
    exact h [c] cs rfl ⟨c, rfl, hc⟩

theorem prefix_iff {text cs : List Char} :
    ¬ text <+: cs ↔ ∀ start rest, cs = start ++ rest → ¬ start = text := by
  constructor
  · rintro h start rest rfl rfl
    exact h ⟨rest, rfl⟩
  · rintro h ⟨rest, rfl⟩
    exact h text rest rfl rfl

/-- **A pattern declines** exactly the texts with none of its starts. -/
theorem scan_eq_none_iff {p : Pattern} {cs : List Char} :
    p.scan cs = .ok none ↔ ∀ start rest, cs = start ++ rest → ¬ p.Opens start rest := by
  have hrun (p : Char → Bool) : Stops p cs ↔ ∀ c ∈ cs.head?, ¬ p c = true := by
    simp only [Stops, Bool.not_eq_true]
  cases p with
  | symbol s => simp only [Pattern.scan, Except.ok.injEq, scanSymbol_eq_none_iff, prefix_iff,
      Pattern.Opens]
  | input =>
    simp only [Pattern.scan, Except.ok.injEq, scanInput_eq_none_iff, Pattern.Opens]
    constructor
    · rintro h start rest rfl ⟨c, rfl, hc⟩
      rw [h c rest rfl] at hc
      cases hc
    · rintro h c rest rfl
      exact Bool.eq_false_iff.2 fun hc => h ['$', c] rest rfl ⟨c, rfl, hc⟩
  | quotedSegment => exact scanQuotedSegment_eq_none_iff.trans head_iff
  | segment =>
    simp only [Pattern.scan, Except.ok.injEq, scanSegment]
    exact run_eq_none_iff.trans ((hrun _).trans head_iff)
  | float =>
    simp only [Pattern.scan, scanFloat_eq_none_iff, Pattern.Opens]
    constructor
    · rintro h start rest rfl ⟨sign, whole, rfl, hs, hw, hhead⟩
      exact hhead (h sign whole rest (by simp) hs hw)
    · rintro h sign whole rest rfl hs hw
      by_contra hhead
      exact h (sign ++ whole ++ ['.']) rest (by simp) ⟨sign, whole, rfl, hs, hw, hhead⟩
  | hexInteger => exact scanHexInteger_eq_none_iff.trans prefix_iff
  | integer =>
    simp only [Pattern.scan, scanInteger_eq_none_iff, Pattern.Opens]
    constructor
    · rintro h start rest rfl ⟨sign, digit, rfl, hs, hd⟩
      rw [h sign digit rest (by simp) hs] at hd
      cases hd
    · rintro h sign digit rest rfl hs
      exact Bool.eq_false_iff.2 fun hd =>
        h (sign ++ [digit]) rest (by simp) ⟨sign, digit, rfl, hs, hd⟩
  | escape => exact scanEscape_eq_none_iff.trans head_iff
  | characters =>
    simp only [Pattern.scan, Except.ok.injEq, scanCharacters]
    exact run_eq_none_iff.trans ((hrun _).trans head_iff)

end ConfigLang.Lexer
