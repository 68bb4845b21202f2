import ConfigLang.Proofs.Lexer.Coverage

/-!
# What a lexer refuses

A scanner refuses a text for its literal or its escape, and no scanner reads the empty text. So a
lexer fails for one of these, or because no pattern fits, and never comes to a halt.

* `scan_eq_error`: the errors of scanners, one pattern at a time.
* `read_ne_stalled`, `tokenize_ne_stalled`: no step stops at a token of no length.
-/

namespace ConfigLang.Lexer

/-! ## Errors of scanners -/

section
variable {cs : List Char} {e : LexError}

theorem scanQuotedSegment_eq_error (h : scanQuotedSegment cs = .error e) :
    ∃ literal flaw, e = .invalidLiteral literal flaw := by
  unfold scanQuotedSegment at h
  dsimp only at h
  split at h
  · split at h
    · cases h
    · exact ⟨_, _, (Except.error.inj h).symm⟩
  · cases h

theorem scanFloat_eq_error (h : scanFloat cs = .error e) :
    ∃ literal flaw, e = .invalidLiteral literal flaw := by
  unfold scanFloat at h
  dsimp only at h
  split at h
  · cases h
  split at h
  · split at h
    · split at h
      · cases h
      · exact ⟨_, _, (Except.error.inj h).symm⟩
    · split at h
      · cases h
      · exact ⟨_, _, (Except.error.inj h).symm⟩
  · cases h

theorem scanHexInteger_eq_error (h : scanHexInteger cs = .error e) :
    ∃ literal flaw, e = .invalidLiteral literal flaw := by
  unfold scanHexInteger at h
  dsimp only at h
  split at h
  · split at h
    · exact ⟨_, _, (Except.error.inj h).symm⟩
    · split at h
      · cases h
      · exact ⟨_, _, (Except.error.inj h).symm⟩
  · cases h

theorem scanInteger_eq_error (h : scanInteger cs = .error e) :
    ∃ literal flaw, e = .invalidLiteral literal flaw := by
  unfold scanInteger at h
  extract_lets sign digits text value at h
  split at h
  · cases h
  split at h
  · cases h
  · exact ⟨_, _, (Except.error.inj h).symm⟩

theorem scanEscape_eq_error (h : scanEscape cs = .error e) :
    ∃ sequence, e = .invalidEscape sequence := by
  unfold scanEscape at h
  dsimp only at h
  split at h
  · split at h
    · cases h
    · exact ⟨_, (Except.error.inj h).symm⟩
  · split at h
    · cases h
    · exact ⟨_, (Except.error.inj h).symm⟩
  · exact ⟨_, (Except.error.inj h).symm⟩
  · cases h

theorem scan_eq_error {p : Pattern} (h : p.scan cs = .error e) :
    (∃ literal flaw, e = .invalidLiteral literal flaw) ∨
      ∃ sequence, e = .invalidEscape sequence := by
  cases p with
  | symbol _ | input | segment | characters => cases h
  | quotedSegment => exact .inl (scanQuotedSegment_eq_error h)
  | float => exact .inl (scanFloat_eq_error h)
  | hexInteger => exact .inl (scanHexInteger_eq_error h)
  | integer => exact .inl (scanInteger_eq_error h)
  | escape => exact .inr (scanEscape_eq_error h)

end

/-! ## Errors of steps -/

theorem firstMatch_eq_error {rules : List Rule} {cs : List Char} {e : LexError}
    (h : firstMatch rules cs = .error e) : ∃ p : Pattern, p.scan cs = .error e := by
  induction rules with
  | nil => cases h
  | cons rule rules ih =>
    rw [firstMatch] at h
    split at h
    · rename_i hscan
      cases h
      exact ⟨rule.pattern, hscan⟩
    · cases h
    · exact ih h

/-- The lexer never comes to a halt on a rule that matches the empty text. -/
theorem read_ne_stalled (modes : List Mode) (cs : List Char) (mode : Mode) :
    read modes cs ≠ .error (.stalled mode) := by
  intro h
  unfold read at h
  split at h
  · cases h
  · cases h
  · split at h
    · rename_i hfirst
      cases h
      obtain ⟨p, hscan⟩ := firstMatch_eq_error hfirst
      rcases scan_eq_error hscan with ⟨literal, flaw, he⟩ | ⟨sequence, he⟩
      · cases he
      · cases he
    · cases h
    · rename_i hfirst
      obtain ⟨before, rule, after, -, -, hscan, -⟩ := rule_of_firstMatch hfirst
      split at h
      · rename_i hempty
        exact scan_text_ne_nil hscan (List.isEmpty_iff.1 hempty)
      · cases h

theorem tokenize_ne_stalled (source : String) (mode : Mode) :
    tokenize source ≠ .error (.stalled mode) := by
  intro h
  unfold tokenize Run.tokens at h
  split at h
  · rename_i he
    cases h
    exact read_ne_stalled _ _ mode ((run_last _).2 _ he)
  · cases h

end ConfigLang.Lexer
