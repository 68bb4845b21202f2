import ConfigLang.Proofs.Lexer.Spelling
import ConfigLang.Proofs.Lexer.Trivia

/-!
# What is read can be written

Whatever text a document is read from, its names, segments and strings have the forms that a lexer
gives them, so the document is lexable.

* `lexable_of_next`: a token that was read can be written, behind the tokens that left this text.
* `fits_run`: so can all tokens of a run, one after another.
* `lexable_of_documentOf`: the statement for whole documents.
-/

namespace ConfigLang

open Lexer

/-! ## The rule that reads -/

namespace Lexer

/-- What is read is read by a pattern of the mode, and the patterns before it decline. -/
theorem pattern_of_firstMatch {mode : Mode} {cs : List Char} {lexeme : Lexeme} {move : Move}
    (h : firstMatch mode.rules cs = .ok (some (lexeme, move))) :
    ∃ p, (∃ r ∈ mode.rules, r.pattern = p) ∧
      (∀ r ∈ mode.before p, r.pattern.scan cs = .ok none) ∧ p.scan cs = .ok (some lexeme) := by
  obtain ⟨before, rule, after, hrules, hbefore, hscan, -⟩ := rule_of_firstMatch h
  refine ⟨rule.pattern, ⟨rule, by simp [hrules], rfl⟩, ?_, hscan⟩
  have hne : ∀ r ∈ before, decide (r.pattern ≠ rule.pattern) = true := by
    intro r hr
    have hdecline := hbefore r hr
    simp only [ne_eq, decide_eq_true_eq]
    intro heq
    rw [heq, hscan] at hdecline
    cases hdecline
  have heq : mode.before rule.pattern = before := by
    rw [Mode.before, hrules, List.takeWhile_append_of_pos hne, List.takeWhile_cons_of_neg (by simp),
      List.append_nil]
  rw [heq]
  exact hbefore

/-! ## Segments and escapes -/

theorem isBareSegment_of_scan {cs text rest : List Char} (hcs : cs = text ++ rest)
    (hne : text ≠ []) (hchars : ∀ c ∈ text, isSegmentChar c)
    (hbrace : scanSymbol .braceClose cs = none) (hinput : scanInput cs = none)
    (hquoted : scanQuotedSegment cs = .ok none) (hcomment : ¬ ['/', '/'] <+: cs) :
    IsBareSegment text := by
  subst hcs
  refine ⟨hne, hchars, ?_, ?_, ?_⟩
  · intro c hc
    cases text with
    | nil => cases hc
    | cons d text =>
      cases hc
      constructor
      · rintro rfl
        simp only [List.cons_append, scanQuotedSegment] at hquoted
        split at hquoted <;> cases hquoted
      · rintro rfl
        simp [scanSymbol, Symbol.text] at hbrace
  · rintro ⟨tail, rfl⟩
    exact hcomment ⟨tail ++ rest, by simp⟩
  · rintro c tail rfl
    simp only [List.cons_append, scanInput] at hinput
    split at hinput
    · cases hinput
    · rename_i hc
      simpa using hc

theorem hexDigitValue_lt {c : Char} (h : Text.isHexDigit c) : Text.hexDigitValue c < 16 := by
  have hascii : ∀ n < 128,
      Text.isHexDigit (Char.ofNat n) → Text.hexDigitValue (Char.ofNat n) < 16 := by
    decide
  have hc := hascii c.toNat (toNat_lt_of_isHexDigit h)
  rw [Char.ofNat_toNat] at hc
  exact hc h

theorem ofHexDigits_lt {digits : List Char} (h : ∀ c ∈ digits, Text.isHexDigit c) (n : Nat) :
    Text.ofHexDigits digits n < Nat.pow 16 digits.length * (n + 1) := by
  induction digits generalizing n with
  | nil => simp [Text.ofHexDigits]
  | cons c digits ih =>
    obtain ⟨hc, hdigits⟩ := List.forall_mem_cons.1 h
    have hvalue := hexDigitValue_lt hc
    have hle : 16 * n + Text.hexDigitValue c + 1 ≤ 16 * (n + 1) := by omega
    rw [Text.ofHexDigits, List.length_cons, Nat.pow_eq, Nat.pow_succ, Nat.mul_assoc]
    exact Nat.lt_of_lt_of_le (ih hdigits _) (Nat.mul_le_mul_left _ hle)

theorem toNat_of_isValidChar {n : Nat} (h : n.isValidChar) : (Char.ofNat n).toNat = n := by
  unfold Char.ofNat
  rw [dif_pos h]
  rfl

theorem namedChar?_le {digits : List Char} {c : Char} (h : namedChar? digits = some c) :
    c.toNat ≤ 0xFFFF := by
  unfold namedChar? charOfCodePoint? at h
  dsimp only at h
  split at h
  · rename_i hdigits
    split at h
    · rename_i hvalid
      have hlt := ofHexDigits_lt (List.all_eq_true.1 hdigits.2) 0
      have hfour : Nat.pow 16 4 = 0x10000 := rfl
      cases h
      rw [hdigits.1, hfour] at hlt
      rw [toNat_of_isValidChar hvalid]
      omega
    · cases h
  · cases h

theorem simpleEscape?_le {c e : Char} (h : simpleEscape? c = some e) : e.toNat ≤ 0xFFFF := by
  unfold simpleEscape? at h
  split at h <;> cases h <;> decide

/-! ## Tokens -/

theorem segment_mode {mode : Mode} (h : ∃ r ∈ mode.rules, r.pattern = .segment) :
    mode = .object := by
  revert h
  cases mode <;> decide

theorem characters_mode {mode : Mode} (h : ∃ r ∈ mode.rules, r.pattern = .characters) :
    mode = .string := by
  revert h
  cases mode <;> decide

/-- A run of segment characters that was read is a segment without quotes. -/
theorem bare_of_scan {mode : Mode} {cs : List Char} {lexeme : Lexeme}
    (hp : ∃ r ∈ mode.rules, r.pattern = .segment)
    (hbefore : ∀ r ∈ mode.before .segment, r.pattern.scan cs = .ok none)
    (hscan : scanSegment cs = some lexeme) (hcomment : mode ≠ .string → ¬ ['/', '/'] <+: cs) :
    lexeme.token = .segment (String.ofList lexeme.text) ∧ IsBareSegment lexeme.text := by
  obtain rfl := segment_mode hp
  obtain ⟨text, rest, hcs, hne, hchars, -, rfl⟩ := scanSegment_eq_some_iff.1 hscan
  have hbrace := hbefore ⟨.symbol .braceClose, .pop⟩ (by decide)
  have hinput := hbefore ⟨.input, .stay⟩ (by decide)
  have hquoted := hbefore ⟨.quotedSegment, .stay⟩ (by decide)
  exact ⟨rfl, isBareSegment_of_scan hcs hne hchars (Except.ok.inj hbrace) (Except.ok.inj hinput)
    hquoted (hcomment (by decide))⟩

/-- A token that was read can be written. -/
theorem lexable_of_scan {mode : Mode} {p : Pattern} {cs : List Char} {lexeme : Lexeme}
    (hp : ∃ r ∈ mode.rules, r.pattern = p)
    (hbefore : ∀ r ∈ mode.before p, r.pattern.scan cs = .ok none)
    (hscan : p.scan cs = .ok (some lexeme)) (hcomment : mode ≠ .string → ¬ ['/', '/'] <+: cs) :
    lexeme.token.Lexable := by
  cases p with
  | symbol s =>
    obtain ⟨rest, -, rfl⟩ := scanSymbol_eq_some_iff.1 (Except.ok.inj hscan)
    trivial
  | input =>
    obtain ⟨text, rest, -, hname, -, rfl⟩ := scanInput_eq_some_iff.1 (Except.ok.inj hscan)
    simpa [Token.Lexable, NameLexable] using hname
  | quotedSegment =>
    obtain ⟨body, rest, -, hbody, rfl⟩ := scanQuotedSegment_eq_ok_iff.1 hscan
    exact .inl (by simpa using hbody)
  | segment =>
    obtain ⟨htoken, hbare⟩ := bare_of_scan hp hbefore (Except.ok.inj hscan) hcomment
    rw [htoken]
    refine .inr ?_
    rw [String.toList_ofList]
    exact hbare
  | float =>
    obtain ⟨sign, whole, fraction, exponent, rest, -, -, -, -, -, -, hfinite, rfl⟩ :=
      scanFloat_eq_ok_iff.1 hscan
    exact hfinite
  | hexInteger =>
    obtain ⟨digits, rest, -, -, -, -, -, rfl⟩ := scanHexInteger_eq_ok_iff.1 hscan
    trivial
  | integer =>
    obtain ⟨sign, digits, rest, -, -, -, -, -, rfl⟩ := scanInteger_eq_ok_iff.1 hscan
    trivial
  | escape =>
    obtain ⟨digits, c, rest, -, -, hc, rfl⟩ | ⟨c, e, rest, -, he, rfl⟩ :=
      scanEscape_eq_ok_iff.1 hscan
    · exact namedChar?_le hc
    · exact simpleEscape?_le he
  | characters =>
    obtain ⟨text, rest, -, hne, hplain, -, rfl⟩ :=
      scanCharacters_eq_some_iff.1 (Except.ok.inj hscan)
    simpa [Token.Lexable] using ⟨hne, hplain⟩

/-- A text that does not go on with the token before it, if a string is open. -/
def Behind (t : Token) (l : Lexer) : Prop :=
  InString l.modes →
    match t with
    | .characters _ => Stops isPlainChar l.rest
    | .input _ => Stops isNameChar l.rest
    | _ => True

theorem behind_of_scan {p : Pattern} {cs : List Char} {lexeme : Lexeme} {modes : List Mode}
    (hscan : p.scan cs = .ok (some lexeme)) :
    Behind lexeme.token ⟨cs.drop lexeme.text.length, modes⟩ := by
  intro _
  have hmakes := makes_of_scan hscan
  cases p with
  | input =>
    obtain ⟨text, rest, rfl, -, hstop, rfl⟩ := scanInput_eq_some_iff.1 (Except.ok.inj hscan)
    simpa using hstop
  | characters =>
    obtain ⟨text, rest, rfl, -, -, hstop, rfl⟩ :=
      scanCharacters_eq_some_iff.1 (Except.ok.inj hscan)
    simpa using hstop
  | _ =>
    cases ht : lexeme.token with
    | input _ | characters _ =>
      rw [ht] at hmakes
      cases hmakes
    | _ => trivial

/-- Characters are read in strings, and follow what leaves their text. -/
theorem mayPrecede_of_scan {mode : Mode} {outer : List Mode} {p : Pattern} {cs : List Char}
    {lexeme : Lexeme} {t : Token} (hp : ∃ r ∈ mode.rules, r.pattern = p)
    (hscan : p.scan cs = .ok (some lexeme)) (ht : Behind t ⟨cs, mode :: outer⟩) :
    t.MayPrecede lexeme.token := by
  cases p with
  | characters =>
    obtain rfl := characters_mode hp
    obtain ⟨text, rest, rfl, hne, hplain, -, rfl⟩ :=
      scanCharacters_eq_some_iff.1 (Except.ok.inj hscan)
    have hbehind := ht rfl
    cases text with
    | nil => exact absurd rfl hne
    | cons c text =>
      cases t with
      | characters s =>
        have hc := stops_cons.1 hbehind
        rw [hplain c List.mem_cons_self] at hc
        cases hc
      | input name =>
        have hc := stops_cons.1 hbehind
        simpa [Token.MayPrecede, stops_cons] using hc
      | _ => trivial
  | _ =>
    have hmakes := makes_of_scan hscan
    refine mayPrecede_of_isFree t ?_
    cases ht : lexeme.token with
    | characters _ =>
      rw [ht] at hmakes
      cases hmakes
    | _ => trivial

/-! ## Runs -/

/-- Outside strings no comment is ahead. -/
theorem ahead_not_comment {l : Lexer} {mode : Mode} {outer : List Mode}
    (hmodes : l.modes = mode :: outer) (hmode : mode ≠ .string) : ¬ ['/', '/'] <+: l.ahead := by
  have hs : ¬ InString l.modes := by simpa [InString, hmodes] using hmode
  rw [ahead_of_not_inString hs]
  exact (skipTrivia_maximal l.rest).2

/-- A token that was read can be written, and behind every token that left its text. -/
theorem lexable_of_next {l l' : Lexer} {lexeme : Lexeme} (h : l.next = (.ok (some lexeme), l')) :
    lexeme.token.Lexable ∧ Behind lexeme.token l' ∧
      ∀ t, Behind t l → t.MayPrecede lexeme.token := by
  unfold next at h
  split at h
  · cases h
  · cases h
  rename_i lexeme' move hread
  cases h
  obtain ⟨mode, outer, hmodes, hfirst⟩ := read_eq_ok_some hread
  obtain ⟨p, hp, hbefore, hscan⟩ := pattern_of_firstMatch hfirst
  refine ⟨lexable_of_scan hp hbefore hscan (ahead_not_comment hmodes), behind_of_scan hscan,
    fun t ht => ?_⟩
  have hbehind : Behind t ⟨l.ahead, mode :: outer⟩ := by
    -- In a string nothing is skipped before the token.
    intro hs
    rw [← hmodes] at hs
    have hahead : l.ahead = l.rest := ahead_of_inString hs
    rw [hahead]
    exact ht hs
  exact mayPrecede_of_scan hp hscan hbehind

/-- The tokens of a run can be written one after another. -/
theorem fits_run (l : Lexer) (t : Token) (ht : t.Lexable) (hb : Behind t l) :
    Fits (t :: l.run.steps.map fun s => s.1.token) := by
  fun_induction run l generalizing t with
  | case1 l lexeme l' h _ rest ih =>
    obtain ⟨hlex, hbehind, hpre⟩ := lexable_of_next h
    obtain ⟨hall, hchain⟩ := ih lexeme.token hlex hbehind
    exact ⟨List.forall_mem_cons.2 ⟨ht, hall⟩, List.isChain_cons_cons.2 ⟨hpre t hb, hchain⟩⟩
  | case2 l l' h => exact fits_singleton.2 ht
  | case3 l l' e h => exact fits_singleton.2 ht

end Lexer

/-- **A document that was read can be written.** -/
theorem lexable_of_documentOf {source : String} {c : Document} (h : documentOf source = .ok c) :
    c.Lexable := by
  obtain ⟨htokens, hdepth⟩ := documentOf_eq_ok_iff.1 h
  obtain ⟨-, htokens⟩ := tokenize_eq_ok_iff.1 htokens
  -- Any symbol may stand before the first token.
  have hfits := Lexer.fits_run (Lexer.ofText source.toList) (.symbol .letWord) trivial
    fun _ => trivial
  rw [htokens, fits_symbol_cons] at hfits
  exact (lexable_iff_fits c).2 ⟨hfits, hdepth⟩

end ConfigLang
