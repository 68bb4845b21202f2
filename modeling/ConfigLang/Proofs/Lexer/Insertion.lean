import ConfigLang.Proofs.Lexer.Declining
import ConfigLang.Proofs.Lexer.Lexemes

/-!
# Trivia between tokens

Trivia that starts with white space can be put behind every token outside strings, and changes
nothing. What a lexer reads up to there it reads as before: each token ends there or earlier, and
white space neither goes on with a token nor completes one.

* `scan_insert`: a pattern reads the same token before white space.
* `scan_none_insert`: a pattern that declines a text declines it with white space in it.
* `next_insert`: a step reads the same token.
* `tokenize_insert`: the statement for whole texts.
-/

namespace ConfigLang.Lexer

open Text (isBlank)

/-! ## White space in tokens -/

theorem isBlank_of_isSign {sign : List Char} (h : IsSign sign) : ∀ c ∈ sign, isBlank c = false := by
  rcases h with rfl | rfl
  · simp
  · exact List.forall_mem_singleton.2 (by decide)

theorem isBlank_of_isDigits {digits : List Char} (h : IsDigits digits) :
    ∀ c ∈ digits, isBlank c = false :=
  fun c hc => isBlank_of_isDigit (h.2 c hc)

theorem isBlank_of_isExponent {exponent : List Char} (h : IsExponent exponent) :
    ∀ c ∈ exponent, isBlank c = false := by
  rcases h with rfl | ⟨e, sign, digits, he, hs, hd, rfl⟩
  · simp
  · have hletter : isBlank e = false := by rcases he with rfl | rfl <;> decide
    have hsign : ∀ c ∈ sign, isBlank c = false := by
      rcases hs with hs | rfl
      · exact isBlank_of_isSign hs
      · exact List.forall_mem_singleton.2 (by decide)
    have hstart : ∀ c ∈ e :: sign, isBlank c = false := List.forall_mem_cons.2 ⟨hletter, hsign⟩
    exact List.forall_mem_append.2 ⟨hstart, isBlank_of_isDigits hd⟩

/-- Only characters are recognised by white space. -/
theorem isBlank_of_opens {p : Pattern} {start rest : List Char} (h : p.Opens start rest)
    (hp : p ≠ .characters) : ∀ c ∈ start, isBlank c = false := by
  cases p with
  | symbol s =>
    obtain rfl : start = s.text.toList := h
    have hall : s.text.toList.all (fun c => !isBlank c) = true := by cases s <;> decide
    simpa using hall
  | input =>
    obtain ⟨c, rfl, hc⟩ := h
    have hname : isBlank c = false := by
      cases hblank : isBlank c with
      | false => rfl
      | true =>
        rw [← isNameChar_of_isBlank hblank, isNameChar_of_isNameStart hc]
    exact List.forall_mem_cons.2 ⟨by decide, by simpa using hname⟩
  | quotedSegment =>
    obtain ⟨c, rfl, rfl⟩ := h
    exact List.forall_mem_singleton.2 (by decide)
  | segment =>
    obtain ⟨c, rfl, hc⟩ := h
    simp only [isSegmentChar, Bool.and_eq_true, Bool.not_eq_true'] at hc
    simpa using hc.1.1
  | float =>
    obtain ⟨sign, whole, rfl, hs, hw, -⟩ := h
    have hpoint : ∀ c ∈ ['.'], isBlank c = false := List.forall_mem_singleton.2 (by decide)
    have hnumber := List.forall_mem_append.2 ⟨isBlank_of_isSign hs, isBlank_of_isDigits hw⟩
    exact List.forall_mem_append.2 ⟨hnumber, hpoint⟩
  | hexInteger =>
    obtain rfl : start = ['0', 'x'] := h
    exact List.forall_mem_cons.2 ⟨by decide, List.forall_mem_singleton.2 (by decide)⟩
  | integer =>
    obtain ⟨sign, digit, rfl, hs, hd⟩ := h
    exact List.forall_mem_append.2 ⟨isBlank_of_isSign hs, by simpa using isBlank_of_isDigit hd⟩
  | escape =>
    obtain ⟨c, rfl, rfl⟩ := h
    exact List.forall_mem_singleton.2 (by decide)
  | characters => exact absurd rfl hp

/-! ## Floats and the patterns around them -/

theorem exponentOf_ne_nil {exponent : List Char} (h : IsExponent exponent) (hne : exponent ≠ [])
    (rest : List Char) : exponentOf (exponent ++ rest) ≠ [] := by
  rcases h with rfl | ⟨e, sign, digits, he, hs, hd, rfl⟩
  · exact absurd rfl hne
  cases digits with
  | nil => exact absurd rfl hd.1
  | cons d digits =>
    rw [exponentOf_digits he hs (hd.2 d List.mem_cons_self)]
    simp

/-- Only floats look behind the start of a text. -/
theorem opens_of_opens {p : Pattern} {start rest rest' : List Char} (h : p.Opens start rest)
    (hfloat : p = .float → rest'.head? ≠ some '.') : p.Opens start rest' := by
  cases p with
  | float =>
    obtain ⟨sign, whole, rfl, hs, hw, -⟩ := h
    exact ⟨sign, whole, rfl, hs, hw, hfloat rfl⟩
  | _ => exact h

/-- Where a mode tries floats before a pattern, the pattern is one of these. -/
theorem before_float {mode : Mode} {p : Pattern} (hp : ∃ r ∈ mode.rules, r.pattern = p)
    (h : ∃ r ∈ mode.before p, r.pattern = .float) :
    p = .hexInteger ∨ p = .integer ∨ p = .symbol .bracketClose := by
  obtain ⟨rule, hrule, rfl⟩ := hp
  have hall : ∀ mode : Mode, ∀ rule ∈ mode.rules,
      (mode.before rule.pattern).any (fun r => r.pattern = .float) →
        rule.pattern = .hexInteger ∨ rule.pattern = .integer ∨
          rule.pattern = .symbol .bracketClose := by
    intro mode
    cases mode <;> decide
  refine hall mode rule hrule ?_
  simpa using h

/-- Where digits and a point stand before another point, what is read there are the digits, or
fewer characters of another kind. -/
theorem rest_of_point {p : Pattern} {lexeme : Lexeme} {sign whole u v : List Char}
    (hp : p = .hexInteger ∨ p = .integer ∨ p = .symbol .bracketClose)
    (h : p.scan (lexeme.text ++ (u ++ v)) = .ok (some lexeme))
    (htext : lexeme.text ++ u = sign ++ whole ++ ['.']) (hs : IsSign sign) (hw : IsDigits whole) :
    u = ['.'] := by
  have hcs : lexeme.text ++ (u ++ v) = sign ++ (whole ++ '.' :: v) := by
    rw [← List.append_assoc, htext]
    simp
  rw [hcs] at h
  have hpoint : Stops Char.isDigit ('.' :: v) := stops_cons.2 (by decide)
  rcases hp with rfl | rfl | rfl
  · obtain ⟨digits, rest, hhex, -⟩ := scanHexInteger_eq_ok_iff.1 h
    exact absurd hhex (hexadecimal_disjoint hs hw hpoint (by simp))
  · obtain ⟨sign', digits, rest, hinteger, hs', hd, hstop, -, rfl⟩ := scanInteger_eq_ok_iff.1 h
    obtain ⟨rfl, hnumber⟩ := sign_unique hs hw hs' hd hinteger
    obtain ⟨rfl, -⟩ := run_unique hw.2 hpoint hd.2 hstop hnumber
    exact List.append_cancel_left htext
  · obtain ⟨rest, hbracket, -⟩ := scanSymbol_eq_some_iff.1 (Except.ok.inj h)
    obtain ⟨c, text, hstart, hc⟩ := number_start hs hw
    rw [← List.append_assoc, hstart] at hbracket
    obtain rfl : c = ']' := (List.cons.inj hbracket).1
    rcases hc with hc | hc <;> exact absurd hc (by decide)

section

variable {b : Char} (hb : isBlank b)

include hb

/-! ## White space ends what came before -/

/-- A text without white space at the start of another lies before the white space there. -/
theorem prefix_before_blank {start rest a r : List Char} (hstart : ∀ c ∈ start, isBlank c = false)
    (h : a ++ b :: r = start ++ rest) : ∃ u, a = start ++ u ∧ rest = u ++ b :: r := by
  rcases List.append_eq_append_iff.1 h with ⟨u, hs, hr⟩ | ⟨u, ha, hrest⟩
  · cases u with
    | nil => exact ⟨[], by simpa using hs.symm, by simpa using hr.symm⟩
    | cons c u =>
      obtain ⟨rfl, -⟩ := List.cons.inj hr
      rw [hstart b (by simp [hs])] at hb
      cases hb
  · exact ⟨u, ha, hrest⟩

variable (r : List Char)

/-- What stops a run of characters stops it still, or the white space does. -/
theorem stops_insert {p : Char → Bool} (hp : ∀ c, isBlank c → p c = false) {u v : List Char}
    (h : Stops p (u ++ v)) : Stops p (u ++ b :: r) := by
  cases u with
  | nil => exact stops_cons.2 (hp b hb)
  | cons c u => exact stops_cons.2 (stops_cons.1 h)

/-! ## Tokens before white space -/

/-- White space neither goes on with an exponent nor completes one. -/
theorem exponentOf_insert {exponent u v : List Char}
    (h : exponentOf (exponent ++ (u ++ v)) = exponent) :
    exponentOf (exponent ++ (u ++ b :: r)) = exponent := by
  have he : IsExponent exponent := h ▸ (exponentOf_spec _).1
  by_cases hne : exponent = []
  · subst hne
    rw [List.nil_append] at h ⊢
    obtain ⟨hlonger, rest, hrest⟩ := exponentOf_spec (u ++ b :: r)
    by_contra hsome
    obtain ⟨u', hu, -⟩ := prefix_before_blank hb (isBlank_of_isExponent hlonger) hrest
    rw [hu, List.append_assoc] at h
    exact exponentOf_ne_nil hlonger hsome _ h
  · have hstop := (exponentOf_append_iff he hne).1 h
    exact (exponentOf_append_iff he hne).2 (stops_insert hb r (fun _ => isDigit_of_isBlank) hstop)

/-- A pattern reads the same token before white space, which only characters would go on with. -/
theorem scan_insert {p : Pattern} {lexeme : Lexeme} {u v : List Char}
    (h : p.scan (lexeme.text ++ (u ++ v)) = .ok (some lexeme)) (hu : p = .characters → u ≠ []) :
    p.scan (lexeme.text ++ (u ++ b :: r)) = .ok (some lexeme) := by
  cases p with
  | symbol s =>
    obtain ⟨rest, -, rfl⟩ := scanSymbol_eq_some_iff.1 (Except.ok.inj h)
    exact congrArg Except.ok (scanSymbol_eq_some_iff.2 ⟨_, rfl, rfl⟩)
  | input =>
    obtain ⟨text, rest, hcs, hname, hstop, rfl⟩ := scanInput_eq_some_iff.1 (Except.ok.inj h)
    obtain rfl := List.append_cancel_left hcs
    have hstop' := stops_insert hb r (fun _ => isNameChar_of_isBlank) hstop
    exact congrArg Except.ok (scanInput_eq_some_iff.2 ⟨text, _, rfl, hname, hstop', rfl⟩)
  | quotedSegment =>
    obtain ⟨body, rest, -, hbody, rfl⟩ := scanQuotedSegment_eq_ok_iff.1 h
    have hcs : '\'' :: body ++ ['\''] ++ (u ++ b :: r) = '\'' :: body ++ '\'' :: (u ++ b :: r) := by
      simp
    exact scanQuotedSegment_eq_ok_iff.2 ⟨body, u ++ b :: r, hcs, hbody, rfl⟩
  | segment =>
    obtain ⟨text, rest, hcs, hne, hchars, hstop, rfl⟩ :=
      scanSegment_eq_some_iff.1 (Except.ok.inj h)
    obtain rfl := List.append_cancel_left hcs
    have hblank (c : Char) (hc : isBlank c) : isSegmentChar c = false := by
      simp [isSegmentChar, hc]
    have hstop' := stops_insert hb r hblank hstop
    exact congrArg Except.ok (scanSegment_eq_some_iff.2 ⟨text, _, rfl, hne, hchars, hstop', rfl⟩)
  | float =>
    obtain ⟨sign, whole, fraction, exponent, rest, hcs, hs, hw, hf, hstop, he, hfinite, rfl⟩ :=
      scanFloat_eq_ok_iff.1 h
    obtain rfl : u ++ v = rest := by simpa using hcs
    rw [← List.append_assoc] at hstop
    have hstop' := stops_insert hb r (fun _ => isDigit_of_isBlank) hstop
    rw [List.append_assoc] at hstop'
    exact scanFloat_eq_ok_iff.2 ⟨sign, whole, fraction, exponent, u ++ b :: r, by simp, hs, hw, hf,
      hstop', exponentOf_insert hb r he, hfinite, rfl⟩
  | hexInteger =>
    obtain ⟨digits, rest, hcs, hne, hdigits, hstop, hrange, rfl⟩ := scanHexInteger_eq_ok_iff.1 h
    obtain rfl := List.append_cancel_left hcs
    have hstop' := stops_insert hb r (fun _ => isHexDigit_of_isBlank) hstop
    exact scanHexInteger_eq_ok_iff.2 ⟨digits, _, rfl, hne, hdigits, hstop', hrange, rfl⟩
  | integer =>
    obtain ⟨sign, digits, rest, hcs, hs, hd, hstop, hrange, rfl⟩ := scanInteger_eq_ok_iff.1 h
    obtain rfl : u ++ v = rest := by simpa using hcs
    have hstop' := stops_insert hb r (fun _ => isDigit_of_isBlank) hstop
    exact scanInteger_eq_ok_iff.2 ⟨sign, digits, _, by simp, hs, hd, hstop', hrange, rfl⟩
  | escape =>
    rcases scanEscape_eq_ok_iff.1 h with ⟨digits, c, rest, -, hlen, hc, rfl⟩ |
      ⟨c, e, rest, -, he, rfl⟩
    · exact scanEscape_eq_ok_iff.2 (.inl ⟨digits, c, u ++ b :: r, rfl, hlen, hc, rfl⟩)
    · exact scanEscape_eq_ok_iff.2 (.inr ⟨c, e, u ++ b :: r, rfl, he, rfl⟩)
  | characters =>
    obtain ⟨text, rest, hcs, hne, hplain, hstop, rfl⟩ :=
      scanCharacters_eq_some_iff.1 (Except.ok.inj h)
    obtain rfl := List.append_cancel_left hcs
    -- White space is plain, so something else must stop the run.
    have hstop' : Stops isPlainChar (u ++ b :: r) := by
      cases u with
      | nil => exact absurd rfl (hu rfl)
      | cons c u => exact stops_cons.2 (stops_cons.1 hstop)
    exact congrArg Except.ok
      (scanCharacters_eq_some_iff.2 ⟨text, _, rfl, hne, hplain, hstop', rfl⟩)

/-! ## Texts that a pattern declines -/

/-- A pattern that declines a text declines it with white space in it. A float would take digits
and a point for its own, if no second point followed. -/
theorem scan_none_insert {p : Pattern} {a v : List Char} (ha : a ≠ [])
    (h : p.scan (a ++ v) = .ok none)
    (hfloat : p = .float → ∀ sign whole, a = sign ++ whole ++ ['.'] → IsSign sign →
      IsDigits whole → v.head? ≠ some '.') :
    p.scan (a ++ b :: r) = .ok none := by
  rw [scan_eq_none_iff] at h ⊢
  intro start rest hsplit hopens
  have hsplit' : ∃ u, a = start ++ u ∧ rest = u ++ b :: r := by
    by_cases hp : p = .characters
    · subst hp
      obtain ⟨c, rfl, -⟩ := hopens
      obtain ⟨d, a, rfl⟩ := List.exists_cons_of_ne_nil ha
      obtain ⟨rfl, rfl⟩ := List.cons.inj hsplit
      exact ⟨a, rfl, rfl⟩
    · exact prefix_before_blank hb (isBlank_of_opens hopens hp) hsplit
  obtain ⟨u, rfl, rfl⟩ := hsplit'
  refine h start (u ++ v) (by simp) (opens_of_opens hopens ?_)
  rintro rfl
  obtain ⟨sign, whole, rfl, hs, hw, hhead⟩ := hopens
  cases u with
  | nil => exact hfloat rfl sign whole (by simp) hs hw
  | cons c u => exact hhead

/-! ## Steps -/

/-- A mode reads the same token with white space behind it, or later in the text. -/
theorem firstMatch_insert {mode : Mode} {lexeme : Lexeme} {move : Move} {u v : List Char}
    (h : firstMatch mode.rules (lexeme.text ++ (u ++ v)) = .ok (some (lexeme, move)))
    (hm : mode.moveOn lexeme.token = some move) (hne : lexeme.text ≠ [])
    (hplain : ∀ s, lexeme.token = .characters s → u ≠ [])
    (hpoint : u = ['.'] → v.head? ≠ some '.') :
    firstMatch mode.rules (lexeme.text ++ (u ++ b :: r)) = .ok (some (lexeme, move)) := by
  obtain ⟨p, hp, hbefore, hscan⟩ := pattern_of_firstMatch h
  refine firstMatch_of_before hm hp (fun rule hrule => ?_) (scan_insert hb r hscan ?_)
  · have hdecline := hbefore rule hrule
    rw [← List.append_assoc] at hdecline ⊢
    refine scan_none_insert hb r (List.append_ne_nil_of_left_ne_nil hne u) hdecline ?_
    intro hfloat sign whole htext hs hw
    exact hpoint (rest_of_point (before_float hp ⟨rule, hrule, hfloat⟩) hscan htext hs hw)
  · rintro rfl
    have hmakes := makes_of_scan hscan
    cases ht : lexeme.token with
    | characters s => exact hplain s ht
    | _ =>
      rw [ht] at hmakes
      cases hmakes

/-- What is ahead starts at the same place with white space later in the text. -/
theorem ahead_insert {modes : List Mode} {s text v : List Char} (hne : text ≠ [])
    (h : ahead ⟨s ++ v, modes⟩ = text ++ v) : ahead ⟨s ++ b :: r, modes⟩ = text ++ b :: r := by
  by_cases hs : InString modes
  · rw [ahead_of_inString hs] at h ⊢
    exact congrArg (· ++ b :: r) (List.append_cancel_right h)
  · rw [ahead_of_not_inString hs] at h ⊢
    dsimp only at h ⊢
    obtain ⟨gap, hsplit, hgap⟩ := exists_trivia (s ++ v)
    rw [h, ← List.append_assoc] at hsplit
    have htrivia : IsTrivia gap := hgap.resolve_right fun hlast => by simp [h, hne] at hlast
    rw [List.append_cancel_right hsplit, List.append_assoc, skipTrivia_append htrivia]
    -- No comment starts here either: a slash would be followed by the white space.
    have hself : skipTrivia (text ++ v) = text ++ v := by rw [← h, skipTrivia_skipTrivia]
    obtain ⟨hhead, hcomment⟩ := skipTrivia_eq_self_iff.1 hself
    obtain ⟨c, text, rfl⟩ := List.exists_cons_of_ne_nil hne
    refine skipTrivia_eq_self_iff.2 ⟨hhead, ?_⟩
    rintro ⟨rest, hrest⟩
    have hslashes : ∀ c ∈ ['/', '/'], isBlank c = false :=
      List.forall_mem_cons.2 ⟨by decide, List.forall_mem_singleton.2 (by decide)⟩
    obtain ⟨u, hu, -⟩ := prefix_before_blank hb hslashes hrest.symm
    exact hcomment ⟨u ++ v, by rw [hu]; simp⟩

/-- A step reads the same token with white space behind it, or later in the text. -/
theorem next_insert {modes modes' : List Mode} {s u v : List Char} {lexeme : Lexeme}
    (h : next ⟨s ++ v, modes⟩ = (.ok (some lexeme), ⟨u ++ v, modes'⟩))
    (hstring : InString modes' → u ≠ []) (hpoint : u = ['.'] → v.head? ≠ some '.') :
    next ⟨s ++ b :: r, modes⟩ = (.ok (some lexeme), ⟨u ++ b :: r, modes'⟩) := by
  obtain ⟨mode, outer, move, hmodes, hfirst, hne, hahead, hmodes'⟩ := next_eq_some_iff.1 h
  have hm := moveOn_of_firstMatch hfirst
  rw [hahead] at hfirst
  have hplain (text : String) (ht : lexeme.token = .characters text) : u ≠ [] := by
    -- Characters do not end a string.
    rw [ht] at hm
    obtain rfl := string_mode (.inr ⟨text, rfl⟩) (Option.isSome_of_eq_some hm)
    have hs : InString modes := congrArg List.head? hmodes
    exact hstring (inString_of_next h hs (by simp [ht]))
  rw [← List.append_assoc] at hahead
  have hahead' := ahead_insert hb r (List.append_ne_nil_of_left_ne_nil hne u) hahead
  rw [List.append_assoc] at hahead'
  have hfirst' := firstMatch_insert hb r hfirst hm hne hplain hpoint
  rw [← hahead'] at hfirst'
  exact next_eq_some_iff.2 ⟨mode, outer, move, hmodes, hfirst', hne, hahead', hmodes'⟩

end

/-! ## Runs -/

/-- The lexers that a lexer becomes while it reads tokens. -/
inductive Reaches : Lexer → Lexer → Prop
  | refl (l : Lexer) : Reaches l l
  | head {l l' l'' : Lexer} {lexeme : Lexeme} (h : l.next = (.ok (some lexeme), l'))
    (hr : Reaches l' l'') : Reaches l l''

theorem next_suffix {l l' : Lexer} {lexeme : Lexeme} (h : l.next = (.ok (some lexeme), l')) :
    l'.rest <:+ l.rest := by
  obtain ⟨mode, outer, move, -, -, -, hahead, -⟩ := next_eq_some_iff.1 h
  have htext : l'.rest <:+ l.ahead := ⟨lexeme.text, hahead.symm⟩
  exact htext.trans l.ahead_suffix

theorem Reaches.suffix {l l' : Lexer} (h : Reaches l l') : l'.rest <:+ l.rest := by
  induction h with
  | refl l => exact List.suffix_rfl
  | head h _ ih => exact ih.trans (next_suffix h)

/-- A lexer that has come no further has read no token. -/
theorem Reaches.eq_of_rest {l l' : Lexer} (h : Reaches l l') (hrest : l.rest = l'.rest) :
    l = l' := by
  cases h with
  | refl => rfl
  | head h hr =>
    have hlt := length_next_lt h
    have hle := hr.suffix.length_le
    rw [hrest] at hlt
    omega

/-- Where two points stand, no token is the first of them alone. -/
theorem firstMatch_points {mode : Mode} {cs : List Char} {lexeme : Lexeme} {move : Move}
    (h : firstMatch mode.rules ('.' :: '.' :: cs) = .ok (some (lexeme, move))) :
    lexeme.text ≠ ['.'] := by
  obtain ⟨p, hp, hbefore, hscan⟩ := pattern_of_firstMatch h
  intro htext
  have hstart : p.mayStart '.' = true := by
    by_contra hno
    rw [scan_of_not_mayStart (Bool.eq_false_iff.2 hno)] at hscan
    cases hscan
  cases p with
  | symbol s =>
    obtain ⟨rest, -, rfl⟩ := scanSymbol_eq_some_iff.1 (Except.ok.inj hscan)
    obtain rfl : s = .dot := text_injective (String.toList_inj.1 htext)
    -- A mode with dots tries spreads before them.
    have hspread : ⟨.symbol .spread, .stay⟩ ∈ mode.before (.symbol .dot) := by
      revert hp
      cases mode <;> decide
    have hdecline := hbefore _ hspread
    simp [Pattern.scan, scanSymbol, Symbol.text] at hdecline
  | characters =>
    obtain ⟨text, rest, hcs, -, -, hstop, rfl⟩ :=
      scanCharacters_eq_some_iff.1 (Except.ok.inj hscan)
    obtain rfl : text = ['.'] := htext
    obtain rfl : '.' :: cs = rest := (List.cons.inj hcs).2
    exact absurd (stops_cons.1 hstop) (by decide)
  | _ => exact absurd hstart (by decide)

/-- No token ends between two points. -/
theorem not_reaches_between_points {modes modes' : List Mode} {cs : List Char} :
    ¬ Reaches ⟨'.' :: '.' :: cs, modes⟩ ⟨'.' :: cs, modes'⟩ := by
  intro h
  cases h with
  | @head _ l' _ lexeme hnext hr =>
    obtain ⟨mode, outer, move, -, hfirst, hne, hahead, -⟩ := next_eq_some_iff.1 hnext
    have hpoints : ahead ⟨'.' :: '.' :: cs, modes⟩ = '.' :: '.' :: cs := by
      unfold ahead
      split
      · rfl
      · exact skipTrivia_eq_self_iff.2 ⟨by simp; decide, by simp⟩
    rw [hpoints] at hfirst hahead
    have hle := hr.suffix.length_le
    obtain ⟨c, text, htext⟩ := List.exists_cons_of_ne_nil hne
    rw [htext, List.cons_append] at hahead
    obtain ⟨rfl, hrest⟩ := List.cons.inj hahead
    have hlength := congrArg List.length hrest
    simp only [List.length_append, List.length_cons] at hlength hle
    obtain rfl : text = [] := List.length_eq_zero_iff.1 (by omega)
    exact firstMatch_points hfirst htext

theorem next_of_ahead {l l' : Lexer} (hmodes : l.modes = l'.modes) (hahead : l.ahead = l'.ahead) :
    l.next = l'.next := by
  unfold next
  rw [hmodes, hahead]

/-- A run that comes to the end of a token outside strings goes on as before when trivia is put
there. -/
theorem run_insert {l l' : Lexer} (h : Reaches l l') (hs : ¬ InString l'.modes) {b : Char}
    {w : List Char} (hb : isBlank b) (hw : IsTrivia (b :: w)) (u : List Char)
    (hu : l.rest = u ++ l'.rest) : run ⟨u ++ (b :: w ++ l'.rest), l.modes⟩ = l.run := by
  induction h generalizing u with
  | refl l =>
    obtain rfl : u = [] := by simpa using hu
    have hahead : ahead ⟨b :: w ++ l.rest, l.modes⟩ = l.ahead := calc
      _ = skipTrivia (b :: w ++ l.rest) :=
        ahead_of_not_inString (l := ⟨b :: w ++ l.rest, l.modes⟩) hs
      _ = skipTrivia l.rest := skipTrivia_append hw l.rest
      _ = l.ahead := (ahead_of_not_inString hs).symm
    have hnext : next ⟨b :: w ++ l.rest, l.modes⟩ = l.next := next_of_ahead rfl hahead
    rw [List.nil_append, run_eq, hnext, ← run_eq]
  | @head l₁ l₂ l₃ lexeme hnext hr ih =>
    obtain ⟨u', hu'⟩ := hr.suffix
    obtain ⟨rest₁, modes₁⟩ := l₁
    obtain ⟨rest₂, modes₂⟩ := l₂
    obtain ⟨v, modes₃⟩ := l₃
    obtain rfl : rest₁ = u ++ v := hu
    obtain rfl : u' ++ v = rest₂ := hu'
    have hstring : InString modes₂ → u' ≠ [] := by
      rintro hstring rfl
      obtain rfl := (Lexer.mk.inj (hr.eq_of_rest rfl)).2
      exact hs hstring
    have hpoint : u' = ['.'] → v.head? ≠ some '.' := by
      rintro rfl hhead
      obtain ⟨cs, rfl⟩ := List.head?_eq_some_iff.1 hhead
      exact not_reaches_between_points hr
    have hinsert := next_insert hb (w ++ v) hnext hstring hpoint
    have hrun := ih hs u' rfl
    rw [run_eq, List.cons_append, hinsert, run_eq ⟨u ++ v, modes₁⟩, hnext]
    simp only [List.cons_append] at hrun
    simp only [hrun]

/-- **Trivia between tokens changes nothing.** At the start of a text, or where a token ends outside
strings, trivia that starts with white space can be put in or left out: the tokens are the same, or
the error is. -/
theorem tokenize_insert {u v w : List Char} {modes : List Mode}
    (hreach : Reaches (ofText (u ++ v)) ⟨v, modes⟩) (hs : ¬ InString modes) (hw : IsTrivia w)
    (hblank : ∃ b w', w = b :: w' ∧ isBlank b) :
    tokenize (String.ofList (u ++ w ++ v)) = tokenize (String.ofList (u ++ v)) := by
  obtain ⟨b, w', rfl, hb⟩ := hblank
  have hrun : (ofText (u ++ (b :: w' ++ v))).run = (ofText (u ++ v)).run :=
    run_insert hreach hs hb hw u rfl
  rw [tokenize, tokenize, String.toList_ofList, String.toList_ofList, List.append_assoc, hrun]

/-- A comment between a number and the points of a spread, which no float is made of. -/
theorem tokenize_insert_before_spread :
    Reaches (ofText ("\x7ba=[1".toList ++ "..$x]\x7d".toList))
        ⟨"..$x]\x7d".toList, [.array, .object, .topLevel]⟩ ∧
      tokenize (String.ofList ("\x7ba=[1".toList ++ " //.5\n".toList ++ "..$x]\x7d".toList)) =
        tokenize (String.ofList ("\x7ba=[1".toList ++ "..$x]\x7d".toList)) := by
  have htrivia : IsTrivia " //.5\n".toList := by
    have hcomment : IsTrivia ('/' :: '/' :: ['.', '5'] ++ '\n' :: []) := .comment (by decide) .nil
    exact .blank (by decide) hcomment
  -- The lexer reads a brace, a key, an equals sign, a bracket and the number.
  have hnumber : Reaches ⟨"1..$x]\x7d".toList, [.array, .object, .topLevel]⟩
      ⟨"..$x]\x7d".toList, [.array, .object, .topLevel]⟩ := .head rfl (.refl _)
  have hbracket : Reaches ⟨"[1..$x]\x7d".toList, [.value, .object, .topLevel]⟩ _ :=
    .head rfl hnumber
  have hequals : Reaches ⟨"=[1..$x]\x7d".toList, [.object, .topLevel]⟩ _ := .head rfl hbracket
  have hkey : Reaches ⟨"a=[1..$x]\x7d".toList, [.object, .topLevel]⟩ _ := .head rfl hequals
  have hreach : Reaches (ofText ("\x7ba=[1".toList ++ "..$x]\x7d".toList)) _ := .head rfl hkey
  exact ⟨hreach, tokenize_insert hreach (by simp [InString]) htrivia ⟨' ', _, rfl, by decide⟩⟩

end ConfigLang.Lexer
