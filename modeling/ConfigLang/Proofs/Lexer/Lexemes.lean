import ConfigLang.Proofs.Lexer.ReadImage

/-!
# What a token says about its text

A token is no more than its text: `Denotes` gives the token of a text for every class of tokens, and
a token that was read denotes the text that it was read from.

* `Denotes.eq_of_label`: tokens of one class with the same text are the same.
* `next_eq_some_iff`: a step that reads a token takes its text from the start of what is ahead.
* `denotes_of_next`: the token that a step reads is the one that its text denotes.
-/

namespace ConfigLang

open Lexer

/-- The token that a text denotes: it is written so, or its digits are hexadecimal. -/
inductive Denotes : Token → List Char → Prop
  | written {t : Token} {text : List Char} (h : Spells t text) : Denotes t text
  | hexadecimal {digits : List Char} (hne : digits ≠ [])
      (hdigits : ∀ c ∈ digits, Text.isHexDigit c)
      (hrange : Text.ofHexDigits digits 0 < 0x100000000) :
      Denotes (.integer (Int32.ofNat (Text.ofHexDigits digits 0))) ('0' :: 'x' :: digits)

/-! ## One token for a text -/

theorem text_injective {s s' : Symbol} (h : s.text = s'.text) : s = s' := by
  revert h
  cases s <;> cases s' <;> decide

theorem Token.symbol_of_label {s : Symbol} {t : Token} (h : t.label = s.text) :
    t = .symbol s := by
  cases t with
  | symbol s' => exact congrArg Token.symbol (text_injective h)
  | _ => cases s <;> simp [Token.label, Symbol.text] at h

theorem sign_unique {sign sign' digits digits' rest rest' : List Char} (hs : IsSign sign)
    (hd : IsDigits digits) (hs' : IsSign sign') (hd' : IsDigits digits')
    (h : sign ++ (digits ++ rest) = sign' ++ (digits' ++ rest')) :
    sign = sign' ∧ digits ++ rest = digits' ++ rest' := by
  have hsign : sign = sign' := calc
    sign = signOf (sign ++ (digits ++ rest)) := (signOf_append hs hd).symm
    _ = signOf (sign' ++ (digits' ++ rest')) := congrArg signOf h
    _ = sign' := signOf_append hs' hd'
  subst hsign
  exact ⟨rfl, List.append_cancel_left h⟩

theorem run_unique {p : Char → Bool} {run run' rest rest' : List Char} (hrun : ∀ c ∈ run, p c)
    (hrest : Stops p rest) (hrun' : ∀ c ∈ run', p c) (hrest' : Stops p rest')
    (h : run ++ rest = run' ++ rest') : run = run' ∧ rest = rest' := by
  have heq : run = run' := by
    rw [← takeWhile_append_of_stops hrun hrest, h, takeWhile_append_of_stops hrun' hrest']
  subst heq
  exact ⟨rfl, List.append_cancel_left h⟩

/-- The letter of a hexadecimal literal is no digit. -/
theorem hexadecimal_disjoint {sign digits rest hex : List Char} (hs : IsSign sign)
    (hd : IsDigits digits) (hstop : Stops Char.isDigit rest) (hx : rest.head? ≠ some 'x') :
    sign ++ (digits ++ rest) ≠ '0' :: 'x' :: hex := by
  intro h
  have hzero : IsDigits ['0'] := ⟨by simp, List.forall_mem_singleton.2 (by decide)⟩
  have hletter : Stops Char.isDigit ('x' :: hex) := stops_cons.2 (by decide)
  have hnone : IsSign [] := .inl rfl
  obtain ⟨-, hnumber⟩ := sign_unique hs hd hnone hzero h
  obtain ⟨-, rfl⟩ := run_unique hd.2 hstop hzero.2 hletter hnumber
  exact hx rfl

theorem Lexer.IsExponent.stops {exponent : List Char} (h : IsExponent exponent) :
    Stops Char.isDigit exponent := by
  rcases h with rfl | ⟨e, sign, digits, rfl | rfl, -, -, rfl⟩
  · simp [Stops]
  · exact stops_cons.2 (by decide)
  · exact stops_cons.2 (by decide)

theorem segment_unique {s s' : String} {text : List Char} (h : Denotes (.segment s) text)
    (h' : Denotes (.segment s') text) : s = s' := by
  have hforms {s : String} (h : Denotes (.segment s) text) :
      text = '\'' :: s.toList ++ ['\''] ∨ text = s.toList ∧ text.head? ≠ some '\'' := by
    cases h with
    | written h =>
      cases h with
      | quoted => exact .inl rfl
      | bare hbare => exact .inr ⟨rfl, hbare.head_ne_quote⟩
  rcases hforms h with rfl | ⟨rfl, hhead⟩ <;> rcases hforms h' with htext | ⟨htext, hhead'⟩
  · exact String.toList_inj.1 (List.append_cancel_right (List.cons.inj htext).2)
  · exact absurd rfl hhead'
  · rw [htext] at hhead
    exact absurd rfl hhead
  · exact String.toList_inj.1 htext

theorem integer_unique {n n' : Int32} {text : List Char} (h : Denotes (.integer n) text)
    (h' : Denotes (.integer n') text) : n = n' := by
  have hforms {n : Int32} (h : Denotes (.integer n) text) :
      (∃ sign digits, text = sign ++ (digits ++ []) ∧ IsSign sign ∧ IsDigits digits ∧
        integerValue sign digits = n.toInt) ∨
      ∃ digits, text = '0' :: 'x' :: digits ∧ n = Int32.ofNat (Text.ofHexDigits digits 0) := by
    cases h with
    | written h =>
      cases h with
      | integer hs hd hn => exact .inl ⟨_, _, by simp, hs, hd, hn⟩
    | hexadecimal => exact .inr ⟨_, rfl, rfl⟩
  have hnil : Stops Char.isDigit [] := by simp [Stops]
  rcases hforms h with ⟨sign, digits, rfl, hs, hd, hn⟩ | ⟨digits, rfl, rfl⟩ <;>
    rcases hforms h' with ⟨sign', digits', htext, hs', hd', hn'⟩ | ⟨digits', htext, rfl⟩
  · obtain ⟨rfl, hdigits⟩ := sign_unique hs hd hs' hd' htext
    obtain rfl : digits = digits' := by simpa using hdigits
    exact Int32.toInt_inj.1 (hn.symm.trans hn')
  · exact absurd htext (hexadecimal_disjoint hs hd hnil (by simp))
  · exact absurd htext.symm (hexadecimal_disjoint hs' hd' hnil (by simp))
  · simp only [List.cons.injEq, true_and] at htext
    rw [htext]

theorem float_unique {x x' : Binary64} {text : List Char} (h : Denotes (.float x) text)
    (h' : Denotes (.float x') text) : x = x' := by
  have hforms {x : Binary64} (h : Denotes (.float x) text) :
      ∃ sign whole fraction exponent, text = sign ++ (whole ++ '.' :: (fraction ++ exponent)) ∧
        IsSign sign ∧ IsDigits whole ∧ IsDigits fraction ∧ IsExponent exponent ∧
        floatValue (!sign.isEmpty) whole fraction exponent = x := by
    cases h with
    | written h =>
      cases h with
      | float hs hw hf he hx => exact ⟨_, _, _, _, by simp, hs, hw, hf, he, hx⟩
  have hpoint (rest : List Char) : Stops Char.isDigit ('.' :: rest) := stops_cons.2 (by decide)
  obtain ⟨sign, whole, fraction, exponent, rfl, hs, hw, hf, he, rfl⟩ := hforms h
  obtain ⟨sign', whole', fraction', exponent', htext, hs', hw', hf', he', rfl⟩ := hforms h'
  obtain ⟨rfl, hnumber⟩ := sign_unique hs hw hs' hw' htext
  obtain ⟨rfl, hpoints⟩ := run_unique hw.2 (hpoint _) hw'.2 (hpoint _) hnumber
  obtain ⟨rfl, rfl⟩ := run_unique hf.2 he.stops hf'.2 he'.stops (List.cons.inj hpoints).2
  rfl

theorem escape_unique {c c' : Char} {text : List Char} (h : Denotes (.escape c) text)
    (h' : Denotes (.escape c') text) : c = c' := by
  have hforms {c : Char} (h : Denotes (.escape c) text) :
      (∃ d, text = ['\\', d] ∧ simpleEscape? d = some c) ∨
        ∃ digits, text = '\\' :: 'u' :: digits ∧ digits.length = 4 ∧
          namedChar? digits = some c := by
    cases h with
    | written h =>
      cases h with
      | escape hd => exact .inl ⟨_, rfl, hd⟩
      | codePoint hlen hc => exact .inr ⟨_, rfl, hlen, hc⟩
  rcases hforms h with ⟨d, rfl, hc⟩ | ⟨digits, rfl, hlen, hc⟩ <;>
    rcases hforms h' with ⟨d', htext, hc'⟩ | ⟨digits', htext, hlen', hc'⟩ <;>
    simp only [List.cons.injEq, true_and, and_true] at htext
  · rw [htext, hc'] at hc
    exact Option.some.inj hc.symm
  · rw [← htext.2] at hlen'
    cases hlen'
  · rw [htext.2] at hlen
    cases hlen
  · rw [htext, hc'] at hc
    exact Option.some.inj hc.symm

theorem characters_text {s : String} {text : List Char} (h : Denotes (.characters s) text) :
    text = s.toList := by
  cases h with
  | written h => cases h; rfl

theorem input_text {name : String} {text : List Char} (h : Denotes (.input name) text) :
    text = name.toList := by
  cases h with
  | written h => cases h; rfl

theorem symbol_text {s : Symbol} {text : List Char} (h : Denotes (.symbol s) text) :
    text = s.text.toList := by
  cases h with
  | written h => cases h; rfl

/-- Tokens of one class with the same text are the same. -/
theorem Denotes.eq_of_label {t t' : Token} {text : List Char} (h : Denotes t text)
    (h' : Denotes t' text) (hlabel : t.label = t'.label) : t = t' := by
  cases t
  case symbol => exact (Token.symbol_of_label hlabel.symm).symm
  all_goals
    cases t'
    case symbol => exact Token.symbol_of_label hlabel
  case segment.segment => rw [segment_unique h h']
  case float.float => rw [float_unique h h']
  case integer.integer => rw [integer_unique h h']
  case escape.escape => rw [escape_unique h h']
  case characters.characters =>
    rw [String.toList_inj.1 ((characters_text h).symm.trans (characters_text h'))]
  case input.input => rw [String.toList_inj.1 ((input_text h).symm.trans (input_text h'))]
  -- The labels of the other classes differ.
  all_goals simp [Token.label] at hlabel

namespace Lexer

/-! ## The text of a token that was read -/

/-- A token is read from the start of a text. -/
theorem prefix_of_scan {p : Pattern} {cs : List Char} {lexeme : Lexeme}
    (h : p.scan cs = .ok (some lexeme)) : lexeme.text <+: cs := by
  cases p with
  | symbol s =>
    obtain ⟨rest, rfl, rfl⟩ := scanSymbol_eq_some_iff.1 (Except.ok.inj h)
    exact ⟨rest, rfl⟩
  | input =>
    obtain ⟨text, rest, rfl, -, -, rfl⟩ := scanInput_eq_some_iff.1 (Except.ok.inj h)
    exact ⟨rest, rfl⟩
  | quotedSegment =>
    obtain ⟨body, rest, rfl, -, rfl⟩ := scanQuotedSegment_eq_ok_iff.1 h
    exact ⟨rest, by simp⟩
  | segment =>
    obtain ⟨text, rest, rfl, -, -, -, rfl⟩ := scanSegment_eq_some_iff.1 (Except.ok.inj h)
    exact ⟨rest, rfl⟩
  | float =>
    obtain ⟨sign, whole, fraction, exponent, rest, rfl, -, -, -, -, -, -, rfl⟩ :=
      scanFloat_eq_ok_iff.1 h
    exact ⟨rest, by simp⟩
  | hexInteger =>
    obtain ⟨digits, rest, rfl, -, -, -, -, rfl⟩ := scanHexInteger_eq_ok_iff.1 h
    exact ⟨rest, rfl⟩
  | integer =>
    obtain ⟨sign, digits, rest, rfl, -, -, -, -, rfl⟩ := scanInteger_eq_ok_iff.1 h
    exact ⟨rest, by simp⟩
  | escape =>
    obtain ⟨digits, c, rest, rfl, -, -, rfl⟩ | ⟨c, e, rest, rfl, -, rfl⟩ :=
      scanEscape_eq_ok_iff.1 h
    · exact ⟨rest, rfl⟩
    · exact ⟨rest, rfl⟩
  | characters =>
    obtain ⟨text, rest, rfl, -, -, -, rfl⟩ := scanCharacters_eq_some_iff.1 (Except.ok.inj h)
    exact ⟨rest, rfl⟩

/-- A token that is read covers some text. -/
theorem scan_text_ne_nil {p : Pattern} {cs : List Char} {lexeme : Lexeme}
    (h : p.scan cs = .ok (some lexeme)) : lexeme.text ≠ [] := by
  cases p with
  | symbol s =>
    obtain ⟨rest, -, rfl⟩ := scanSymbol_eq_some_iff.1 (Except.ok.inj h)
    exact text_ne_nil s
  | input =>
    obtain ⟨text, rest, -, hname, -, rfl⟩ := scanInput_eq_some_iff.1 (Except.ok.inj h)
    obtain ⟨c, run, rfl, -⟩ := isName_iff.1 hname
    exact List.cons_ne_nil _ _
  | quotedSegment =>
    obtain ⟨body, rest, -, -, rfl⟩ := scanQuotedSegment_eq_ok_iff.1 h
    exact List.cons_ne_nil _ _
  | segment =>
    obtain ⟨text, rest, -, hne, -, -, rfl⟩ := scanSegment_eq_some_iff.1 (Except.ok.inj h)
    exact hne
  | float =>
    obtain ⟨sign, whole, fraction, exponent, rest, -, -, -, -, -, -, -, rfl⟩ :=
      scanFloat_eq_ok_iff.1 h
    simp
  | hexInteger =>
    obtain ⟨digits, rest, -, -, -, -, -, rfl⟩ := scanHexInteger_eq_ok_iff.1 h
    exact List.cons_ne_nil _ _
  | integer =>
    obtain ⟨sign, digits, rest, -, -, hdigits, -, -, rfl⟩ := scanInteger_eq_ok_iff.1 h
    exact List.append_ne_nil_of_right_ne_nil _ hdigits.1
  | escape =>
    obtain ⟨digits, c, rest, -, -, -, rfl⟩ | ⟨c, e, rest, -, -, rfl⟩ := scanEscape_eq_ok_iff.1 h
    · exact List.cons_ne_nil _ _
    · exact List.cons_ne_nil _ _
  | characters =>
    obtain ⟨text, rest, -, hne, -, -, rfl⟩ := scanCharacters_eq_some_iff.1 (Except.ok.inj h)
    exact hne

/-- A token that was read is the one that its text denotes. -/
theorem denotes_of_scan {mode : Mode} {p : Pattern} {cs : List Char} {lexeme : Lexeme}
    (hp : ∃ r ∈ mode.rules, r.pattern = p)
    (hbefore : ∀ r ∈ mode.before p, r.pattern.scan cs = .ok none)
    (hscan : p.scan cs = .ok (some lexeme)) (hcomment : mode ≠ .string → ¬ ['/', '/'] <+: cs) :
    Denotes lexeme.token lexeme.text := by
  cases p with
  | symbol s =>
    obtain ⟨rest, -, rfl⟩ := scanSymbol_eq_some_iff.1 (Except.ok.inj hscan)
    exact .written (.symbol s)
  | input =>
    obtain ⟨text, rest, -, -, -, rfl⟩ := scanInput_eq_some_iff.1 (Except.ok.inj hscan)
    simpa using Denotes.written (.input (String.ofList text))
  | quotedSegment =>
    obtain ⟨body, rest, -, hbody, rfl⟩ := scanQuotedSegment_eq_ok_iff.1 hscan
    have hquoted := Spells.quoted (s := String.ofList body) (by simpa using hbody)
    simpa using Denotes.written hquoted
  | segment =>
    obtain ⟨htoken, hbare⟩ := bare_of_scan hp hbefore (Except.ok.inj hscan) hcomment
    have hspells := Spells.bare (s := String.ofList lexeme.text) (by simpa using hbare)
    simpa [htoken] using Denotes.written hspells
  | float =>
    obtain ⟨sign, whole, fraction, exponent, rest, -, hs, hw, hf, -, he, -, rfl⟩ :=
      scanFloat_eq_ok_iff.1 hscan
    have hexponent : IsExponent exponent := he ▸ (exponentOf_spec _).1
    exact .written (.float hs hw hf hexponent rfl)
  | hexInteger =>
    obtain ⟨digits, rest, -, hne, hdigits, -, hrange, rfl⟩ := scanHexInteger_eq_ok_iff.1 hscan
    exact .hexadecimal hne hdigits hrange
  | integer =>
    obtain ⟨sign, digits, rest, -, hs, hd, -, hrange, rfl⟩ := scanInteger_eq_ok_iff.1 hscan
    exact .written (.integer hs hd (Int32.toInt_ofInt_of_le hrange.1 hrange.2).symm)
  | escape =>
    obtain ⟨digits, c, rest, -, hlen, hc, rfl⟩ | ⟨c, e, rest, -, he, rfl⟩ :=
      scanEscape_eq_ok_iff.1 hscan
    · exact .written (.codePoint hlen hc)
    · exact .written (.escape he)
  | characters =>
    obtain ⟨text, rest, -, -, -, -, rfl⟩ := scanCharacters_eq_some_iff.1 (Except.ok.inj hscan)
    simpa using Denotes.written (.characters (String.ofList text))

/-- A step that reads a token takes its text from the start of what is ahead. -/
theorem next_eq_some_iff {l l' : Lexer} {lexeme : Lexeme} :
    l.next = (.ok (some lexeme), l') ↔
      ∃ mode outer move, l.modes = mode :: outer ∧
        firstMatch mode.rules l.ahead = .ok (some (lexeme, move)) ∧ lexeme.text ≠ [] ∧
        l.ahead = lexeme.text ++ l'.rest ∧ l'.modes = move.apply l.modes := by
  constructor
  · intro h
    unfold next at h
    split at h
    · cases h
    · cases h
    rename_i move hread
    cases h
    obtain ⟨mode, outer, hmodes, hfirst⟩ := read_eq_ok_some hread
    obtain ⟨p, -, -, hscan⟩ := pattern_of_firstMatch hfirst
    refine ⟨mode, outer, move, hmodes, hfirst, (read_nonempty hread).2, ?_, rfl⟩
    exact (List.prefix_iff_eq_append.1 (prefix_of_scan hscan)).symm
  · rintro ⟨mode, outer, move, hmodes, hfirst, hne, hahead, hmodes'⟩
    have hcons : ∃ c cs, l.ahead = c :: cs := by
      rw [hahead]
      exact List.exists_cons_of_ne_nil (List.append_ne_nil_of_left_ne_nil hne _)
    obtain ⟨c, cs, hcs⟩ := hcons
    have hread : read l.modes l.ahead = .ok (some (lexeme, move)) := by
      rw [hcs] at hfirst
      simp [hmodes, hcs, read, hfirst, hne]
    have hdrop : l.ahead.drop lexeme.text.length = l'.rest := by rw [hahead, List.drop_left]
    simp only [next, hread, hdrop, ← hmodes']

theorem read_eq_ok_none {modes : List Mode} {cs : List Char} (h : read modes cs = .ok none) :
    cs = [] := by
  fun_cases read modes cs <;> simp_all [read]

/-- A step that finds no token has come to the end of the text. -/
theorem ahead_of_next_none {l l' : Lexer} (h : l.next = (.ok none, l')) : l.ahead = [] := by
  unfold next at h
  split at h
  · cases h
  · rename_i hread
    exact read_eq_ok_none hread
  · cases h

/-- A step that fails has come to a text with no token. -/
theorem read_of_next_error {l l' : Lexer} {e : LexError} (h : l.next = (.error e, l')) :
    read l.modes l.ahead = .error e := by
  unfold next at h
  split at h
  · rename_i hread
    cases h
    exact hread
  · cases h
  · cases h

/-- The token that a step reads is the one that its text denotes. -/
theorem denotes_of_next {l l' : Lexer} {lexeme : Lexeme} (h : l.next = (.ok (some lexeme), l')) :
    Denotes lexeme.token lexeme.text := by
  obtain ⟨mode, outer, move, hmodes, hfirst, -⟩ := next_eq_some_iff.1 h
  obtain ⟨p, hp, hbefore, hscan⟩ := pattern_of_firstMatch hfirst
  exact denotes_of_scan hp hbefore hscan (ahead_not_comment hmodes)

/-- A string goes on until its quote. -/
theorem inString_of_next {l l' : Lexer} {lexeme : Lexeme} (h : l.next = (.ok (some lexeme), l'))
    (hs : InString l.modes) (hquote : lexeme.token ≠ .symbol .quote) : InString l'.modes := by
  obtain ⟨mode, outer, move, hmodes, hmove, hmodes'⟩ := next_moveOn h
  obtain rfl : mode = .string := by simpa [InString, hmodes] using hs
  have hstay : move = .stay := by
    cases ht : lexeme.token with
    | symbol s =>
      rw [ht] at hmove hquote
      cases s with
      | quote => exact absurd rfl hquote
      | _ => cases hmove
    | segment _ | float _ | integer _ => rw [ht] at hmove; cases hmove
    | escape _ | characters _ | input _ => rw [ht] at hmove; cases hmove; rfl
  rw [hmodes', hstay]
  exact hs

end Lexer

end ConfigLang
