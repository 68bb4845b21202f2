import ConfigLang.Lexer.Scan
import Mathlib.Data.List.TakeWhile

/-!
# What the patterns read

For every pattern, the texts that it reads a token from: the text of the token, of a shape that is
stated for each class of tokens, and a rest that does not go on with it. There is one equivalence a
pattern: one direction serves those who know what was read, the other those who know what was
written.
-/

namespace ConfigLang.Lexer

/-! ## Runs of characters -/

/-- A text that does not start with a character of the class `p`. -/
def Stops (p : Char → Bool) (rest : List Char) : Prop := ∀ c ∈ rest.head?, p c = false

theorem stops_cons {p : Char → Bool} {c : Char} {cs : List Char} :
    Stops p (c :: cs) ↔ p c = false := by
  simp [Stops]

theorem stops_nil {p : Char → Bool} : Stops p [] := fun _ hc => absurd hc (Option.not_mem_none _)

theorem stops_dropWhile (p : Char → Bool) (cs : List Char) : Stops p (cs.dropWhile p) := by
  intro c hc
  have h := List.head?_dropWhile_not p cs
  rw [Option.mem_def.1 hc] at h
  simpa using h

theorem takeWhile_append_of_stops {p : Char → Bool} {run rest : List Char}
    (hrun : ∀ c ∈ run, p c) (hrest : Stops p rest) : (run ++ rest).takeWhile p = run := by
  rw [List.takeWhile_append_of_pos hrun]
  cases rest with
  | nil => simp
  | cons c rest => simp [stops_cons.1 hrest]

theorem dropWhile_append_of_stops {p : Char → Bool} {run rest : List Char}
    (hrun : ∀ c ∈ run, p c) (hrest : Stops p rest) : (run ++ rest).dropWhile p = rest := by
  rw [List.dropWhile_append_of_pos hrun]
  cases rest with
  | nil => rfl
  | cons c rest => simp [stops_cons.1 hrest]

/-- A run is the longest one exactly where the rest stops it. -/
theorem takeWhile_eq_iff {p : Char → Bool} {cs run : List Char} :
    cs.takeWhile p = run ↔ ∃ rest, cs = run ++ rest ∧ (∀ c ∈ run, p c) ∧ Stops p rest := by
  constructor
  · rintro rfl
    exact ⟨cs.dropWhile p, List.takeWhile_append_dropWhile.symm,
      fun c hc => List.mem_takeWhile_imp hc, stops_dropWhile p cs⟩
  · rintro ⟨rest, rfl, hrun, hrest⟩
    exact takeWhile_append_of_stops hrun hrest

/-- A token made of the longest run of a class of characters. -/
theorem run_eq_some_iff {p : Char → Bool} {token : List Char → Token} {cs : List Char}
    {lexeme : Lexeme} :
    (match cs.takeWhile p with
      | [] => none
      | text => some ⟨token text, text⟩) = some lexeme ↔
      ∃ text rest, cs = text ++ rest ∧ text ≠ [] ∧ (∀ c ∈ text, p c) ∧ Stops p rest ∧
        lexeme = ⟨token text, text⟩ := by
  constructor
  · intro h
    generalize hr : cs.takeWhile p = run at h
    obtain ⟨rest, rfl, hrun, hrest⟩ := takeWhile_eq_iff.1 hr
    cases run with
    | nil => cases h
    | cons c run => exact ⟨c :: run, rest, rfl, by simp, hrun, hrest, (Option.some.inj h).symm⟩
  · rintro ⟨text, rest, rfl, hne, hrun, hrest, rfl⟩
    rw [takeWhile_append_of_stops hrun hrest]
    cases text with
    | nil => exact absurd rfl hne
    | cons c text => rfl

/-! ## Symbols, names and runs -/

theorem text_ne_nil (s : Symbol) : s.text.toList ≠ [] := by
  cases s <;> decide

theorem scanSymbol_eq_some_iff {s : Symbol} {cs : List Char} {lexeme : Lexeme} :
    scanSymbol s cs = some lexeme ↔
      ∃ rest, cs = s.text.toList ++ rest ∧ lexeme = ⟨.symbol s, s.text.toList⟩ := by
  simp only [scanSymbol, Option.ite_none_right_eq_some, Option.some.injEq,
    List.isPrefixOf_iff_prefix]
  constructor
  · rintro ⟨⟨rest, rfl⟩, rfl⟩
    exact ⟨rest, rfl, rfl⟩
  · rintro ⟨rest, rfl, rfl⟩
    exact ⟨List.prefix_append _ _, rfl⟩

/-- A dollar sign, a letter or underscore, and name characters. -/
def IsName : List Char → Prop
  | '$' :: c :: cs => isNameStart c ∧ ∀ x ∈ cs, isNameChar x
  | _ => False

theorem isName_iff {cs : List Char} :
    IsName cs ↔ ∃ c run, cs = '$' :: c :: run ∧ isNameStart c ∧ ∀ x ∈ run, isNameChar x := by
  constructor
  · intro h
    unfold IsName at h
    split at h
    · exact ⟨_, _, rfl, h⟩
    · exact h.elim
  · rintro ⟨c, run, rfl, h⟩
    exact h

theorem scanInput_eq_some_iff {cs : List Char} {lexeme : Lexeme} :
    scanInput cs = some lexeme ↔
      ∃ text rest, cs = text ++ rest ∧ IsName text ∧ Stops isNameChar rest ∧
        lexeme = ⟨.input (String.ofList text), text⟩ := by
  constructor
  · intro h
    unfold scanInput at h
    split at h
    · rename_i c cs
      generalize hr : cs.takeWhile isNameChar = run at h
      obtain ⟨rest, rfl, hrun, hrest⟩ := takeWhile_eq_iff.1 hr
      obtain ⟨hc, h⟩ := Option.ite_none_right_eq_some.1 h
      exact ⟨'$' :: c :: run, rest, rfl, ⟨hc, hrun⟩, hrest, (Option.some.inj h).symm⟩
    · cases h
  · rintro ⟨text, rest, rfl, hname, hrest, rfl⟩
    obtain ⟨c, run, rfl, hc, hrun⟩ := isName_iff.1 hname
    simp only [List.cons_append, scanInput, takeWhile_append_of_stops hrun hrest, hc, if_true]

theorem scanSegment_eq_some_iff {cs : List Char} {lexeme : Lexeme} :
    scanSegment cs = some lexeme ↔
      ∃ text rest, cs = text ++ rest ∧ text ≠ [] ∧ (∀ c ∈ text, isSegmentChar c) ∧
        Stops isSegmentChar rest ∧ lexeme = ⟨.segment (String.ofList text), text⟩ :=
  run_eq_some_iff

theorem scanCharacters_eq_some_iff {cs : List Char} {lexeme : Lexeme} :
    scanCharacters cs = some lexeme ↔
      ∃ text rest, cs = text ++ rest ∧ text ≠ [] ∧ (∀ c ∈ text, isPlainChar c) ∧
        Stops isPlainChar rest ∧ lexeme = ⟨.characters (String.ofList text), text⟩ :=
  run_eq_some_iff

theorem scanQuotedSegment_eq_ok_iff {cs : List Char} {lexeme : Lexeme} :
    scanQuotedSegment cs = .ok (some lexeme) ↔
      ∃ body rest, cs = '\'' :: body ++ '\'' :: rest ∧ '\'' ∉ body ∧
        lexeme = ⟨.segment (String.ofList body), '\'' :: body ++ ['\'']⟩ := by
  constructor
  · intro h
    unfold scanQuotedSegment at h
    split at h
    · rename_i cs
      generalize hr : cs.takeWhile (· ≠ '\'') = body at h
      obtain ⟨rest, rfl, hrun, hrest⟩ := takeWhile_eq_iff.1 hr
      -- Only a quote stops the body, so a rest starts with one.
      cases rest with
      | nil => simp at h
      | cons c rest =>
        obtain rfl : c = '\'' := by simpa using stops_cons.1 hrest
        refine ⟨body, rest, rfl, ?_, ?_⟩
        · intro hmem
          simpa using hrun _ hmem
        · simpa using h.symm
    · cases h
  · rintro ⟨body, rest, rfl, hbody, rfl⟩
    have hrun : ∀ c ∈ body, decide (c ≠ '\'') = true := by
      intro c hc
      have hne : c ≠ '\'' := fun he => hbody (he ▸ hc)
      simpa using hne
    have hrest : Stops (fun c => decide (c ≠ '\'')) ('\'' :: rest) := by simp [stops_cons]
    simp only [List.cons_append, scanQuotedSegment, takeWhile_append_of_stops hrun hrest]
    simp

/-! ## Numbers -/

/-- One decimal digit or more. -/
def IsDigits (cs : List Char) : Prop := cs ≠ [] ∧ ∀ c ∈ cs, c.isDigit

theorem IsDigits.head_ne {d c : Char} {cs : List Char} (h : IsDigits (d :: cs))
    (hc : c.isDigit = false) : d ≠ c := by
  rintro rfl
  rw [h.2 d List.mem_cons_self] at hc
  cases hc

/-- A minus sign or nothing. -/
def IsSign (cs : List Char) : Prop := cs = [] ∨ cs = ['-']

/-- An exponent with at least one digit, or nothing. -/
def IsExponent (cs : List Char) : Prop :=
  cs = [] ∨ ∃ e sign digits, (e = 'e' ∨ e = 'E') ∧ (IsSign sign ∨ sign = ['+']) ∧
    IsDigits digits ∧ cs = e :: sign ++ digits

theorem signOf_spec (cs : List Char) : IsSign (signOf cs) ∧ ∃ rest, cs = signOf cs ++ rest := by
  fun_cases signOf cs with
  | case1 rest => exact ⟨.inr rfl, rest, rfl⟩
  | case2 => exact ⟨.inl rfl, cs, rfl⟩

theorem signOf_append {sign digits rest : List Char} (hs : IsSign sign) (hd : IsDigits digits) :
    signOf (sign ++ (digits ++ rest)) = sign := by
  rcases hs with rfl | rfl
  · cases digits with
    | nil => exact absurd rfl hd.1
    | cons d digits =>
      have hne : d ≠ '-' := hd.head_ne (by decide)
      simp [signOf, hne]
  · rfl

/-- Digits behind a sign are read as a whole, and refused if they denote too large a number. -/
theorem scanInteger_append {sign digits rest : List Char} (hs : IsSign sign) (hd : IsDigits digits)
    (hrest : Stops Char.isDigit rest) :
    scanInteger (sign ++ (digits ++ rest)) =
      if -0x80000000 ≤ integerValue sign digits ∧ integerValue sign digits < 0x80000000 then
        .ok (some ⟨.integer (Int32.ofInt (integerValue sign digits)), sign ++ digits⟩)
      else .error (.invalidLiteral (String.ofList (sign ++ digits)) .integerRange) := by
  have hne : digits.isEmpty = false := by simpa using hd.1
  unfold scanInteger
  rw [signOf_append hs hd]
  dsimp only
  rw [List.drop_left, takeWhile_append_of_stops hd.2 hrest, hne]
  rfl

theorem scanInteger_eq_ok_iff {cs : List Char} {lexeme : Lexeme} :
    scanInteger cs = .ok (some lexeme) ↔
      ∃ sign digits rest, cs = sign ++ (digits ++ rest) ∧ IsSign sign ∧ IsDigits digits ∧
        Stops Char.isDigit rest ∧
        (-0x80000000 ≤ integerValue sign digits ∧ integerValue sign digits < 0x80000000) ∧
        lexeme = ⟨.integer (Int32.ofInt (integerValue sign digits)), sign ++ digits⟩ := by
  constructor
  · intro h
    obtain ⟨hs, cs', hcs⟩ := signOf_spec cs
    unfold scanInteger at h
    generalize signOf cs = sign at h hs hcs
    subst hcs
    dsimp only at h
    rw [List.drop_left] at h
    generalize hr : cs'.takeWhile Char.isDigit = digits at h
    obtain ⟨rest, rfl, hrun, hrest⟩ := takeWhile_eq_iff.1 hr
    cases digits with
    | nil => cases h
    | cons d digits =>
      simp only [List.isEmpty_cons, Bool.false_eq_true, if_false] at h
      split at h
      · rename_i hrange
        exact ⟨sign, d :: digits, rest, rfl, hs, ⟨by simp, hrun⟩, hrest, hrange,
          (Option.some.inj (Except.ok.inj h)).symm⟩
      · cases h
  · rintro ⟨sign, digits, rest, rfl, hs, hd, hrest, hrange, rfl⟩
    rw [scanInteger_append hs hd hrest, if_pos hrange]

/-- Hexadecimal digits are read as a whole, and refused if there are none or if they denote too
large a number. -/
theorem scanHexInteger_append {digits rest : List Char} (hdigits : ∀ c ∈ digits, Text.isHexDigit c)
    (hrest : Stops Text.isHexDigit rest) :
    scanHexInteger ('0' :: 'x' :: digits ++ rest) =
      if digits = [] then
        .error (.invalidLiteral (String.ofList ('0' :: 'x' :: digits)) .missingHexDigits)
      else if Text.ofHexDigits digits 0 < 0x100000000 then
        .ok (some ⟨.integer (Int32.ofNat (Text.ofHexDigits digits 0)), '0' :: 'x' :: digits⟩)
      else .error (.invalidLiteral (String.ofList ('0' :: 'x' :: digits)) .hexRange) := by
  simp only [List.cons_append, scanHexInteger, takeWhile_append_of_stops hdigits hrest,
    List.isEmpty_iff]

theorem scanHexInteger_eq_ok_iff {cs : List Char} {lexeme : Lexeme} :
    scanHexInteger cs = .ok (some lexeme) ↔
      ∃ digits rest, cs = '0' :: 'x' :: digits ++ rest ∧ digits ≠ [] ∧
        (∀ c ∈ digits, Text.isHexDigit c) ∧ Stops Text.isHexDigit rest ∧
        Text.ofHexDigits digits 0 < 0x100000000 ∧
        lexeme = ⟨.integer (Int32.ofNat (Text.ofHexDigits digits 0)), '0' :: 'x' :: digits⟩ := by
  constructor
  · intro h
    unfold scanHexInteger at h
    split at h
    · rename_i cs
      generalize hr : cs.takeWhile Text.isHexDigit = digits at h
      obtain ⟨rest, rfl, hrun, hrest⟩ := takeWhile_eq_iff.1 hr
      cases digits with
      | nil => cases h
      | cons d digits =>
        simp only [List.isEmpty_cons, Bool.false_eq_true, if_false] at h
        split at h
        · rename_i hrange
          exact ⟨d :: digits, rest, rfl, by simp, hrun, hrest, hrange,
            (Option.some.inj (Except.ok.inj h)).symm⟩
        · cases h
    · cases h
  · rintro ⟨digits, rest, rfl, hne, hrun, hrest, hrange, rfl⟩
    rw [scanHexInteger_append hrun hrest, if_neg hne, if_pos hrange]

theorem exponentSign_spec (cs : List Char) :
    (IsSign (exponentSign cs) ∨ exponentSign cs = ['+']) ∧
      ∃ rest, cs = exponentSign cs ++ rest := by
  fun_cases exponentSign cs with
  | case1 rest => exact ⟨.inr rfl, rest, rfl⟩
  | case2 =>
    obtain ⟨hs, hrest⟩ := signOf_spec cs
    exact ⟨.inl hs, hrest⟩

theorem exponentOf_spec (cs : List Char) :
    IsExponent (exponentOf cs) ∧ ∃ rest, cs = exponentOf cs ++ rest := by
  unfold exponentOf
  split
  · rename_i e cs
    split
    · rename_i he
      obtain ⟨hs, cs', hcs⟩ := exponentSign_spec cs
      dsimp only
      generalize exponentSign cs = sign at hs hcs
      subst hcs
      rw [List.drop_left]
      generalize hr : cs'.takeWhile Char.isDigit = digits
      obtain ⟨rest, rfl, hrun, -⟩ := takeWhile_eq_iff.1 hr
      cases digits with
      | nil => exact ⟨.inl rfl, _, rfl⟩
      | cons d digits =>
        exact ⟨.inr ⟨e, sign, d :: digits, he, hs, ⟨by simp, hrun⟩, rfl⟩, rest, by simp⟩
    · exact ⟨.inl rfl, _, rfl⟩
  · exact ⟨.inl rfl, _, rfl⟩

theorem exponentOf_digits {e d : Char} {sign : List Char} (he : e = 'e' ∨ e = 'E')
    (hs : IsSign sign ∨ sign = ['+']) (hd : d.isDigit) (digits rest : List Char) :
    exponentOf (e :: sign ++ d :: digits ++ rest) =
      e :: sign ++ d :: (digits ++ rest).takeWhile Char.isDigit := by
  have hdigits : IsDigits [d] := ⟨by simp, by simpa using hd⟩
  have hplus : d ≠ '+' := hdigits.head_ne (by decide)
  have hminus : d ≠ '-' := hdigits.head_ne (by decide)
  rcases hs with (rfl | rfl) | rfl
  · simp [exponentOf, exponentSign, signOf, he, hplus, hminus, hd]
  · simp [exponentOf, exponentSign, signOf, he, hd]
  · simp [exponentOf, exponentSign, he, hd]

/-- An exponent is read as a whole exactly where no digit goes on with it. -/
theorem exponentOf_append_iff {exponent rest : List Char} (he : IsExponent exponent)
    (hne : exponent ≠ []) :
    exponentOf (exponent ++ rest) = exponent ↔ Stops Char.isDigit rest := by
  rcases he with rfl | ⟨e, sign, digits, he, hs, hd, rfl⟩
  · exact absurd rfl hne
  cases digits with
  | nil => exact absurd rfl hd.1
  | cons d digits =>
    obtain ⟨hd, hdigits⟩ := List.forall_mem_cons.1 hd.2
    rw [exponentOf_digits he hs hd, List.append_cancel_left_eq, List.cons.injEq, takeWhile_eq_iff]
    constructor
    · rintro ⟨-, rest', hrest, -, hstop⟩
      rwa [List.append_cancel_left hrest]
    · exact fun hstop => ⟨rfl, rest, rfl, hdigits, hstop⟩

/-- Digits, a point and digits are read with the exponent behind them, and refused if they denote
too large a number. -/
theorem scanFloat_append {sign whole fraction exponent rest : List Char} (hs : IsSign sign)
    (hw : IsDigits whole) (hf : IsDigits fraction) (hstop : Stops Char.isDigit (exponent ++ rest))
    (he : exponentOf (exponent ++ rest) = exponent) :
    scanFloat (sign ++ (whole ++ '.' :: (fraction ++ (exponent ++ rest)))) =
      if (floatValue (!sign.isEmpty) whole fraction exponent).isFinite then
        .ok (some ⟨.float (floatValue (!sign.isEmpty) whole fraction exponent),
          sign ++ whole ++ '.' :: fraction ++ exponent⟩)
      else .error (.invalidLiteral (String.ofList (sign ++ whole ++ '.' :: fraction ++ exponent))
        .floatRange) := by
  have hw' : whole.isEmpty = false := by simpa using hw.1
  have hf' : fraction.isEmpty = false := by simpa using hf.1
  have hdot : Stops Char.isDigit ('.' :: (fraction ++ (exponent ++ rest))) :=
    stops_cons.2 (by decide)
  unfold scanFloat
  rw [signOf_append hs hw]
  dsimp only
  rw [List.drop_left, takeWhile_append_of_stops hw.2 hdot, hw', ← List.append_assoc,
    List.drop_left]
  simp only [Bool.false_eq_true, if_false, takeWhile_append_of_stops hf.2 hstop, hf',
    List.drop_left, he]

/-- Digits and a point without digits behind it are refused, unless another point follows. -/
theorem scanFloat_append_point {sign whole rest : List Char} (hs : IsSign sign)
    (hw : IsDigits whole) (hrest : ∀ c ∈ rest.head?, c.isDigit = false ∧ c ≠ '.') :
    scanFloat (sign ++ (whole ++ '.' :: rest)) =
      .error (.invalidLiteral (String.ofList (sign ++ whole ++ ['.'])) .missingFraction) := by
  have hw' : whole.isEmpty = false := by simpa using hw.1
  have hdot : Stops Char.isDigit ('.' :: rest) := stops_cons.2 (by decide)
  have hfraction : rest.takeWhile Char.isDigit = [] :=
    takeWhile_eq_iff.2 ⟨rest, rfl, by simp, fun c hc => (hrest c hc).1⟩
  have hspread : rest.head? ≠ some '.' := fun hc => (hrest '.' hc).2 rfl
  unfold scanFloat
  rw [signOf_append hs hw]
  dsimp only
  rw [List.drop_left, takeWhile_append_of_stops hw.2 hdot, hw', ← List.append_assoc,
    List.drop_left]
  simp only [Bool.false_eq_true, if_false, hfraction, List.isEmpty_nil, if_true, hspread]

theorem scanFloat_eq_ok_iff {cs : List Char} {lexeme : Lexeme} :
    scanFloat cs = .ok (some lexeme) ↔
      ∃ sign whole fraction exponent rest,
        cs = sign ++ (whole ++ '.' :: (fraction ++ (exponent ++ rest))) ∧ IsSign sign ∧
        IsDigits whole ∧ IsDigits fraction ∧ Stops Char.isDigit (exponent ++ rest) ∧
        exponentOf (exponent ++ rest) = exponent ∧
        (floatValue (!sign.isEmpty) whole fraction exponent).isFinite ∧
        lexeme = ⟨.float (floatValue (!sign.isEmpty) whole fraction exponent),
          sign ++ whole ++ '.' :: fraction ++ exponent⟩ := by
  constructor
  · intro h
    obtain ⟨hs, cs', hcs⟩ := signOf_spec cs
    unfold scanFloat at h
    generalize signOf cs = sign at h hs hcs
    subst hcs
    dsimp only at h
    rw [List.drop_left] at h
    generalize hr : cs'.takeWhile Char.isDigit = whole at h
    obtain ⟨cs'', rfl, hwhole, -⟩ := takeWhile_eq_iff.1 hr
    rw [← List.append_assoc, List.drop_left] at h
    cases whole with
    | nil => cases h
    | cons d whole =>
      simp only [List.isEmpty_cons, Bool.false_eq_true, if_false] at h
      split at h
      · rename_i cs''
        generalize hf : cs''.takeWhile Char.isDigit = fraction at h
        obtain ⟨tail, rfl, hfraction, hstop⟩ := takeWhile_eq_iff.1 hf
        cases fraction with
        | nil =>
          simp only [List.isEmpty_nil, if_true] at h
          split at h <;> cases h
        | cons f fraction =>
          simp only [List.isEmpty_cons, Bool.false_eq_true, if_false, List.drop_left] at h
          obtain ⟨-, rest, htail⟩ := exponentOf_spec tail
          generalize he : exponentOf tail = exponent at h htail
          subst htail
          split at h
          · rename_i hfinite
            exact ⟨sign, d :: whole, f :: fraction, exponent, rest, by simp, hs,
              ⟨by simp, hwhole⟩, ⟨by simp, hfraction⟩, hstop, he, hfinite,
              (Option.some.inj (Except.ok.inj h)).symm⟩
          · cases h
      · cases h
  · rintro ⟨sign, whole, fraction, exponent, rest, rfl, hs, hw, hf, hstop, he, hfinite, rfl⟩
    rw [scanFloat_append hs hw hf hstop he, if_pos hfinite]

/-! ## Escapes -/

theorem scanEscape_eq_ok_iff {cs : List Char} {lexeme : Lexeme} :
    scanEscape cs = .ok (some lexeme) ↔
      (∃ digits c rest, cs = '\\' :: 'u' :: digits ++ rest ∧ digits.length = 4 ∧
        namedChar? digits = some c ∧ lexeme = ⟨.escape c, '\\' :: 'u' :: digits⟩) ∨
      ∃ c e rest, cs = '\\' :: c :: rest ∧ simpleEscape? c = some e ∧
        lexeme = ⟨.escape e, ['\\', c]⟩ := by
  have hnamed (cs : List Char) : namedChar? (cs.take 4) = namedChar? cs := by
    simp only [namedChar?, List.take_take, Nat.min_self]
  constructor
  · intro h
    unfold scanEscape at h
    split at h
    · rename_i cs
      dsimp only at h
      split at h
      · rename_i c hc
        have hlen : (cs.take 4).length = 4 := by
          unfold namedChar? at hc
          by_contra hlen
          simp only [hlen, false_and, if_false, reduceCtorEq] at hc
        exact .inl ⟨cs.take 4, c, cs.drop 4, by simp, hlen, by rw [hnamed, hc],
          (Option.some.inj (Except.ok.inj h)).symm⟩
      · cases h
    · rename_i c rest _
      split at h
      · rename_i e he
        exact .inr ⟨c, e, rest, rfl, he, (Option.some.inj (Except.ok.inj h)).symm⟩
      · cases h
    · cases h
    · cases h
  · rintro (⟨digits, c, rest, rfl, hlen, hc, rfl⟩ | ⟨c, e, rest, rfl, he, rfl⟩)
    · have htake : (digits ++ rest).take 4 = digits := by rw [← hlen, List.take_left]
      have hc' : namedChar? (digits ++ rest) = some c := by rw [← hnamed, htake, hc]
      simp [scanEscape, hc', htake]
    · have hu : c ≠ 'u' := by
        rintro rfl
        cases he
      simp only [scanEscape, he]

end ConfigLang.Lexer
