import ConfigLang.Lexer.BytePatterns
import ConfigLang.Proofs.Lexer.NumberLiterals

/-!
# Patterns by bytes read what patterns read

The patterns that take texts apart by bytes read what they read by characters, so none of their cuts
is without a result.

* `upTo_eq`, `behind_eq`, `measured`: cuts that have a result, and what a pattern should read.
* `tryMatch_eq`: no pattern cuts a text inside a character, and the length that it returns is that
  of the text that it reads.
* `prefix_of_tryMatch`: what follows for every token that is read.
-/

namespace ConfigLang.Lexer

open String (utf8Len utf8Len_nil utf8Len_cons utf8Len_append utf8Len_eq_zero)

/-! ## Cuts that have a result -/

section
variable {n : Nat} {cs front back : List Char} (hcs : cs = front ++ back) (hn : n = utf8Len front)
include hcs hn

theorem upTo_eq : upTo n cs = pure front := by
  rw [upTo, splitBytes_eq_some_iff.2 ⟨hcs, hn.symm⟩]
  rfl

theorem behind_eq : behind n cs = pure back := by
  rw [behind, splitBytes_eq_some_iff.2 ⟨hcs, hn.symm⟩]
  rfl

end

/-! ## Lengths -/

theorem signLength_eq (cs : List Char) : signLength cs = utf8Len (signOf cs) := by
  unfold signLength
  cases cs with
  | nil => rfl
  | cons c cs =>
    by_cases hc : c = '-'
    · subst hc
      rfl
    · simp [signOf_of_ne hc, hc]

/-- What a pattern reads by characters, with its length in bytes. -/
def measured : Except LexError (Option Lexeme) → Slicing (Option (Token × Nat))
  | .ok (some lexeme) => return some (lexeme.token, utf8Len lexeme.text)
  | .ok none => return none
  | .error e => throw e

/-! ## Agreement -/

theorem matchSymbol_eq (s : Symbol) (cs : List Char) :
    matchSymbol s cs = measured (.ok (scanSymbol s cs)) := by
  unfold matchSymbol scanSymbol
  split
  · rw [← String.utf8Len_toList]
    rfl
  · rfl

theorem matchInput_eq (cs : List Char) : matchInput cs = measured (.ok (scanInput cs)) := by
  cases cs with
  | nil => rfl
  | cons d rest =>
    by_cases hd : d = '$'
    · subst hd
      cases rest with
      | nil => rfl
      | cons c cs =>
        rw [matchInput, List.head?_cons, scanInput]
        dsimp only
        split
        · rename_i hc
          have htext : '$' :: c :: cs =
              '$' :: c :: cs.takeWhile isNameChar ++ cs.dropWhile isNameChar := by
            rw [List.cons_append, List.cons_append, List.takeWhile_append_dropWhile]
          have hlen : 1 + leading isNameChar (c :: cs) =
              utf8Len ('$' :: c :: cs.takeWhile isNameChar) := by
            rw [leading_eq, List.takeWhile_cons_of_pos (isNameChar_of_isNameStart hc), utf8Len_cons,
              Nat.add_comm]
            rfl
          rw [upTo_eq htext hlen, hlen]
          rfl
        · rfl
    · simp [matchInput, scanInput, hd, measured]

theorem matchQuotedSegment_eq (cs : List Char) :
    matchQuotedSegment cs = measured (scanQuotedSegment cs) := by
  cases cs with
  | nil => rfl
  | cons d rest =>
    by_cases hd : d = '\''
    · subst hd
      have hbody : (rest.takeWhile fun c => !(c == '\'')) = rest.takeWhile (· ≠ '\'') := by
        congr 1
        funext c
        exact decide_not.symm
      have hrest : rest = rest.takeWhile (· ≠ '\'') ++ rest.dropWhile (· ≠ '\'') :=
        List.takeWhile_append_dropWhile.symm
      rw [matchQuotedSegment, findByte_eq, hbody, scanQuotedSegment]
      generalize rest.takeWhile (· ≠ '\'') = body at hrest
      by_cases hclosed : body.length < rest.length
      · have hlen : utf8Len body + 2 = utf8Len ('\'' :: body ++ ['\'']) := by
          rw [utf8Len_append, utf8Len_cons]
          rfl
        rw [if_pos hclosed]
        dsimp only
        rw [if_pos hclosed, upTo_eq hrest rfl, hlen]
        rfl
      · rw [if_neg hclosed]
        dsimp only
        rw [if_neg hclosed]
        rfl
    · simp [matchQuotedSegment, scanQuotedSegment, hd, measured]

theorem matchRun_eq (p : Char → Bool) (token : String → Token) (cs : List Char) :
    matchRun p token cs = measured (.ok (match cs.takeWhile p with
      | [] => none
      | text => some ⟨token (String.ofList text), text⟩)) := by
  unfold matchRun
  have htext : cs = cs.takeWhile p ++ cs.dropWhile p := List.takeWhile_append_dropWhile.symm
  rw [leading_eq]
  dsimp only
  rw [upTo_eq htext rfl]
  cases cs.takeWhile p with
  | nil => rfl
  | cons c run =>
    have hpos := c.utf8Size_pos
    rw [if_pos (by rw [utf8Len_cons]; omega)]
    rfl

/-! ### Numbers -/

theorem exponentSignLength_eq (cs : List Char) :
    (if cs.head? = some '+' ∨ cs.head? = some '-' then 1 else 0) = utf8Len (exponentSign cs) := by
  cases cs with
  | nil => rfl
  | cons c cs =>
    by_cases hplus : c = '+'
    · subst hplus
      rfl
    · have hlen := signLength_eq (c :: cs)
      simp only [signLength, List.head?_cons, Option.some.injEq] at hlen
      simp [exponentSign, hplus, ← hlen]

theorem exponentLength_eq (cs : List Char) :
    exponentLength cs = pure (utf8Len (exponentOf cs)) := by
  cases cs with
  | nil => rfl
  | cons e cs =>
    rw [exponentLength, exponentOf]
    split
    · rename_i he
      obtain ⟨-, rest, hcs⟩ := exponentSign_spec cs
      have hletter : e.utf8Size = 1 := by rcases he with rfl | rfl <;> rfl
      dsimp only
      rw [exponentSignLength_eq, behind_eq hcs rfl, pure_bind, leading_eq]
      generalize exponentSign cs = sign at hcs
      rw [hcs, List.drop_left]
      generalize rest.takeWhile Char.isDigit = digits
      cases digits with
      | nil => rfl
      | cons d digits =>
        have hpos := d.utf8Size_pos
        have hlen : 1 + utf8Len sign + utf8Len (d :: digits) =
            utf8Len (e :: sign ++ d :: digits) := by
          rw [utf8Len_append, utf8Len_cons e, hletter, Nat.add_comm 1]
        rw [if_pos (by rw [utf8Len_cons]; omega), hlen]
    · rfl

/-- A text starts with no digits behind its sign, or with a run of them that cannot be longer. -/
theorem number_cases (cs : List Char) :
    (cs.drop (signOf cs).length).takeWhile Char.isDigit = [] ∨
      ∃ sign digits rest, cs = sign ++ (digits ++ rest) ∧ IsSign sign ∧ IsDigits digits ∧
        Stops Char.isDigit rest := by
  obtain ⟨hs, rest, hcs⟩ := signOf_spec cs
  generalize signOf cs = sign at hs hcs
  subst hcs
  rw [List.drop_left]
  cases hr : rest.takeWhile Char.isDigit with
  | nil => exact .inl rfl
  | cons d digits =>
    obtain ⟨rest, rfl, hrun, hstop⟩ := takeWhile_eq_iff.1 hr
    exact .inr ⟨sign, d :: digits, rest, rfl, hs, ⟨List.cons_ne_nil d digits, hrun⟩, hstop⟩

theorem behind_sign (cs : List Char) :
    behind (signLength cs) cs = pure (cs.drop (signOf cs).length) := by
  obtain ⟨-, rest, hcs⟩ := signOf_spec cs
  have hdrop : cs.drop (signOf cs).length = rest := by
    generalize signOf cs = sign at hcs
    rw [hcs, List.drop_left]
  rw [hdrop, behind_eq hcs (signLength_eq cs)]

section
variable {sign digits rest : List Char} (hs : IsSign sign) (hd : IsDigits digits)
include hs hd

theorem parseInteger?_append :
    parseInteger? (sign ++ digits) =
      if -0x80000000 ≤ integerValue sign digits ∧ integerValue sign digits < 0x80000000 then
        some (Int32.ofInt (integerValue sign digits))
      else none := by
  have hsign : signOf (sign ++ (digits ++ [])) = sign := signOf_append hs hd
  rw [List.append_nil] at hsign
  rw [parseInteger?, hsign, List.drop_left]

variable (hstop : Stops Char.isDigit rest)
include hstop

/-- The length of the digits behind a sign, and the lengths of both. -/
theorem digits_lengths :
    leading Char.isDigit
        ((sign ++ (digits ++ rest)).drop (signOf (sign ++ (digits ++ rest))).length) =
      utf8Len digits ∧
    utf8Len digits ≠ 0 ∧
    signLength (sign ++ (digits ++ rest)) + utf8Len digits = utf8Len (sign ++ digits) := by
  rw [signLength_eq, signOf_append hs hd, List.drop_left, leading_eq,
    takeWhile_append_of_stops hd.2 hstop, utf8Len_append]
  exact ⟨rfl, mt utf8Len_eq_zero.1 hd.1, rfl⟩

end

theorem matchInteger_eq (cs : List Char) : matchInteger cs = measured (scanInteger cs) := by
  rw [matchInteger, behind_sign, pure_bind]
  rcases number_cases cs with hnone | ⟨sign, digits, rest, rfl, hs, hd, hstop⟩
  · rw [leading_eq, scanInteger, hnone]
    rfl
  · obtain ⟨hlen, hpos, hlens⟩ := digits_lengths hs hd hstop
    have hcs : sign ++ (digits ++ rest) = sign ++ digits ++ rest := (List.append_assoc ..).symm
    dsimp only
    rw [hlen, if_neg hpos, hlens, upTo_eq hcs rfl, pure_bind, parseInteger?_append hs hd,
      scanInteger_append hs hd hstop]
    by_cases hrange : -0x80000000 ≤ integerValue sign digits ∧ integerValue sign digits < 0x80000000
    · rw [if_pos hrange, if_pos hrange]
      rfl
    · rw [if_neg hrange, if_neg hrange]
      rfl

theorem matchHexInteger_eq (cs : List Char) :
    matchHexInteger cs = measured (scanHexInteger cs) := by
  unfold matchHexInteger
  split
  · rename_i rest
    dsimp only
    rw [leading_eq]
    generalize hr : rest.takeWhile Text.isHexDigit = digits
    obtain ⟨rest, rfl, hrun, hstop⟩ := takeWhile_eq_iff.1 hr
    have htext : '0' :: 'x' :: (digits ++ rest) = '0' :: 'x' :: digits ++ rest := rfl
    have hlen : 2 + utf8Len digits = utf8Len ('0' :: 'x' :: digits) := Nat.add_comm ..
    rw [upTo_eq htext hlen, htext, scanHexInteger_append hrun hstop, pure_bind, upTo_eq rfl rfl]
    by_cases hnil : digits = []
    · rw [if_pos (utf8Len_eq_zero.2 hnil), if_pos hnil]
      rfl
    · rw [if_neg (mt utf8Len_eq_zero.1 hnil), if_neg hnil, pure_bind]
      split <;> rfl
  · rename_i hne
    unfold scanHexInteger
    split
    · exact absurd rfl (hne _)
    · rfl

section
variable {sign whole : List Char} (hs : IsSign sign) (hw : IsDigits whole)
include hs hw

theorem parseFloat_append {fraction exponent : List Char} (hf : IsDigits fraction)
    (he : IsExponent exponent) :
    parseFloat (sign ++ whole ++ '.' :: fraction ++ exponent) =
      floatValue (!sign.isEmpty) whole fraction exponent := by
  have htext : sign ++ whole ++ '.' :: fraction ++ exponent =
      sign ++ (whole ++ '.' :: (fraction ++ exponent)) := by simp
  have hpoint : Stops Char.isDigit ('.' :: (fraction ++ exponent)) := stops_cons.2 (by decide)
  have hdecimals : (sign ++ (whole ++ '.' :: (fraction ++ exponent))).drop
      (sign.length + whole.length + 1) = fraction ++ exponent := by
    have hsplit : sign ++ (whole ++ '.' :: (fraction ++ exponent)) =
        (sign ++ whole ++ ['.']) ++ (fraction ++ exponent) := by simp
    rw [hsplit, List.drop_left' (by simp [Nat.add_assoc])]
  rw [htext, parseFloat, signOf_append hs hw, List.drop_left, takeWhile_append_of_stops hw.2 hpoint,
    hdecimals, takeWhile_append_of_stops hf.2 he.stops, List.drop_left]

theorem matchDecimals_nil {rest : List Char} (hstop : Stops Char.isDigit rest) :
    matchDecimals (sign ++ (whole ++ '.' :: rest)) (utf8Len (sign ++ whole)) rest =
      measured (scanFloat (sign ++ (whole ++ '.' :: rest))) := by
  have hnone : rest.takeWhile Char.isDigit = [] :=
    takeWhile_eq_iff.2 ⟨rest, rfl, by simp, hstop⟩
  have hpoint : Stops Char.isDigit ('.' :: rest) := stops_cons.2 (by decide)
  rw [matchDecimals, leading_eq, hnone]
  dsimp only
  rw [if_pos utf8Len_nil]
  by_cases hspread : rest.head? = some '.'
  · have hdeclines : scanFloat (sign ++ (whole ++ '.' :: rest)) = .ok none :=
      scanFloat_declines hs hw hpoint fun tail htail => (List.cons.inj htail).2 ▸ hspread
    rw [if_pos hspread, hdeclines]
    rfl
  · have hrest : ∀ c ∈ rest.head?, c.isDigit = false ∧ c ≠ '.' :=
      fun c hc => ⟨hstop c hc, fun hdot => hspread (hdot ▸ hc)⟩
    have hsplit : sign ++ (whole ++ '.' :: rest) = sign ++ whole ++ ['.'] ++ rest := by simp
    have hlen : utf8Len (sign ++ whole) + 1 = utf8Len (sign ++ whole ++ ['.']) :=
      (utf8Len_append _ ['.']).symm
    rw [if_neg hspread, upTo_eq hsplit hlen, pure_bind, scanFloat_append_point hs hw hrest]
    rfl

theorem matchDecimals_digits {fraction rest : List Char} (hf : IsDigits fraction)
    (hstop : Stops Char.isDigit rest) :
    matchDecimals (sign ++ (whole ++ '.' :: (fraction ++ rest))) (utf8Len (sign ++ whole))
        (fraction ++ rest) =
      measured (scanFloat (sign ++ (whole ++ '.' :: (fraction ++ rest)))) := by
  obtain ⟨he, after, hrest⟩ := exponentOf_spec rest
  have hpoint : utf8Len (sign ++ whole) + (1 + utf8Len fraction) =
      utf8Len (sign ++ whole ++ '.' :: fraction) := by
    rw [utf8Len_append (sign ++ whole), utf8Len_cons, Nat.add_comm 1]
    rfl
  have hbehind : behind (utf8Len (sign ++ whole ++ '.' :: fraction))
      (sign ++ (whole ++ '.' :: (fraction ++ rest))) = pure rest :=
    behind_eq (by simp) rfl
  rw [matchDecimals, leading_eq, takeWhile_append_of_stops hf.2 hstop]
  dsimp only
  rw [if_neg (mt utf8Len_eq_zero.1 hf.1), hpoint, hbehind, pure_bind, exponentLength_eq, pure_bind,
    ← utf8Len_append]
  generalize hexponent : exponentOf rest = exponent at he hrest
  subst hrest
  have hsplit : sign ++ (whole ++ '.' :: (fraction ++ (exponent ++ after))) =
      sign ++ whole ++ '.' :: fraction ++ exponent ++ after := by simp
  rw [upTo_eq hsplit rfl, pure_bind, parseFloat_append hs hw hf he,
    scanFloat_append hs hw hf hstop hexponent]
  by_cases hfinite : (floatValue (!sign.isEmpty) whole fraction exponent).isFinite
  · rw [if_pos hfinite, if_pos hfinite]
    rfl
  · rw [if_neg hfinite, if_neg hfinite]
    rfl

end

theorem matchFloat_eq (cs : List Char) : matchFloat cs = measured (scanFloat cs) := by
  rw [matchFloat, behind_sign, pure_bind]
  rcases number_cases cs with hnone | ⟨sign, whole, rest, rfl, hs, hw, hstop⟩
  · rw [leading_eq, scanFloat, hnone]
    rfl
  obtain ⟨hlen, hpos, hlens⟩ := digits_lengths hs hw hstop
  have hcs : sign ++ (whole ++ rest) = sign ++ whole ++ rest := (List.append_assoc ..).symm
  dsimp only
  rw [hlen, if_neg hpos, hlens, behind_eq hcs rfl, pure_bind]
  split
  · rename_i rest
    generalize hr : rest.takeWhile Char.isDigit = fraction
    obtain ⟨decimals, rfl, hrun, hstop'⟩ := takeWhile_eq_iff.1 hr
    cases fraction with
    | nil => exact matchDecimals_nil hs hw hstop'
    | cons d fraction =>
      exact matchDecimals_digits hs hw ⟨List.cons_ne_nil d fraction, hrun⟩ hstop'
  · rename_i hne
    rw [scanFloat_declines hs hw hstop fun tail htail => (hne tail htail).elim]
    rfl

/-! ### Escapes -/

theorem utf8Size_of_isHexDigit {c : Char} (h : Text.isHexDigit c) : c.utf8Size = 1 := by
  have hlt := toNat_lt_of_isHexDigit h
  rw [Char.utf8Size_eq_one_iff, UInt32.le_iff_toNat_le]
  exact Nat.le_of_lt_succ hlt

theorem utf8Len_of_isHexDigit {digits : List Char} (h : ∀ d ∈ digits, Text.isHexDigit d) :
    utf8Len digits = digits.length := by
  induction digits with
  | nil => rfl
  | cons d digits ih =>
    obtain ⟨hd, hdigits⟩ := List.forall_mem_cons.1 h
    rw [utf8Len_cons, ih hdigits, utf8Size_of_isHexDigit hd, List.length_cons]

theorem matchCodePoint_eq (cs : List Char) :
    matchCodePoint cs = measured (scanEscape ('\\' :: 'u' :: cs)) := by
  rw [matchCodePoint, scanEscape, namedChar?]
  by_cases hdigits : (cs.take 4).length = 4 ∧ (cs.take 4).all Text.isHexDigit
  · have hlen : utf8Len (cs.take 4) = 4 := by
      rw [utf8Len_of_isHexDigit (List.all_eq_true.1 hdigits.2), hdigits.1]
    have hsix : utf8Len ('\\' :: 'u' :: cs.take 4) = 6 := by
      rw [utf8Len_cons, utf8Len_cons, hlen]
      rfl
    have hcut : splitBytes 4 cs = some (cs.take 4, cs.drop 4) :=
      splitBytes_eq_some_iff.2 ⟨(List.take_append_drop 4 cs).symm, hlen⟩
    rw [hcut, if_pos hdigits]
    dsimp only
    rw [if_pos hdigits.2]
    cases charOfCodePoint? (Text.ofHexDigits (cs.take 4) 0) with
    | none => rfl
    | some c =>
      dsimp only [measured]
      rw [hsix]
  · rw [if_neg hdigits]
    split
    · rename_i digits back hcut
      split
      · -- Four bytes of hexadecimal digits are the first four characters.
        rename_i hall
        obtain ⟨rfl, hlen⟩ := splitBytes_eq_some_iff.1 hcut
        rw [utf8Len_of_isHexDigit (List.all_eq_true.1 hall)] at hlen
        rw [List.take_left' hlen] at hdigits
        exact absurd ⟨hlen, hall⟩ hdigits
      · rfl
    · rfl

theorem matchEscape_eq (cs : List Char) : matchEscape cs = measured (scanEscape cs) := by
  cases cs with
  | nil => rfl
  | cons d rest =>
    by_cases hd : d = '\\'
    · subst hd
      cases rest with
      | nil => rfl
      | cons c cs =>
        by_cases hu : c = 'u'
        · subst hu
          have hletter : 'u' :: cs = ['u'] ++ cs := rfl
          have hcut : behind 1 ('u' :: cs) = pure cs := behind_eq hletter rfl
          rw [← matchCodePoint_eq, matchEscape, List.head?_cons, hcut]
          rfl
        · cases he : simpleEscape? c with
          | none => simp [matchEscape, scanEscape, he, measured]
          | some e =>
            have hlen : utf8Len ['\\', c] = 2 := by
              have hletter : c.utf8Size = 1 := by
                unfold simpleEscape? at he
                split at he <;> first | rfl | cases he
              rw [utf8Len_cons, utf8Len_cons, hletter]
              rfl
            simp [matchEscape, scanEscape, he, measured, hlen]
    · simp [matchEscape, scanEscape, hd, measured]

/-- **Patterns cut texts at characters.** -/
theorem tryMatch_eq (p : Pattern) (cs : List Char) : p.tryMatch cs = measured (p.scan cs) := by
  cases p with
  | symbol s => exact matchSymbol_eq s cs
  | input => exact matchInput_eq cs
  | quotedSegment => exact matchQuotedSegment_eq cs
  | segment => exact matchRun_eq isSegmentChar .segment cs
  | float => exact matchFloat_eq cs
  | hexInteger => exact matchHexInteger_eq cs
  | integer => exact matchInteger_eq cs
  | escape => exact matchEscape_eq cs
  | characters => exact matchRun_eq isPlainChar .characters cs

theorem run_measured (r : Except LexError (Option Lexeme)) :
    (measured r).run =
      some (r.map (Option.map fun lexeme => (lexeme.token, utf8Len lexeme.text))) := by
  match r with
  | .error _ | .ok none | .ok (some _) => rfl

/-- What is read is a text that is not empty, at the start of the one ahead, and the length returned
is its length. -/
theorem prefix_of_tryMatch {p : Pattern} {cs : List Char} {t : Token} {n : Nat}
    (h : (p.tryMatch cs).run = some (.ok (some (t, n)))) :
    ∃ text rest, cs = text ++ rest ∧ text ≠ [] ∧ utf8Len text = n := by
  rw [tryMatch_eq, run_measured, Option.some.injEq] at h
  match hscan : p.scan cs with
  | .error e => rw [hscan] at h; cases h
  | .ok none => rw [hscan] at h; cases h
  | .ok (some lexeme) =>
    rw [hscan] at h
    cases h
    obtain ⟨rest, hrest⟩ := prefix_of_scan hscan
    exact ⟨lexeme.text, rest, hrest.symm, scan_text_ne_nil hscan, rfl⟩

end ConfigLang.Lexer
