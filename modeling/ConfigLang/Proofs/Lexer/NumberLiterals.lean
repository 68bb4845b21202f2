import ConfigLang.Proofs.Lexer.Declining
import ConfigLang.Proofs.Lexer.Lexemes
import ConfigLang.Proofs.Binary64.NearestNumbers

/-!
# Number literals

What a lexer that waits for a value, or for an item of an array, makes of digits behind an optional
minus sign: a float, a hexadecimal integer, a decimal integer or an error. What stands behind the
digits decides it.

* `number_decided`: the first of the three patterns for numbers that does not decline decides.
* `isLongestFloat`: the text of a float is the longest one that stands there.
* `hexadecimal_iff`: digits begin a hexadecimal literal only as a zero before an `x`.
* `number_read`: the statement for every text that begins with digits.
-/

namespace ConfigLang.Lexer

/-! ## What a step does to a value -/

/-- The modes after a value that is one token: the wait for it ends, and an array stays open. -/
def afterScalar : List Mode → List Mode
  | .value :: outer => outer
  | modes => modes

/-- The next step reads `text` as the scalar `t` and stops behind it. -/
def ReadsScalar (l : Lexer) (t : Token) (text : List Char) : Prop :=
  ∃ after, l.ahead = text ++ after ∧ l.next = (.ok (some ⟨t, text⟩), ⟨after, afterScalar l.modes⟩)

/-- The next step fails before the text ahead and changes no mode. -/
def Refuses (l : Lexer) (e : LexError) : Prop := l.next = (.error e, ⟨l.ahead, l.modes⟩)

/-! ## The patterns for numbers -/

/-- The rules by which a mode reads numbers stand together, behind rules for other tokens. -/
theorem exists_number_rules {mode : Mode} (h : mode = .value ∨ mode = .array) :
    ∃ others after move, mode.rules = others ++
        (⟨.float, move⟩ :: ⟨.hexInteger, move⟩ :: ⟨.integer, move⟩ :: after) ∧
      (∀ r ∈ others, r.pattern.isOther) ∧
        ∀ outer, move.apply (mode :: outer) = afterScalar (mode :: outer) := by
  rcases h with rfl | rfl
  · exact ⟨Mode.value.rules.take 7, [⟨.symbol .bracketClose, .pop⟩], .pop, rfl, by decide,
      fun _ => rfl⟩
  · exact ⟨Mode.array.rules.take 9, [], .stay, rfl, by decide, fun _ => rfl⟩

theorem refuses_of_read {l : Lexer} {e : LexError} (h : read l.modes l.ahead = .error e) :
    l.Refuses e := by
  unfold Refuses next
  rw [h]

section
variable {l : Lexer} {mode : Mode} {outer : List Mode} (hmodes : l.modes = mode :: outer)
include hmodes

theorem readsScalar_of_firstMatch {lexeme : Lexeme} {move : Move}
    (hfirst : firstMatch mode.rules l.ahead = .ok (some (lexeme, move)))
    (hmove : move.apply (mode :: outer) = afterScalar (mode :: outer)) :
    l.ReadsScalar lexeme.token lexeme.text := by
  obtain ⟨p, -, -, hscan⟩ := pattern_of_firstMatch hfirst
  obtain ⟨after, hafter⟩ := prefix_of_scan hscan
  refine ⟨after, hafter.symm, next_eq_some_iff.2
    ⟨mode, outer, move, hmodes, hfirst, scan_text_ne_nil hscan, hafter.symm, ?_⟩⟩
  rw [hmodes]
  exact hmove.symm

theorem refuses_of_firstMatch {e : LexError} (hne : l.ahead ≠ [])
    (hfirst : firstMatch mode.rules l.ahead = .error e) : l.Refuses e := by
  obtain ⟨c, cs, hcs⟩ := List.exists_cons_of_ne_nil hne
  have hread : read l.modes l.ahead = .error e := by
    rw [hcs] at hfirst
    simp [hmodes, hcs, read, hfirst]
  exact refuses_of_read hread

variable (hmode : mode = .value ∨ mode = .array) {sign digits rest : List Char}
  (hahead : l.ahead = sign ++ (digits ++ rest)) (hs : IsSign sign) (hd : IsDigits digits)
include hmode hahead hs hd

/-- The first of the patterns for numbers that does not decline decides what the step does. -/
theorem number_decided {p : Pattern} (hp : p = .float ∨ p = .hexInteger ∨ p = .integer)
    (hfloat : p ≠ .float → scanFloat l.ahead = .ok none)
    (hhex : p = .integer → scanHexInteger l.ahead = .ok none) :
    (∀ lexeme, p.scan l.ahead = .ok (some lexeme) → l.ReadsScalar lexeme.token lexeme.text) ∧
      ∀ e, p.scan l.ahead = .error e → l.Refuses e := by
  obtain ⟨others, after, move, hrules, hothers, hmove⟩ := exists_number_rules hmode
  have hne : l.ahead ≠ [] := by
    rw [hahead]
    exact List.append_ne_nil_of_right_ne_nil _ (List.append_ne_nil_of_left_ne_nil hd.1 _)
  have hdeclined : ∀ r ∈ others, r.pattern.scan l.ahead = .ok none := by
    intro r hr
    obtain ⟨c, cs, hcs, hc⟩ := number_start hs hd
    rw [hahead, ← List.append_assoc, hcs]
    exact scan_of_isOther (hothers r hr) hc
  obtain ⟨later, hfirst⟩ : ∃ later,
      firstMatch mode.rules l.ahead = firstMatch (⟨p, move⟩ :: later) l.ahead := by
    rw [hrules, firstMatch_of_declined hdeclined]
    rcases hp with rfl | rfl | rfl
    · exact ⟨_, rfl⟩
    · refine ⟨⟨.integer, move⟩ :: after, ?_⟩
      rw [firstMatch, Pattern.scan, hfloat (by decide)]
    · refine ⟨after, ?_⟩
      rw [firstMatch, Pattern.scan, hfloat (by decide)]
      dsimp only
      rw [firstMatch, Pattern.scan, hhex rfl]
  constructor
  · intro lexeme hscan
    rw [firstMatch, hscan] at hfirst
    exact readsScalar_of_firstMatch hmodes hfirst (hmove outer)
  · intro e hscan
    rw [firstMatch, hscan] at hfirst
    exact refuses_of_firstMatch hmodes hne hfirst

end

/-! ## Texts of floats -/

/-- Digits, a point, digits and perhaps an exponent, behind an optional sign. -/
def IsFloatText (text : List Char) : Prop :=
  ∃ sign whole fraction exponent, IsSign sign ∧ IsDigits whole ∧ IsDigits fraction ∧
    IsExponent exponent ∧ text = sign ++ (whole ++ '.' :: (fraction ++ exponent))

/-- The longest text of a float that a text starts with. -/
def IsLongestFloat (text cs : List Char) : Prop :=
  IsFloatText text ∧ text <+: cs ∧ ∀ other, IsFloatText other → other <+: cs → other <+: text

/-- What starts with a run that is as long as it can be goes no further with such characters. -/
theorem prefix_of_run {p : Char → Bool} {other run rest : List Char} (hother : ∀ c ∈ other, p c)
    (hrun : ∀ c ∈ run, p c) (hrest : Stops p rest) (h : other <+: run ++ rest) : other <+: run := by
  obtain ⟨tail, htail⟩ := h
  have htake := congrArg (List.takeWhile p) htail
  rw [List.takeWhile_append_of_pos hother, takeWhile_append_of_stops hrun hrest] at htake
  exact ⟨_, htake⟩

/-- No longer exponent starts a text than the one that is read there. -/
theorem prefix_exponentOf {exponent cs : List Char} (h : IsExponent exponent)
    (hcs : exponent <+: cs) : exponent <+: exponentOf cs := by
  obtain ⟨rest, rfl⟩ := hcs
  rcases h with rfl | ⟨e, sign, digits, he, hs, hd, rfl⟩
  · exact List.nil_prefix
  cases digits with
  | nil => exact absurd rfl hd.1
  | cons d digits =>
    obtain ⟨hd, hdigits⟩ := List.forall_mem_cons.1 hd.2
    rw [exponentOf_digits he hs hd, List.takeWhile_append_of_pos hdigits]
    exact ⟨rest.takeWhile Char.isDigit, by simp⟩

theorem isLongestFloat {sign whole fraction exponent rest : List Char} (hs : IsSign sign)
    (hw : IsDigits whole) (hf : IsDigits fraction) (hstop : Stops Char.isDigit (exponent ++ rest))
    (he : exponentOf (exponent ++ rest) = exponent) :
    IsLongestFloat (sign ++ (whole ++ '.' :: (fraction ++ exponent)))
      (sign ++ (whole ++ '.' :: (fraction ++ (exponent ++ rest)))) := by
  have hexponent : IsExponent exponent := he ▸ (exponentOf_spec _).1
  have hpoint (rest : List Char) : Stops Char.isDigit ('.' :: rest) := stops_cons.2 (by decide)
  refine ⟨⟨sign, whole, fraction, exponent, hs, hw, hf, hexponent, rfl⟩, ⟨rest, by simp⟩, ?_⟩
  rintro other ⟨sign', whole', fraction', exponent', hs', hw', hf', he', rfl⟩ ⟨rest', h⟩
  simp only [List.append_assoc, List.cons_append] at h
  obtain ⟨rfl, hnumber⟩ := sign_unique hs' hw' hs hw h
  obtain ⟨rfl, hpoints⟩ := run_unique hw'.2 (hpoint _) hw.2 (hpoint _) hnumber
  have hrest := (List.cons.inj hpoints).2
  rw [List.prefix_append_right_inj, List.prefix_append_right_inj, List.prefix_cons_inj]
  by_cases hnil : exponent' = []
  · subst hnil
    rw [List.append_nil]
    have hshort := prefix_of_run hf'.2 hf.2 hstop ⟨rest', hrest⟩
    exact hshort.trans (List.prefix_append _ _)
  · -- The letter of an exponent ends the fraction, so both fractions are the same.
    have hstop' : Stops Char.isDigit (exponent' ++ rest') := by
      intro c hc
      rw [List.head?_append_of_ne_nil _ hnil] at hc
      exact he'.stops c hc
    obtain ⟨rfl, htail⟩ := run_unique hf'.2 hstop' hf.2 hstop hrest
    rw [List.prefix_append_right_inj, ← he, ← htail]
    exact prefix_exponentOf he' (List.prefix_append _ _)

/-! ## Texts that are no floats -/

section
variable {sign digits rest : List Char} (hs : IsSign sign) (hd : IsDigits digits)
  (hstop : Stops Char.isDigit rest)
include hs hd hstop

/-- Digits are left to the patterns for integers where no point follows, or two of them. -/
theorem scanFloat_declines (h : ∀ tail, rest = '.' :: tail → tail.head? = some '.') :
    scanFloat (sign ++ (digits ++ rest)) = .ok none := by
  refine scanFloat_eq_none_iff.2 fun sign' whole tail htext hs' hw => ?_
  have hpoint : Stops Char.isDigit ('.' :: tail) := stops_cons.2 (by decide)
  obtain ⟨rfl, hnumber⟩ := sign_unique hs hd hs' hw htext
  obtain ⟨-, hrest⟩ := run_unique hd.2 hstop hw.2 hpoint hnumber
  exact h tail hrest

/-- Digits begin a hexadecimal literal only as a zero before an `x`. -/
theorem hexadecimal_iff :
    ['0', 'x'] <+: sign ++ (digits ++ rest) ↔
      sign = [] ∧ digits = ['0'] ∧ rest.head? = some 'x' := by
  constructor
  · rintro ⟨tail, htail⟩
    have hzero : IsDigits ['0'] := ⟨by simp, List.forall_mem_singleton.2 (by decide)⟩
    have hletter : Stops Char.isDigit ('x' :: tail) := stops_cons.2 (by decide)
    have hnone : IsSign [] := .inl rfl
    obtain ⟨rfl, hnumber⟩ := sign_unique hs hd hnone hzero htail.symm
    obtain ⟨rfl, rfl⟩ := run_unique hd.2 hstop hzero.2 hletter hnumber
    exact ⟨rfl, rfl, rfl⟩
  · rintro ⟨rfl, rfl, hx⟩
    obtain ⟨tail, rfl⟩ := List.head?_eq_some_iff.1 hx
    exact ⟨tail, rfl⟩

end

/-! ## Numbers -/

/-- The step reads the number nearest to what the longest text of a float denotes. It fails where
that is infinite. -/
def FloatRead (l : Lexer) (sign digits : List Char) : Prop :=
  ∃ fraction exponent text x, IsDigits fraction ∧ IsExponent exponent ∧
    text = sign ++ (digits ++ '.' :: (fraction ++ exponent)) ∧ IsLongestFloat text l.ahead ∧
    Binary64.IsRounded (!sign.isEmpty) (Nat.ofDigitChars 10 (digits ++ fraction) 0)
      (exponentValue exponent - fraction.length) x ∧
    (x.isFinite = true → l.ReadsScalar (.float x) text) ∧
    (x.isFinite = false → l.Refuses (.invalidLiteral (String.ofList text) .floatRange))

/-- The step reads the integer with the bits that the longest run of hexadecimal digits gives. It
fails where there are none, or more than 32 bits. -/
def HexadecimalRead (l : Lexer) (tail : List Char) : Prop :=
  ∃ hex after, tail = hex ++ after ∧ (∀ c ∈ hex, Text.isHexDigit c) ∧
    Stops Text.isHexDigit after ∧
    (hex = [] → l.Refuses (.invalidLiteral "0x" .missingHexDigits)) ∧
    (hex ≠ [] → Text.ofHexDigits hex 0 < 0x100000000 → ∃ n : Int32,
      n.toUInt32.toNat = Text.ofHexDigits hex 0 ∧
        l.ReadsScalar (.integer n) ('0' :: 'x' :: hex)) ∧
    (0x100000000 ≤ Text.ofHexDigits hex 0 →
      l.Refuses (.invalidLiteral (String.ofList ('0' :: 'x' :: hex)) .hexRange))

/-- The step reads the integer that the digits denote. It fails where that has more than 32 bits. -/
def DecimalRead (l : Lexer) (sign digits : List Char) : Prop :=
  (-0x80000000 ≤ integerValue sign digits ∧ integerValue sign digits < 0x80000000 → ∃ n : Int32,
    n.toInt = integerValue sign digits ∧ l.ReadsScalar (.integer n) (sign ++ digits)) ∧
  (¬ (-0x80000000 ≤ integerValue sign digits ∧ integerValue sign digits < 0x80000000) →
    l.Refuses (.invalidLiteral (String.ofList (sign ++ digits)) .integerRange))

/-- What a step makes of `digits` behind `sign`, with `rest` behind them. A point and a digit make
them a float; a point and neither a digit nor another point, an error; a lone zero before an `x` is
hexadecimal, and everything else is decimal. -/
structure NumberRead (l : Lexer) (sign digits rest : List Char) : Prop where
  float : ∀ c tail, rest = '.' :: c :: tail → c.isDigit → l.FloatRead sign digits
  point : ∀ tail, rest = '.' :: tail → (∀ c ∈ tail.head?, c.isDigit = false ∧ c ≠ '.') →
    l.Refuses (.invalidLiteral (String.ofList (sign ++ (digits ++ ['.']))) .missingFraction)
  hexadecimal : ∀ tail, sign = [] → digits = ['0'] → rest = 'x' :: tail → l.HexadecimalRead tail
  decimal : (∀ tail, rest = '.' :: tail → tail.head? = some '.') →
    ¬ (sign = [] ∧ digits = ['0'] ∧ rest.head? = some 'x') → l.DecimalRead sign digits

section
variable {l : Lexer} {mode : Mode} {outer : List Mode} (hmodes : l.modes = mode :: outer)
  (hmode : mode = .value ∨ mode = .array) {sign digits rest : List Char}
  (hahead : l.ahead = sign ++ (digits ++ rest)) (hs : IsSign sign) (hd : IsDigits digits)
include hmodes hmode hahead hs hd

theorem float_read {c : Char} {tail : List Char} (hrest : rest = '.' :: c :: tail)
    (hc : c.isDigit) : l.FloatRead sign digits := by
  generalize hr : (c :: tail).takeWhile Char.isDigit = fraction
  obtain ⟨behind, hbehind, hfraction, hstop⟩ := takeWhile_eq_iff.1 hr
  have hf : IsDigits fraction := by
    refine ⟨?_, hfraction⟩
    rw [← hr, List.takeWhile_cons_of_pos hc]
    exact List.cons_ne_nil _ _
  obtain ⟨hexponent, after, hafter⟩ := exponentOf_spec behind
  generalize he : exponentOf behind = exponent at hexponent hafter
  subst hafter
  rw [hrest, hbehind] at hahead
  obtain ⟨hreads, hrefuses⟩ := number_decided hmodes hmode hahead hs hd (.inl rfl)
    (fun h => absurd rfl h) (fun h => nomatch h)
  rw [Pattern.scan, hahead, scanFloat_append hs hd hf hstop he] at hreads hrefuses
  refine ⟨fraction, exponent, _, floatValue (!sign.isEmpty) digits fraction exponent, hf, hexponent,
    rfl, ?_, Binary64.isRounded_ofDecimal _ _ _, fun hfinite => ?_, fun hinfinite => ?_⟩
  · rw [hahead]
    exact isLongestFloat hs hd hf hstop he
  · simpa using hreads _ (if_pos hfinite)
  · simpa using hrefuses _ (if_neg (by simp [hinfinite]))

theorem point_read {tail : List Char} (hrest : rest = '.' :: tail)
    (htail : ∀ c ∈ tail.head?, c.isDigit = false ∧ c ≠ '.') :
    l.Refuses (.invalidLiteral (String.ofList (sign ++ (digits ++ ['.']))) .missingFraction) := by
  subst hrest
  obtain ⟨-, hrefuses⟩ := number_decided hmodes hmode hahead hs hd (.inl rfl)
    (fun h => absurd rfl h) (fun h => nomatch h)
  rw [← List.append_assoc]
  refine hrefuses _ ?_
  rw [Pattern.scan, hahead, scanFloat_append_point hs hd htail]

variable (hstop : Stops Char.isDigit rest)
include hstop

theorem hexadecimal_read {tail : List Char} (hsign : sign = []) (hdigits : digits = ['0'])
    (hrest : rest = 'x' :: tail) : l.HexadecimalRead tail := by
  subst hsign hdigits hrest
  generalize hr : tail.takeWhile Text.isHexDigit = hex
  obtain ⟨after, rfl, hhex, hafter⟩ := takeWhile_eq_iff.1 hr
  have hfloat : scanFloat l.ahead = .ok none := by
    rw [hahead]
    exact scanFloat_declines hs hd hstop (by simp)
  obtain ⟨hreads, hrefuses⟩ := number_decided hmodes hmode hahead hs hd (.inr (.inl rfl))
    (fun _ => hfloat) (fun h => nomatch h)
  have hahead' : l.ahead = '0' :: 'x' :: hex ++ after := hahead
  rw [Pattern.scan, hahead', scanHexInteger_append hhex hafter] at hreads hrefuses
  refine ⟨hex, after, rfl, hhex, hafter, fun hnil => ?_, fun hne hlt => ?_, fun hge => ?_⟩
  · subst hnil
    exact hrefuses _ (if_pos rfl)
  · rw [if_neg hne, if_pos hlt] at hreads
    refine ⟨Int32.ofNat (Text.ofHexDigits hex 0), ?_, hreads _ rfl⟩
    rw [Int32.toUInt32_ofNat', UInt32.toNat_ofNat_of_lt' hlt]
  · have hne : hex ≠ [] := by
      rintro rfl
      exact absurd hge (by decide)
    rw [if_neg hne, if_neg (Nat.not_lt.2 hge)] at hrefuses
    exact hrefuses _ rfl

theorem decimal_read (hpoint : ∀ tail, rest = '.' :: tail → tail.head? = some '.')
    (hx : ¬ (sign = [] ∧ digits = ['0'] ∧ rest.head? = some 'x')) : l.DecimalRead sign digits := by
  have hfloat : scanFloat l.ahead = .ok none := by
    rw [hahead]
    exact scanFloat_declines hs hd hstop hpoint
  have hhex : scanHexInteger l.ahead = .ok none := by
    rw [hahead]
    exact scanHexInteger_eq_none_iff.2 (mt (hexadecimal_iff hs hd hstop).1 hx)
  obtain ⟨hreads, hrefuses⟩ := number_decided hmodes hmode hahead hs hd (.inr (.inr rfl))
    (fun _ => hfloat) (fun _ => hhex)
  rw [Pattern.scan, hahead, scanInteger_append hs hd hstop] at hreads hrefuses
  constructor
  · intro hrange
    rw [if_pos hrange] at hreads
    exact ⟨_, Int32.toInt_ofInt_of_le hrange.1 hrange.2, hreads _ rfl⟩
  · intro hrange
    rw [if_neg hrange] at hrefuses
    exact hrefuses _ rfl

/-- **Digits are read** by what stands behind them, wherever a value or an item may stand. -/
theorem number_read : NumberRead l sign digits rest where
  float _ _ hrest hc := float_read hmodes hmode hahead hs hd hrest hc
  point _ hrest htail := point_read hmodes hmode hahead hs hd hrest htail
  hexadecimal _ hsign hdigits hrest :=
    hexadecimal_read hmodes hmode hahead hs hd hstop hsign hdigits hrest
  decimal hpoint hx := decimal_read hmodes hmode hahead hs hd hstop hpoint hx

end

/-- All bits set, behind white space and before the points of a spread. -/
theorem number_read_of_all_bits :
    NumberRead ⟨" 0xFFFFffff..$x]".toList, [.array, .object, .topLevel]⟩ [] ['0']
        "xFFFFffff..$x]".toList ∧
      ReadsScalar ⟨" 0xFFFFffff..$x]".toList, [.array, .object, .topLevel]⟩ (.integer (-1))
        "0xFFFFffff".toList := by
  have hzero : IsDigits ['0'] := ⟨by simp, List.forall_mem_singleton.2 (by decide)⟩
  have hletter : Stops Char.isDigit "xFFFFffff..$x]".toList := stops_cons.2 (by decide)
  have hread := @number_read ⟨" 0xFFFFffff..$x]".toList, [.array, .object, .topLevel]⟩ .array
    [.object, .topLevel] rfl (.inr rfl) [] ['0'] "xFFFFffff..$x]".toList rfl (.inl rfl) hzero
    hletter
  obtain ⟨hex, after, htail, hhex, hstop, -, hreads, -⟩ := hread.hexadecimal _ rfl rfl rfl
  have hdigits : ∀ c ∈ "FFFFffff".toList, Text.isHexDigit c := List.all_eq_true.1 (by decide)
  have hpoint : Stops Text.isHexDigit "..$x]".toList := stops_cons.2 (by decide)
  obtain ⟨rfl, -⟩ := run_unique hhex hstop hdigits hpoint htail.symm
  obtain ⟨n, hn, hscalar⟩ := hreads (by decide) (by decide)
  obtain rfl : n = -1 := by
    have hbits : n.toUInt32 = (-1 : Int32).toUInt32 := UInt32.toNat_inj.1 (hn.trans (by decide))
    exact congrArg Int32.ofUInt32 hbits
  exact ⟨hread, hscalar⟩

end ConfigLang.Lexer
