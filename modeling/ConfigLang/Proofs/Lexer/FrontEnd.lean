import ConfigLang.Proofs.Binary64.ExactNumbers
import ConfigLang.Proofs.Lexer.ReadImage
import ConfigLang.Proofs.Lexer.RoundTrip

/-!
# The image of the front end

The documents that lexer and reader give are the lexable ones, each of them from every text that it
can be written as, and each of them has such a text.

* `exists_spelling`: a token that can be written has a text.
* `exists_isWrittenAs`: so has a document.
* `front_end_image`: image and round trip together.
-/

namespace ConfigLang

open Lexer

/-! ## Texts of tokens -/

theorem isDigits_toDigits (n : Nat) : IsDigits (Nat.toDigits 10 n) :=
  ⟨Nat.toDigits_ne_nil, fun _ hc => Nat.isDigit_of_mem_toDigits (by decide) (by decide) hc⟩

theorem exists_integer (n : Int32) : ∃ text, Spells (.integer n) text := by
  by_cases hn : n.toInt < 0
  · refine ⟨_, .integer (.inr rfl) (isDigits_toDigits n.toInt.natAbs) ?_⟩
    simp only [integerValue, List.isEmpty_cons, Bool.false_eq_true, if_false,
      Nat.ofDigitChars_ten_toDigits]
    omega
  · refine ⟨_, .integer (.inl rfl) (isDigits_toDigits n.toInt.natAbs) ?_⟩
    simp only [integerValue, List.isEmpty_nil, if_true, Nat.ofDigitChars_ten_toDigits]
    omega

theorem isDigits_of_all {cs : List Char} (hne : cs ≠ []) (h : cs.all Char.isDigit) : IsDigits cs :=
  ⟨hne, List.all_eq_true.1 h⟩

/-- The exponent that leaves a number in units of `2 ^ -1074` without digits behind the point. -/
def unitExponent : List Char := ['e', '-', '1', '0', '7', '4']

theorem isExponent_unitExponent : IsExponent unitExponent := by
  refine .inr ⟨'e', ['-'], ['1', '0', '7', '4'], .inl rfl, .inl (.inr rfl), ?_, rfl⟩
  exact isDigits_of_all (by simp) (by decide)

/-- The digits of a number with this exponent are its value, without rounding. -/
theorem floatValue_digits {x : Binary64} (hx : x.isFinite) :
    floatValue x.isNegative (Nat.toDigits 10 x.digitsValue) ['0'] unitExponent = x := by
  have hcoefficient : Nat.ofDigitChars 10 (Nat.toDigits 10 x.digitsValue ++ ['0']) 0 =
      10 * x.digitsValue := by
    rw [Nat.ofDigitChars_append, Nat.ofDigitChars_ten_toDigits, Nat.ofDigitChars_cons,
      Nat.ofDigitChars_nil, Nat.sub_self, Nat.add_zero]
  have hexponent : exponentValue unitExponent - ((['0'] : List Char).length : Int) =
      .negSucc 1074 := by
    decide
  unfold floatValue Binary64.ofDecimal
  rw [hcoefficient, hexponent, Binary64.decimalMagnitude_exact hx, Binary64.ofMagnitude_self]

theorem exists_float {x : Binary64} (hx : x.isFinite) : ∃ text, Spells (.float x) text := by
  have hzero : IsDigits ['0'] := isDigits_of_all (by simp) (by decide)
  have hdigits := isDigits_toDigits x.digitsValue
  have hvalue := floatValue_digits hx
  cases hn : x.isNegative with
  | false =>
    rw [hn] at hvalue
    exact ⟨_, .float (.inl rfl) hdigits hzero isExponent_unitExponent hvalue⟩
  | true =>
    rw [hn] at hvalue
    exact ⟨_, .float (.inr rfl) hdigits hzero isExponent_unitExponent hvalue⟩

theorem exists_hexDigit : ∀ n < 16, ∃ c, Text.isHexDigit c ∧ Text.hexDigitValue c = n := by
  intro n hn
  refine ⟨Nat.digitChar n, ?_⟩
  revert n
  decide

theorem exists_escape {c : Char} (hc : c.toNat ≤ 0xFFFF) : ∃ text, Spells (.escape c) text := by
  obtain ⟨d₁, h₁, v₁⟩ := exists_hexDigit (c.toNat / 4096) (by omega)
  obtain ⟨d₂, h₂, v₂⟩ := exists_hexDigit (c.toNat / 256 % 16) (by omega)
  obtain ⟨d₃, h₃, v₃⟩ := exists_hexDigit (c.toNat / 16 % 16) (by omega)
  obtain ⟨d₄, h₄, v₄⟩ := exists_hexDigit (c.toNat % 16) (by omega)
  have hvalue : Text.ofHexDigits [d₁, d₂, d₃, d₄] 0 = c.toNat := by
    simp only [Text.ofHexDigits, v₁, v₂, v₃, v₄]
    omega
  have hall : [d₁, d₂, d₃, d₄].all Text.isHexDigit := by simp [h₁, h₂, h₃, h₄]
  have hvalid : c.toNat.isValidChar := c.valid
  have hnamed : namedChar? [d₁, d₂, d₃, d₄] = some c := by
    unfold namedChar? charOfCodePoint?
    dsimp only [List.take]
    rw [hvalue, if_pos ⟨rfl, hall⟩, if_pos hvalid, Char.ofNat_toNat]
  exact ⟨_, .codePoint rfl hnamed⟩

theorem exists_spelling {t : Token} (h : t.Lexable) : ∃ text, Spells t text := by
  cases t with
  | symbol s => exact ⟨_, .symbol s⟩
  | segment s =>
    rcases h with hquoted | hbare
    · exact ⟨_, .quoted hquoted⟩
    · exact ⟨_, .bare hbare⟩
  | float x => exact exists_float h
  | integer n => exact exists_integer n
  | escape c => exact exists_escape h
  | characters text => exact ⟨_, .characters text⟩
  | input name => exact ⟨_, .input name⟩

/-! ## Texts of documents -/

theorem exists_writes (steps : List (Token × List Mode))
    (h : ∀ t ∈ steps.map Prod.fst, t.Lexable) : ∃ text, Writes steps text := by
  induction steps with
  | nil => exact ⟨[], .nil⟩
  | cons step steps ih =>
    obtain ⟨t, modes⟩ := step
    obtain ⟨ht, hsteps⟩ := List.forall_mem_cons.1 h
    obtain ⟨rest, hrest⟩ := ih hsteps
    obtain ⟨text, htext⟩ := exists_spelling ht
    by_cases hs : InString modes
    · exact ⟨_, .inString htext hs hrest⟩
    · exact ⟨_, .between htext hs isGap_space (fun hnil => absurd hnil (by simp)) hrest⟩

theorem exists_isWrittenAs {c : Document} (hc : c.Lexable) : ∃ text, c.IsWrittenAs text := by
  obtain ⟨⟨hall, -⟩, -⟩ := (lexable_iff_fits c).1 hc
  rw [← c.trace_map_fst] at hall
  obtain ⟨text, htext⟩ := exists_writes c.trace hall
  exact ⟨text, [], text, rfl, by simp [IsGap], htext⟩

/-- **Image and round trip.** Every document that is read from a text is lexable; a lexable document
is read back from every text that it can be written as; and there is such a text. -/
theorem front_end_image :
    (∀ (source : String) (c : Document), documentOf source = .ok c → c.Lexable) ∧
    (∀ (c : Document) (text : List Char), c.Lexable → c.IsWrittenAs text →
      documentOf (String.ofList text) = .ok c) ∧
    ∀ c : Document, c.Lexable → ∃ text, c.IsWrittenAs text :=
  ⟨fun _ _ h => lexable_of_documentOf h, fun _ _ hc h => documentOf_of_isWrittenAs hc h,
    fun _ hc => exists_isWrittenAs hc⟩

end ConfigLang
