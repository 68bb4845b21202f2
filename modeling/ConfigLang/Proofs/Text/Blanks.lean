import ConfigLang.Lexer.Scan

/-!
# White space and names

No white space is a letter, a numeral or a digit, so white space ends every name and number.

* `InversionList.exists_interval`: a code point of a set lies between two of its bounds.
* `isNameChar_of_isBlank`: white space does not continue a name.
-/

namespace ConfigLang

namespace Text.InversionList

/-- The intervals of a set that ends: each from the bound that enters it to the one that leaves. -/
def intervals : List Nat → List (Nat × Nat)
  | a :: b :: bounds => (a, b) :: intervals bounds
  | _ => []

theorem exists_interval {bounds : List Nat} {n : Nat} (heven : bounds.length % 2 = 0)
    (h : containsFrom false bounds n) : ∃ i ∈ intervals bounds, i.1 ≤ n ∧ n < i.2 := by
  fun_induction intervals bounds with
  | case1 a b bounds ih =>
    by_cases ha : n < a
    · rw [containsFrom_of_lt ha] at h
      cases h
    rw [containsFrom_of_le (by omega)] at h
    by_cases hb : n < b
    · exact ⟨(a, b), List.mem_cons_self, by omega, hb⟩
    · rw [containsFrom_of_le (by omega)] at h
      simp only [List.length_cons] at heven
      obtain ⟨i, hi, hn⟩ := ih (by omega) h
      exact ⟨i, List.mem_cons_of_mem _ hi, hn⟩
  | case2 bounds hbounds =>
    match bounds with
    | [] => cases h
    | [a] => simp at heven
    | a :: b :: bounds => exact absurd rfl (hbounds a b bounds)

end Text.InversionList

open Text (isBlank)

/-- Whether a code point above ASCII is a letter or a numeral. -/
def isWordPoint (n : Nat) : Bool := Text.alphabetic.contains n || Text.numeric.contains n

theorem blank_intervals_spec :
    ∀ i ∈ Text.InversionList.intervals Text.whiteSpace.bounds,
      ∀ k < i.2 - i.1, isWordPoint (i.1 + k) = false ∧
        (i.1 + k < 128 → Lexer.isNameChar (Char.ofNat (i.1 + k)) = false) := by
  decide +kernel

/-- White space does not continue a name. -/
theorem isNameChar_of_isBlank {c : Char} (h : isBlank c) : Lexer.isNameChar c = false := by
  obtain ⟨i, hi, hlo, hhi⟩ := Text.InversionList.exists_interval (by decide) h
  obtain ⟨hword, hascii⟩ := blank_intervals_spec i hi (c.toNat - i.1) (by omega)
  rw [Nat.add_sub_cancel' hlo] at hword hascii
  by_cases hc : c.toNat < 128
  · rw [← Char.ofNat_toNat c]
    exact hascii hc
  · have hunderscore : c ≠ '_' := by
      rintro rfl
      exact hc (by decide)
    simp only [isWordPoint, Bool.or_eq_false_iff] at hword
    simp [Lexer.isNameChar, Text.isLetter, Text.isNumeral, hc, hword, hunderscore]

theorem isNameChar_of_isNameStart {c : Char} (h : Lexer.isNameStart c) : Lexer.isNameChar c := by
  simp only [Lexer.isNameStart, Lexer.isNameChar, Bool.or_eq_true] at h ⊢
  rcases h with hletter | hunderscore
  · exact .inl (.inl hletter)
  · exact .inr hunderscore

theorem isNameChar_of_isDigit {c : Char} (h : c.isDigit) : Lexer.isNameChar c := by
  have hc : c.toNat < 128 := by
    have hrange : 48 ≤ c.toNat ∧ c.toNat ≤ 57 := by
      simpa [Char.isDigit, UInt32.le_iff_toNat_le] using h
    omega
  simp [Lexer.isNameChar, Text.isNumeral_of_ascii hc, h]

/-- White space is no digit. -/
theorem isBlank_of_isDigit {c : Char} (h : c.isDigit) : isBlank c = false := by
  cases hblank : isBlank c with
  | false => rfl
  | true =>
    have hname := isNameChar_of_isBlank hblank
    rw [isNameChar_of_isDigit h] at hname
    cases hname

theorem isDigit_of_isBlank {c : Char} (h : isBlank c) : c.isDigit = false := by
  cases hdigit : c.isDigit with
  | false => rfl
  | true =>
    rw [isBlank_of_isDigit hdigit] at h
    cases h

theorem toNat_lt_of_isHexDigit {c : Char} (h : Text.isHexDigit c) : c.toNat < 128 := by
  simp only [Text.isHexDigit, Char.isDigit, Bool.or_eq_true, Bool.and_eq_true, decide_eq_true_eq,
    Char.le_def, UInt32.le_iff_toNat_le] at h
  have h9 : ('9' : Char).val.toNat = 57 := rfl
  have hf : ('f' : Char).val.toNat = 102 := rfl
  have hF : ('F' : Char).val.toNat = 70 := rfl
  unfold Char.toNat
  omega

/-- White space is no hexadecimal digit. -/
theorem isHexDigit_of_isBlank {c : Char} (h : isBlank c) : Text.isHexDigit c = false := by
  have hascii : ∀ n < 128, isBlank (Char.ofNat n) → Text.isHexDigit (Char.ofNat n) = false := by
    decide
  cases hhex : Text.isHexDigit c with
  | false => rfl
  | true =>
    have hc := hascii c.toNat (toNat_lt_of_isHexDigit hhex)
    rw [Char.ofNat_toNat, hhex] at hc
    exact hc h

end ConfigLang
