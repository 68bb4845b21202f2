import ConfigLang.Text.InversionList

/-!
# White space

The code points with the property White_Space.
-/

namespace ConfigLang.Text

/-- Every code point with the property White_Space. -/
def whiteSpace : InversionList := ⟨[
  9, 14, 32, 33, 133, 134, 160, 161, 0x1680, 0x1681, 0x2000, 0x200B, 0x2028, 0x202A, 0x202F,
  0x2030, 0x205F, 0x2060, 0x3000, 0x3001]⟩

/-- White space between tokens. -/
def isBlank (c : Char) : Bool := whiteSpace.contains c.toNat

/-- `isBlank` contains the white space of ASCII. -/
theorem isBlank_of_isWhitespace {c : Char} (h : c.isWhitespace) : isBlank c := by
  simp only [Char.isWhitespace, Bool.or_eq_true, decide_eq_true_eq] at h
  rcases h with ((rfl | rfl) | rfl) | rfl <;> decide

end ConfigLang.Text
