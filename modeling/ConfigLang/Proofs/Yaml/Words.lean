import ConfigLang.Proofs.Json.NumberTexts
import ConfigLang.Yaml.Block

/-!
# Words of YAML

What stands in YAML text without quotes and without lines of its own: a null, a boolean, a number,
an empty collection, or a string that readers take for nothing else. Such a word stands for one
value only, if all NaNs count as one.

* `isIntegerText_integer`, `isFloatText_write`: numbers are written as what readers take for
  numbers.
* `readWord_written`: words that are no strings are read back.
* `written_unique`: what a leaf of a value is written as determines it.
-/

namespace ConfigLang

namespace Yaml

open Json Lexer

/-! ## What numbers read as -/

theorem hexDigitValue_of_isDigit {c : Char} (h : c.isDigit) :
    Text.isHexDigit c ∧ Text.hexDigitValue c < 10 ∧
      Text.hexDigitValue c = c.toNat - '0'.toNat := by
  have hvalue : Text.hexDigitValue c = c.toNat - '0'.toNat := if_pos h
  have hnine : c.toNat ≤ '9'.toNat := by
    simp only [Char.isDigit, Bool.and_eq_true, decide_eq_true_eq] at h
    exact h.2
  refine ⟨by simp [Text.isHexDigit, h], ?_, hvalue⟩
  rw [hvalue]
  have hzero : '0'.toNat = 48 := rfl
  have hlimit : '9'.toNat = 57 := rfl
  omega

theorem digitsValue?_of_isDigits {cs : List Char} (h : IsDigits cs) :
    digitsValue? 10 cs = some (Nat.ofDigitChars 10 cs 0) := by
  have hall : (cs.all fun c => Text.isHexDigit c && decide (Text.hexDigitValue c < 10)) = true := by
    rw [List.all_eq_true]
    intro c hc
    obtain ⟨hhex, hlt, -⟩ := hexDigitValue_of_isDigit (h.2 c hc)
    simp [hhex, hlt]
  have hfold (n : Nat) :
      cs.foldl (fun n c => 10 * n + Text.hexDigitValue c) n = Nat.ofDigitChars 10 cs n := by
    obtain ⟨-, hdigits⟩ := h
    clear hall
    induction cs generalizing n with
    | nil => rfl
    | cons c cs ih =>
      obtain ⟨hc, hcs⟩ := List.forall_mem_cons.1 hdigits
      rw [List.foldl_cons, Nat.ofDigitChars_cons, (hexDigitValue_of_isDigit hc).2.2]
      exact ih _ hcs
  have hne : cs.isEmpty = false := by simpa using h.1
  unfold digitsValue?
  rw [hall, hne, hfold]
  rfl

theorem isWholeBelow_of_isDigits {limit : Nat} {cs : List Char} (h : IsDigits cs)
    (hlt : Nat.ofDigitChars 10 cs 0 < limit) : isWholeBelow limit cs := by
  simp [isWholeBelow, digitsValue?_of_isDigits h, hlt]

/-- Readers take the text of an integer for one. -/
theorem isIntegerText_integer (n : Int32) : isIntegerText (toString n.toInt).toList := by
  have hrange : -0x80000000 ≤ n.toInt ∧ n.toInt < 0x80000000 := ⟨n.le_toInt, n.toInt_lt⟩
  rw [Int.toString_eq_repr, Int.repr_eq_if]
  split
  · have hdigits := isDigits_toDigits n.toInt.toNat
    have hlt : n.toInt.toNat < Nat.pow 2 128 :=
      Nat.lt_of_lt_of_le (by omega : n.toInt.toNat < 0x80000000) (by decide)
    rw [← Nat.ofDigitChars_ten_toDigits (n := n.toInt.toNat)] at hlt
    rw [Nat.toList_repr]
    cases hcs : Nat.toDigits 10 n.toInt.toNat with
    | nil => exact absurd hcs Nat.toDigits_ne_nil
    | cons d cs =>
      rw [hcs] at hdigits hlt
      rw [isIntegerText]
      · exact isWholeBelow_of_isDigits hdigits hlt
      · exact fun _ h => hdigits.head_ne (by decide) (List.cons.inj h).1
      · exact fun _ h => hdigits.head_ne (by decide) (List.cons.inj h).1
  · have hlt : (-n.toInt).toNat < Nat.pow 2 127 + 1 :=
      Nat.lt_of_le_of_lt (by omega : (-n.toInt).toNat ≤ 0x80000000) (by decide)
    rw [← Nat.ofDigitChars_ten_toDigits (n := (-n.toInt).toNat)] at hlt
    rw [String.toList_append, Nat.toList_repr]
    exact isWholeBelow_of_isDigits (isDigits_toDigits _) hlt

/-- The number of an exponent, as readers of YAML take it. -/
def exponentRead? : List Char → Option Int
  | [] => some 0
  | e :: rest =>
    if e = 'e' ∨ e = 'E' then
      match rest with
      | '-' :: digits => (digitsValue? 10 digits).map fun n => -(n : Int)
      | '+' :: digits => (digitsValue? 10 digits).map fun n => (n : Int)
      | digits => (digitsValue? 10 digits).map fun n => (n : Int)
    else none

theorem exponentRead?_of_isExponent {exponent : List Char} (h : IsExponent exponent) :
    exponentRead? exponent = some (exponentValue exponent) := by
  rcases h with rfl | ⟨e, sign, digits, he, hs, hd, rfl⟩
  · rfl
  · have hread := digitsValue?_of_isDigits hd
    rcases hs with (rfl | rfl) | rfl
    · cases digits with
      | nil => exact absurd rfl hd.1
      | cons d digits =>
        have hminus : d ≠ '-' := hd.head_ne (by decide)
        have hplus : d ≠ '+' := hd.head_ne (by decide)
        show exponentRead? (e :: d :: digits) = some (exponentValue (e :: d :: digits))
        rw [exponentValue_unsigned hd]
        simp [exponentRead?, he, hminus, hplus, hread]
    · simp [exponentRead?, he, hread, exponentValue]
    · simp [exponentRead?, he, hread, exponentValue]

/-- Where the digits and the fraction of a number end, its exponent is read. -/
theorem floatMagnitude?_eq {whole fraction exponent : List Char} (hw : IsDigits whole)
    (hf : IsFraction fraction) (he : IsExponent exponent) :
    floatMagnitude? (whole ++ (fraction ++ exponent)) =
      (exponentRead? exponent).map fun e =>
        Binary64.decimalMagnitude (Nat.ofDigitChars 10 (whole ++ fraction.drop 1) 0)
          (e - (fraction.drop 1).length) := by
  have hstops : Stops Char.isDigit exponent := by
    have hstops := stops_exponent (p := Char.isDigit) (by decide) (by decide) he stops_nil
    rwa [List.append_nil] at hstops
  have hrest := stops_fraction (p := Char.isDigit) (by decide) hf hstops
  obtain ⟨d, whole, rfl⟩ := List.exists_cons_of_ne_nil hw.1
  unfold floatMagnitude?
  rw [takeWhile_append_of_stops hw.2 hrest, dropWhile_append_of_stops hw.2 hrest]
  rcases hf with rfl | ⟨digits, hd, rfl⟩
  · -- No exponent starts with a point.
    rcases he with rfl | ⟨e, sign, digits, hletter, hs, hd, rfl⟩
    · rfl
    · rcases hletter with rfl | rfl <;> rfl
  · show (exponentRead? ((digits ++ exponent).dropWhile Char.isDigit)).map (fun e =>
      Binary64.decimalMagnitude
        (Nat.ofDigitChars 10 (d :: whole ++ (digits ++ exponent).takeWhile Char.isDigit) 0)
        (e - ((digits ++ exponent).takeWhile Char.isDigit).length)) = _
    rw [takeWhile_append_of_stops hd.2 hstops, dropWhile_append_of_stops hd.2 hstops]
    rfl

/-- A text that denotes a magnitude as a float does so to readers of YAML. -/
theorem floatMagnitude?_of_reads {text : List Char} {magnitude : Nat} (h : Reads text magnitude) :
    floatMagnitude? text = some magnitude := by
  obtain ⟨whole, fraction, exponent, rfl, hw, hf, he, -, rfl⟩ := h
  rw [floatMagnitude?_eq hw.1 hf he, exponentRead?_of_isExponent he]
  rfl

theorem isFloatText_of_reads {sign text : List Char} {magnitude : Nat} (hs : IsSign sign)
    (h : Reads text magnitude) (hlt : magnitude < Binary64.infinityMagnitude) :
    isFloatText (sign ++ text) := by
  have hread := floatMagnitude?_of_reads h
  rcases hs with rfl | rfl
  · obtain ⟨whole, fraction, exponent, rfl, hw, -⟩ := h
    cases whole with
    | nil => exact absurd rfl hw.1.1
    | cons d whole =>
      have hminus : d ≠ '-' := hw.1.head_ne (by decide)
      have hplus : d ≠ '+' := hw.1.head_ne (by decide)
      rw [List.cons_append] at hread
      simp [isFloatText, hminus, hplus, hread, hlt]
  · simp [isFloatText, hread, hlt]

/-! ## The texts of floating-point numbers -/

/-- A number that is neither finite nor a NaN is an infinity. -/
theorem eq_infinity {x : Binary64} (hfinite : x.isFinite = false) (hnan : x.isNaN = false) :
    x = .ofMagnitude x.isNegative Binary64.infinityMagnitude := by
  have hge := of_decide_eq_false hfinite
  have hle := of_decide_eq_false hnan
  have hmagnitude : x.magnitude = Binary64.infinityMagnitude := by omega
  rw [← hmagnitude, Binary64.ofMagnitude_self]

/-- The three forms of a floating-point number in YAML. -/
theorem write_cases (x : Binary64) :
    (x.isNaN ∧ FloatStyle.yaml.write x = ['.', 'n', 'a', 'n']) ∨
      (x.isNaN = false ∧ x = .ofMagnitude x.isNegative Binary64.infinityMagnitude ∧
        FloatStyle.yaml.write x = (if x.isNegative then ['-'] else []) ++ ['.', 'i', 'n', 'f']) ∨
      (x.isNaN = false ∧ x.isFinite) := by
  by_cases hnan : x.isNaN
  · left
    exact ⟨hnan, if_pos hnan⟩
  · have hnan := Bool.eq_false_iff.2 hnan
    by_cases hfinite : x.isFinite
    · exact .inr (.inr ⟨hnan, hfinite⟩)
    · have hfinite := Bool.eq_false_iff.2 hfinite
      refine .inr (.inl ⟨hnan, eq_infinity hfinite hnan, ?_⟩)
      unfold FloatStyle.write
      rw [hnan, hfinite]
      cases x.isNegative <;> rfl

/-- Readers take the text of a floating-point number for one. -/
theorem isFloatText_write (x : Binary64) : isFloatText (FloatStyle.yaml.write x) := by
  rcases write_cases x with ⟨-, htext⟩ | ⟨-, -, htext⟩ | ⟨-, hfinite⟩
  · rw [htext]
    decide
  · rw [htext]
    cases x.isNegative <;> decide
  · obtain ⟨d, hmagnitude, htext⟩ := exists_decimal FloatStyle.yaml hfinite
    have hsign : IsSign (if x.isNegative then ['-'] else []) := by
      cases x.isNegative
      · exact .inl rfl
      · exact .inr rfl
    have hlt := Binary64.magnitude_lt hfinite
    rw [← hmagnitude] at hlt
    rw [htext]
    exact isFloatText_of_reads hsign (writeDecimal_reads rfl d) hlt

/-! ## Words -/

/-- What can stand without quotes: a text on one line that starts like no other style and no mark
of a collection, and in which no colon ends a key. -/
structure IsWord (w : List Char) : Prop where
  head : ∃ c cs, w = c :: cs ∧ c ≠ ' ' ∧ c ≠ '|' ∧ c ≠ '\'' ∧ c ≠ '"'
  noMark : ∀ c cs, w = c :: ' ' :: cs → c ≠ '-' ∧ c ≠ '?'
  noBreak : ∀ c ∈ w, isBreak c = false
  noColon : hasPair (· == ':') isBlank w = false
  noFinalColon : w.getLast? ≠ some ':'

theorem hasPair_of_forall {p q : Char → Bool} {s : List Char} (h : ∀ c ∈ s, p c = false) :
    hasPair p q s = false := by
  fun_induction hasPair p q s with
  | case1 c d s ih =>
    obtain ⟨hc, hs⟩ := List.forall_mem_cons.1 h
    simp [hc, ih hs]
  | case2 s hs => rfl

/-- A string without quotes is taken for nothing else. -/
theorem plain_safe {s : List Char} (h : styleOf s = .plain) :
    readsAsOther s = false ∧ isPlainUnsafe s = false := by
  unfold styleOf at h
  split at h
  · cases h
  split at h
  · split at h <;> cases h
  split at h
  · split at h <;> cases h
  · rename_i hsafe
    simpa using hsafe

theorem isWord_of_plain {s : List Char} (h : styleOf s = .plain) : IsWord s := by
  obtain ⟨hother, hunsafe⟩ := plain_safe h
  simp only [isPlainUnsafe, Bool.or_eq_false_iff, startsOtherwise, hasInnerIndicator] at hunsafe
  obtain ⟨⟨⟨⟨⟨⟨⟨hindicator, -⟩, -⟩, hmark⟩, ⟨hcolon, hfinal⟩, -⟩, hspace⟩, -⟩, hbreak⟩ := hunsafe
  cases s with
  | nil => exact absurd hother (by decide)
  | cons c cs =>
    refine ⟨⟨c, cs, rfl, by simpa using hspace, ?_, ?_, ?_⟩, ?_, ?_, hcolon, by simpa using hfinal⟩
    · rintro rfl
      exact absurd hindicator (by simp; decide)
    · rintro rfl
      exact absurd hindicator (by simp; decide)
    · rintro rfl
      exact absurd hindicator (by simp; decide)
    · intro d ds hcs
      obtain ⟨rfl, rfl⟩ := List.cons.inj hcs
      constructor
      · rintro rfl
        simp [isBlank] at hmark
      · rintro rfl
        simp [isBlank] at hmark
    · simpa using hbreak

/-- What stands in words that are no strings. -/
def isWordChar (c : Char) : Bool := !isBlank c && c ∉ [':', '|', '\'', '"']

theorem isWord_of_all {w : List Char} (hne : w ≠ []) (h : ∀ c ∈ w, isWordChar c) : IsWord w := by
  have hchar {c : Char} (hc : c ∈ w) :
      isBlank c = false ∧ c ≠ ':' ∧ c ≠ '|' ∧ c ≠ '\'' ∧ c ≠ '"' := by
    simpa [isWordChar] using h c hc
  have hspace {c : Char} (hc : isBlank c = false) : c ≠ ' ' := by
    rintro rfl
    cases hc
  obtain ⟨c, cs, rfl⟩ := List.exists_cons_of_ne_nil hne
  obtain ⟨hblank, -, hbar, hsingle, hdouble⟩ := hchar List.mem_cons_self
  refine ⟨⟨c, cs, rfl, hspace hblank, hbar, hsingle, hdouble⟩, ?_, ?_, ?_, ?_⟩
  · intro d ds hcs
    have hmem : ' ' ∈ c :: cs := by simp [hcs]
    exact absurd rfl (hspace (hchar hmem).1)
  · intro d hd
    have hd := (hchar hd).1
    simp only [isBlank, Bool.or_eq_false_iff] at hd
    exact hd.2
  · exact hasPair_of_forall fun d hd => by simpa using (hchar hd).2.1
  · intro hlast
    exact (hchar (List.mem_of_getLast? hlast)).2.1 rfl

theorem isWordChar_of_isDigit {c : Char} (h : c.isDigit) : isWordChar c := by
  have hne {d : Char} (hd : d.isDigit = false) : c ≠ d := by
    rintro rfl
    rw [h] at hd
    cases hd
  have hblank : isBlank c = false := by
    simp [isBlank, isBreak, hne (d := ' ') (by decide), hne (d := '\t') (by decide),
      hne (d := '\r') (by decide), hne (d := '\n') (by decide), hne (d := '\x85') (by decide),
      hne (d := '\u2028') (by decide), hne (d := '\u2029') (by decide)]
  simp [isWordChar, hblank, hne (d := ':') (by decide), hne (d := '|') (by decide),
    hne (d := '\'') (by decide), hne (d := '"') (by decide)]

theorem isWord_of_isNumber {v : Value} {text : List Char} (h : IsNumber v text) : IsWord text := by
  obtain ⟨c, cs, htext, -⟩ := h.head
  apply isWord_of_all (by simp [htext])
  obtain ⟨sign, whole, fraction, exponent, rfl, hs, hw, hf, he, -⟩ := h
  have hdigits {ds : List Char} (hds : IsDigits ds) : ∀ c ∈ ds, isWordChar c := fun c hc =>
    isWordChar_of_isDigit (hds.2 c hc)
  have hsign {ds : List Char} (hds : IsSign ds ∨ ds = ['+']) : ∀ c ∈ ds, isWordChar c := by
    rcases hds with (rfl | rfl) | rfl
    · exact fun c hc => absurd hc List.not_mem_nil
    · exact List.forall_mem_singleton.2 (by decide)
    · exact List.forall_mem_singleton.2 (by decide)
  simp only [List.forall_mem_append]
  refine ⟨hsign (.inl hs), hdigits hw.1, ?_, ?_⟩
  · rcases hf with rfl | ⟨digits, hd, rfl⟩
    · exact fun c hc => absurd hc List.not_mem_nil
    · exact List.forall_mem_cons.2 ⟨by decide, hdigits hd⟩
  · rcases he with rfl | ⟨e, sign, digits, hletter, hs, hd, rfl⟩
    · exact fun c hc => absurd hc List.not_mem_nil
    · have hletter : isWordChar e := by
        rcases hletter with rfl | rfl <;> decide
      exact List.forall_mem_cons.2 ⟨hletter, List.forall_mem_append.2 ⟨hsign hs, hdigits hd⟩⟩

/-! ## Leaves -/

end Yaml

/-- The NaN that stands for all. -/
def Binary64.someNaN : Binary64 := ⟨0x7FF8000000000000⟩

mutual

/-- A value with every NaN in it replaced by one. -/
def Value.withOneNaN : Value → Value
  | .float x => .float (if x.isNaN then .someNaN else x)
  | .array items => .array (itemsWithOneNaN items)
  | .object fields => .object (fieldsWithOneNaN fields)
  | .null => .null
  | .bool b => .bool b
  | .integer n => .integer n
  | .string s => .string s

def itemsWithOneNaN : List Value → List Value
  | [] => []
  | v :: vs => v.withOneNaN :: itemsWithOneNaN vs

def fieldsWithOneNaN : List (String × Value) → List (String × Value)
  | [] => []
  | (k, v) :: fs => (k, v.withOneNaN) :: fieldsWithOneNaN fs

end

/-- A value that is no collection, or an empty one. -/
def Value.IsLeaf : Value → Prop
  | .array (_ :: _) | .object (_ :: _) => False
  | _ => True

namespace Yaml

open Json Lexer

/-- The style and the content in which a leaf is written. -/
def written : Value → Style × List Char
  | .null => (.plain, ['n', 'u', 'l', 'l'])
  | .bool true => (.plain, ['t', 'r', 'u', 'e'])
  | .bool false => (.plain, ['f', 'a', 'l', 's', 'e'])
  | .integer n => (.plain, (toString n.toInt).toList)
  | .float x => (.plain, FloatStyle.yaml.write x)
  | .string s => (styleOf s.toList, s.toList)
  | .array _ => (.plain, ['[', ']'])
  | .object _ => (.plain, ['\x7b', '\x7d'])

/-- Words that are neither strings nor finite numbers. -/
def namedWords : List (List Char × Value) := [
  (['n', 'u', 'l', 'l'], .null), (['t', 'r', 'u', 'e'], .bool true),
  (['f', 'a', 'l', 's', 'e'], .bool false), (['[', ']'], .array []),
  (['\x7b', '\x7d'], .object []), (['.', 'n', 'a', 'n'], .float .someNaN),
  (['.', 'i', 'n', 'f'], .float (.ofMagnitude false Binary64.infinityMagnitude)),
  (['-', '.', 'i', 'n', 'f'], .float (.ofMagnitude true Binary64.infinityMagnitude))]

/-- The leaf that a word stands for, if it is no string. -/
def readWord? (w : List Char) : Option Value :=
  match readNumber w with
  | some (v, _) => some v
  | none => namedWords.lookup w

theorem readWord?_of_isNumber {v : Value} {text : List Char} (h : IsNumber v text) :
    readWord? text = some v := by
  rw [readWord?, h.read]

/-- A word that readers take for a leaf which is no string, and for which one. -/
structure Names (w : List Char) (v : Value) : Prop where
  isWord : IsWord w
  other : readsAsOther w ∨ isPlainUnsafe w
  read : readWord? w = some v

theorem readsAsOther_of_isIntegerText {s : List Char} (h : isIntegerText s) : readsAsOther s := by
  simp [readsAsOther, h]

theorem readsAsOther_of_isFloatText {s : List Char} (h : isFloatText s) : readsAsOther s := by
  simp [readsAsOther, h]

theorem names_of_all {w : List Char} {v : Value} (hne : w ≠ []) (hchars : w.all isWordChar)
    (hother : readsAsOther w ∨ isPlainUnsafe w) (hread : readWord? w = some v) : Names w v :=
  ⟨isWord_of_all hne (List.all_eq_true.1 hchars), hother, hread⟩

theorem names_integer (n : Int32) : Names (toString n.toInt).toList (.integer n) where
  isWord := isWord_of_isNumber (isNumber_integer n)
  other := .inl (readsAsOther_of_isIntegerText (isIntegerText_integer n))
  read := readWord?_of_isNumber (isNumber_integer n)

theorem names_float (x : Binary64) :
    Names (FloatStyle.yaml.write x) (Value.float x).withOneNaN := by
  have hother := readsAsOther_of_isFloatText (isFloatText_write x)
  rw [Value.withOneNaN]
  rcases write_cases x with ⟨hnan, htext⟩ | ⟨hnan, hx, htext⟩ | ⟨hnan, hfinite⟩
  · rw [htext] at hother ⊢
    rw [if_pos hnan]
    exact names_of_all (by simp) (by decide) (.inl hother) rfl
  · rw [htext] at hother ⊢
    rw [hnan]
    cases hsign : x.isNegative with
    | false =>
      rw [hsign] at hx hother
      refine names_of_all (by simp) (by decide) (.inl hother) ?_
      rw [hx]
      rfl
    | true =>
      rw [hsign] at hx hother
      refine names_of_all (by simp) (by decide) (.inl hother) ?_
      rw [hx]
      rfl
  · have hnumber : IsNumber (.float x) (FloatStyle.yaml.write x) := isNumber_write rfl hfinite
    rw [hnan]
    exact ⟨isWord_of_isNumber hnumber, .inl hother, readWord?_of_isNumber hnumber⟩

/-- A leaf that is no string is written as a word for itself. -/
theorem names_written {v : Value} (hleaf : v.IsLeaf) (hv : v.kind ≠ .string) :
    ∃ w, written v = (.plain, w) ∧ Names w v.withOneNaN := by
  cases v with
  | null => exact ⟨_, rfl, names_of_all (by simp) (by decide) (.inl (by decide)) rfl⟩
  | bool b =>
    cases b with
    | true => exact ⟨_, rfl, names_of_all (by simp) (by decide) (.inl (by decide)) rfl⟩
    | false => exact ⟨_, rfl, names_of_all (by simp) (by decide) (.inl (by decide)) rfl⟩
  | integer n => exact ⟨_, rfl, names_integer n⟩
  | float x => exact ⟨_, rfl, names_float x⟩
  | string s => exact absurd rfl hv
  | array items =>
    cases items with
    | nil => exact ⟨_, rfl, names_of_all (by simp) (by decide) (.inr (by decide)) rfl⟩
    | cons v vs => exact hleaf.elim
  | object fields =>
    cases fields with
    | nil => exact ⟨_, rfl, names_of_all (by simp) (by decide) (.inr (by decide)) rfl⟩
    | cons f fs => exact hleaf.elim

/-- No string without quotes is a word for something else. -/
theorem Names.not_plain {w : List Char} {v : Value} (h : Names w v) : styleOf w ≠ .plain := by
  intro hplain
  obtain ⟨hother, hunsafe⟩ := plain_safe hplain
  rcases h.other with h | h
  · rw [h] at hother
    cases hother
  · rw [h] at hunsafe
    cases hunsafe

/-- What is written without quotes is a word. -/
theorem isWord_written {v : Value} {w : List Char} (hleaf : v.IsLeaf)
    (hw : written v = (.plain, w)) : IsWord w := by
  by_cases hv : v.kind = .string
  · cases v with
    | string s =>
      obtain ⟨hstyle, rfl⟩ := Prod.mk.inj hw
      exact isWord_of_plain hstyle
    | _ => cases hv
  · obtain ⟨w', hw', hnames⟩ := names_written hleaf hv
    obtain ⟨-, rfl⟩ := Prod.mk.inj (hw'.symm.trans hw)
    exact hnames.isWord

theorem written_string_ne {s : String} {v : Value} (hleaf : v.IsLeaf) (hv : v.kind ≠ .string) :
    written (.string s) ≠ written v := by
  intro h
  obtain ⟨w, hw, hnames⟩ := names_written hleaf hv
  rw [hw] at h
  obtain ⟨hstyle, rfl⟩ := Prod.mk.inj h
  exact hnames.not_plain hstyle

/-- What a leaf is written as determines it, up to NaNs. -/
theorem written_unique {v w : Value} (hv : v.IsLeaf) (hw : w.IsLeaf)
    (h : written v = written w) : v.withOneNaN = w.withOneNaN := by
  by_cases hvs : v.kind = .string
  · by_cases hws : w.kind = .string
    · cases v <;> cases hvs
      cases w <;> cases hws
      obtain ⟨-, hchars⟩ := Prod.mk.inj h
      rw [String.toList_inj.1 hchars]
    · cases v <;> cases hvs
      exact absurd h (written_string_ne hw hws)
  · by_cases hws : w.kind = .string
    · cases w <;> cases hws
      exact absurd h.symm (written_string_ne hv hvs)
    · obtain ⟨text, htext, hnames⟩ := names_written hv hvs
      obtain ⟨text', htext', hnames'⟩ := names_written hw hws
      obtain ⟨-, rfl⟩ := Prod.mk.inj (htext.symm.trans (h.trans htext'))
      exact Option.some.inj (hnames.read.symm.trans hnames'.read)

end Yaml

end ConfigLang
