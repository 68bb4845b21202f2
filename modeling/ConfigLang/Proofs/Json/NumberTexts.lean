import ConfigLang.Json
import ConfigLang.Json.Reader
import ConfigLang.Proofs.Lexer.FrontEnd
import ConfigLang.Proofs.Binary64.ShortestDecimals

/-!
# Numbers written and read

A number that JSON has is read back from the text in which it is written: integers without a
fraction or an exponent, floating-point numbers with one of them.

* `readNumber_append`: a number is read by its parts, where nothing goes on with it.
* `writeDecimal_reads`: the text of a decimal has such parts, and they denote the decimal.
* `isNumber_integer`, `isNumber_write`: so both kinds of numbers are written as what they are.
-/

namespace ConfigLang.Json

open Lexer

/-! ## Reading the parts of a number -/

/-- What would go on with a number. -/
def goesOn (c : Char) : Bool := c.isDigit || c == '.' || c == 'e' || c == 'E'

/-- Digits without a needless zero before the others. -/
def IsWhole (cs : List Char) : Prop := IsDigits cs ∧ (cs.head? = some '0' → cs = ['0'])

/-- A point and digits, or nothing. -/
def IsFraction (cs : List Char) : Prop := cs = [] ∨ ∃ digits, IsDigits digits ∧ cs = '.' :: digits

theorem stops_digit {rest : List Char} (h : Stops goesOn rest) : Stops Char.isDigit rest := by
  intro c hc
  have hgoes := h c hc
  simp only [goesOn, Bool.or_eq_false_iff] at hgoes
  exact hgoes.1.1.1

theorem stops_point {rest : List Char} (h : Stops goesOn rest) : Stops (· == '.') rest := by
  intro c hc
  have hgoes := h c hc
  simp only [goesOn, Bool.or_eq_false_iff] at hgoes
  exact hgoes.1.1.2

theorem stops_exponent {p : Char → Bool} (hlower : p 'e' = false) (hupper : p 'E' = false)
    {exponent rest : List Char} (h : IsExponent exponent) (hrest : Stops p rest) :
    Stops p (exponent ++ rest) := by
  rcases h with rfl | ⟨e, sign, digits, he, -, -, rfl⟩
  · exact hrest
  · rcases he with rfl | rfl
    · exact stops_cons.2 hlower
    · exact stops_cons.2 hupper

theorem stops_fraction {p : Char → Bool} (hpoint : p '.' = false) {fraction rest : List Char}
    (h : IsFraction fraction) (hrest : Stops p rest) : Stops p (fraction ++ rest) := by
  rcases h with rfl | ⟨digits, -, rfl⟩
  · exact hrest
  · exact stops_cons.2 hpoint

theorem fractionOf_append {fraction rest : List Char} (h : IsFraction fraction)
    (hdigit : Stops Char.isDigit rest) (hpoint : Stops (· == '.') rest) :
    fractionOf (fraction ++ rest) = fraction := by
  rcases h with rfl | ⟨digits, hdigits, rfl⟩
  · cases rest with
    | nil => rfl
    | cons c rest =>
      have hc : c ≠ '.' := by simpa using stops_cons.1 hpoint
      simp [fractionOf, hc]
  · cases digits with
    | nil => exact absurd rfl hdigits.1
    | cons d digits =>
      rw [List.cons_append, fractionOf, takeWhile_append_of_stops hdigits.2 hdigit]

theorem exponentOf_append {exponent rest : List Char} (h : IsExponent exponent)
    (hrest : Stops goesOn rest) : exponentOf (exponent ++ rest) = exponent := by
  by_cases hne : exponent = []
  · subst hne
    cases rest with
    | nil => rfl
    | cons c rest =>
      have hc := stops_cons.1 hrest
      have he : ¬ (c = 'e' ∨ c = 'E') := by
        intro h
        rcases h with rfl | rfl <;> revert hc <;> decide
      simp [exponentOf, he]
  · exact (exponentOf_append_iff h hne).2 (stops_digit hrest)

/-- The text has the parts of a number, and they denote the value. -/
def IsNumber (v : Value) (text : List Char) : Prop :=
  ∃ sign whole fraction exponent, text = sign ++ (whole ++ (fraction ++ exponent)) ∧
    IsSign sign ∧ IsWhole whole ∧ IsFraction fraction ∧ IsExponent exponent ∧
    numberValue? (!sign.isEmpty) whole fraction exponent = some v

theorem IsNumber.head {v : Value} {text : List Char} (h : IsNumber v text) :
    ∃ c cs, text = c :: cs ∧ (c = '-' ∨ c.isDigit) := by
  obtain ⟨sign, whole, fraction, exponent, rfl, hs, hw, -⟩ := h
  rcases hs with rfl | rfl
  · cases whole with
    | nil => exact absurd rfl hw.1.1
    | cons d whole => exact ⟨d, _, rfl, .inr (hw.1.2 d List.mem_cons_self)⟩
  · exact ⟨'-', _, rfl, .inl rfl⟩

/-- A number is read by its parts where nothing goes on with it. -/
theorem readNumber_append {v : Value} {text rest : List Char} (h : IsNumber v text)
    (hrest : Stops goesOn rest) : readNumber (text ++ rest) = some (v, rest) := by
  obtain ⟨sign, whole, fraction, exponent, rfl, hs, hw, hf, he, hvalue⟩ := h
  rw [List.append_assoc, List.append_assoc, List.append_assoc]
  have hdigit : Stops Char.isDigit (exponent ++ rest) :=
    stops_exponent (by decide) (by decide) he (stops_digit hrest)
  have hpoint : Stops (· == '.') (exponent ++ rest) :=
    stops_exponent (by decide) (by decide) he (stops_point hrest)
  have hfraction : Stops Char.isDigit (fraction ++ (exponent ++ rest)) :=
    stops_fraction (by decide) hf hdigit
  have hhead : ¬ (whole = [] ∨ whole.head? = some '0' ∧ whole ≠ ['0']) := by
    intro h
    rcases h with hnil | ⟨hzero, hne⟩
    · exact hw.1.1 hnil
    · exact hne (hw.2 hzero)
  -- The text without each of its parts in turn.
  have hwhole : ((sign ++ (whole ++ (fraction ++ (exponent ++ rest)))).drop sign.length).takeWhile
      Char.isDigit = whole := by
    rw [List.drop_left]
    exact takeWhile_append_of_stops hw.1.2 hfraction
  have hpart : fractionOf ((sign ++ (whole ++ (fraction ++ (exponent ++ rest)))).drop
      (sign ++ whole).length) = fraction := by
    rw [← List.append_assoc, List.drop_left]
    exact fractionOf_append hf hdigit hpoint
  have hpower : exponentOf ((sign ++ (whole ++ (fraction ++ (exponent ++ rest)))).drop
      (sign ++ whole ++ fraction).length) = exponent := by
    rw [← List.append_assoc, ← List.append_assoc, List.drop_left]
    exact exponentOf_append he hrest
  have hend : (sign ++ (whole ++ (fraction ++ (exponent ++ rest)))).drop
      (sign ++ whole ++ fraction ++ exponent).length = rest := by
    rw [← List.append_assoc, ← List.append_assoc, ← List.append_assoc, List.drop_left]
  unfold readNumber
  rw [signOf_append hs hw.1]
  dsimp only
  rw [hwhole, hpart, hpower, hend, if_neg hhead, hvalue]
  rfl

/-! ## The parts of a decimal -/

/-- The text has a fraction or an exponent, and denotes the magnitude. -/
def Reads (text : List Char) (magnitude : Nat) : Prop :=
  ∃ whole fraction exponent, text = whole ++ (fraction ++ exponent) ∧ IsWhole whole ∧
    IsFraction fraction ∧ IsExponent exponent ∧ (fraction.isEmpty && exponent.isEmpty) = false ∧
    Binary64.decimalMagnitude (Nat.ofDigitChars 10 (whole ++ fraction.drop 1) 0)
      (exponentValue exponent - (fraction.drop 1).length) = magnitude

theorem isDigits_append {a b : List Char} (ha : IsDigits a) (hb : ∀ c ∈ b, c.isDigit) :
    IsDigits (a ++ b) :=
  ⟨by simp [ha.1], List.forall_mem_append.2 ⟨ha.2, hb⟩⟩

theorem isDigit_zeros (k : Nat) : ∀ c ∈ List.replicate k '0', c.isDigit := by
  intro c hc
  rw [List.eq_of_mem_replicate hc]
  decide

theorem isWhole_of_head {cs : List Char} (h : IsDigits cs) (hne : cs.head? ≠ some '0') :
    IsWhole cs :=
  ⟨h, fun hzero => absurd hzero hne⟩

theorem isWhole_zero : IsWhole ['0'] := ⟨isDigits_of_all (by simp) (by decide), fun _ => rfl⟩

theorem reads_point {whole fraction : List Char} (hw : IsWhole whole) (hf : IsDigits fraction)
    {magnitude : Nat}
    (h : Binary64.decimalMagnitude (Nat.ofDigitChars 10 (whole ++ fraction) 0)
      (-fraction.length) = magnitude) :
    Reads (whole ++ '.' :: fraction) magnitude := by
  refine ⟨whole, '.' :: fraction, [], by simp, hw, .inr ⟨_, hf, rfl⟩, .inl rfl, rfl, ?_⟩
  show Binary64.decimalMagnitude _ (0 - (fraction.length : Int)) = _
  rw [Int.zero_sub]
  exact h

section
variable {digits : List Char} (h : IsDigits digits) (hne : digits.head? ≠ some '0')
include h

/-- Zeros before the digits do not count. -/
theorem pointed_below_reads (k : Nat) :
    Reads (FloatStyle.pointed true digits (.negSucc k))
      (Binary64.decimalMagnitude (Nat.ofDigitChars 10 digits 0)
        (.negSucc k + 1 - digits.length)) := by
  have hdigits : ∀ c ∈ List.replicate k '0' ++ digits, c.isDigit :=
    List.forall_mem_append.2 ⟨isDigit_zeros k, h.2⟩
  have htext : FloatStyle.pointed true digits (.negSucc k) =
      ['0'] ++ '.' :: (List.replicate k '0' ++ digits) := by
    simp [FloatStyle.pointed]
  have hvalue : Nat.ofDigitChars 10 (['0'] ++ (List.replicate k '0' ++ digits)) 0 =
      Nat.ofDigitChars 10 digits 0 := by
    rw [Nat.ofDigitChars_append, Nat.ofDigitChars_append, Nat.ofDigitChars_replicate_zero]
    rfl
  rw [htext]
  apply reads_point isWhole_zero ⟨by simp [h.1], hdigits⟩
  rw [hvalue, List.length_append, List.length_replicate, Int.negSucc_eq]
  congr 1
  omega

include hne

/-- Zeros behind the digits count as an exponent. -/
theorem pointed_whole_reads {k : Nat} (hlen : digits.length ≤ k + 1) :
    Reads (FloatStyle.pointed true digits (.ofNat k))
      (Binary64.decimalMagnitude (Nat.ofDigitChars 10 digits 0)
        (.ofNat k + 1 - digits.length)) := by
  have htext : FloatStyle.pointed true digits (.ofNat k) =
      (digits ++ List.replicate (k + 1 - digits.length) '0') ++ ['.', '0'] := by
    unfold FloatStyle.pointed
    dsimp only
    rw [List.drop_eq_nil_of_le hlen, List.take_of_length_le hlen]
    rfl
  have hzeros : List.replicate (k + 1 - digits.length) '0' ++ ['0'] =
      List.replicate (k + 1 - digits.length + 1) '0' := List.replicate_succ'.symm
  have hhead : (digits ++ List.replicate (k + 1 - digits.length) '0').head? ≠ some '0' := by
    rw [List.head?_append_of_ne_nil _ h.1]
    exact hne
  rw [htext]
  apply reads_point (isWhole_of_head (isDigits_append h (isDigit_zeros _)) hhead) isWhole_zero.1
  rw [List.append_assoc, hzeros, Nat.ofDigitChars_append, Nat.ofDigitChars_replicate_zero,
    Nat.mul_comm, Binary64.decimalMagnitude_shift]
  congr 1
  show -1 + ((k + 1 - digits.length + 1 : Nat) : Int) = (k : Int) + 1 - digits.length
  omega

/-- Digits on both sides of the point are those of the decimal. -/
theorem pointed_mixed_reads {k : Nat} (hlen : k + 1 < digits.length) :
    Reads (FloatStyle.pointed true digits (.ofNat k))
      (Binary64.decimalMagnitude (Nat.ofDigitChars 10 digits 0)
        (.ofNat k + 1 - digits.length)) := by
  have hdrop : digits.drop (k + 1) ≠ [] := by
    intro hnil
    have := List.drop_eq_nil_iff.1 hnil
    omega
  have htext : FloatStyle.pointed true digits (.ofNat k) =
      digits.take (k + 1) ++ '.' :: digits.drop (k + 1) := by
    have hnone : k + 1 - digits.length = 0 := by omega
    unfold FloatStyle.pointed
    dsimp only
    rw [hnone, List.replicate_zero, List.append_nil]
    split
    · rename_i hnil
      exact absurd hnil hdrop
    · rfl
  have hwhole : IsDigits (digits.take (k + 1)) :=
    ⟨by simp [h.1], fun c hc => h.2 c (List.mem_of_mem_take hc)⟩
  have hhead : (digits.take (k + 1)).head? ≠ some '0' := by
    rw [List.head?_take]
    exact hne
  rw [htext]
  apply reads_point (isWhole_of_head hwhole hhead)
    ⟨hdrop, fun c hc => h.2 c (List.mem_of_mem_drop hc)⟩
  rw [List.take_append_drop, List.length_drop]
  congr 1
  show -((digits.length - (k + 1) : Nat) : Int) = (k : Int) + 1 - digits.length
  omega

/-- In positional form the first digit keeps its exponent. -/
theorem pointed_reads (lead : Int) :
    Reads (FloatStyle.pointed true digits lead)
      (Binary64.decimalMagnitude (Nat.ofDigitChars 10 digits 0) (lead + 1 - digits.length)) := by
  cases lead with
  | negSucc k => exact pointed_below_reads h k
  | ofNat k =>
    by_cases hlen : digits.length ≤ k + 1
    · exact pointed_whole_reads h hne hlen
    · exact pointed_mixed_reads h hne (by omega)

end

theorem exponentValue_unsigned {e : Char} {digits : List Char} (h : IsDigits digits) :
    exponentValue (e :: digits) = Nat.ofDigitChars 10 digits 0 := by
  cases digits with
  | nil => exact absurd rfl h.1
  | cons d digits =>
    have hminus : d ≠ '-' := h.head_ne (by decide)
    have hplus : d ≠ '+' := h.head_ne (by decide)
    rw [exponentValue]
    · simpa using fun hd => absurd hd hminus
    · simpa using fun hd => absurd hd hplus

theorem exponentValue_exponentText (signs : Bool) (lead : Int) :
    exponentValue ('e' :: FloatStyle.exponentText signs lead) = lead := by
  cases lead with
  | negSucc k =>
    show -((Nat.ofDigitChars 10 (Nat.toDigits 10 (k + 1)) 0 : Nat) : Int) = _
    rw [Nat.ofDigitChars_ten_toDigits]
    rfl
  | ofNat k =>
    cases signs with
    | true =>
      show ((Nat.ofDigitChars 10 (Nat.toDigits 10 k) 0 : Nat) : Int) = _
      rw [Nat.ofDigitChars_ten_toDigits]
      rfl
    | false =>
      show exponentValue ('e' :: Nat.toDigits 10 k) = _
      rw [exponentValue_unsigned (isDigits_toDigits k), Nat.ofDigitChars_ten_toDigits]
      rfl

theorem isExponent_exponentText (signs : Bool) (lead : Int) :
    IsExponent ('e' :: FloatStyle.exponentText signs lead) := by
  cases lead with
  | negSucc k => exact .inr ⟨'e', ['-'], _, .inl rfl, .inl (.inr rfl), isDigits_toDigits _, rfl⟩
  | ofNat k =>
    cases signs with
    | true => exact .inr ⟨'e', ['+'], _, .inl rfl, .inr rfl, isDigits_toDigits _, rfl⟩
    | false => exact .inr ⟨'e', [], _, .inl rfl, .inl (.inl rfl), isDigits_toDigits _, rfl⟩

/-- With an exponent, too. -/
theorem scientific_reads (signs : Bool) {digits : List Char} (h : IsDigits digits)
    (hne : digits.head? ≠ some '0') (lead : Int) :
    Reads (FloatStyle.scientific signs digits lead)
      (Binary64.decimalMagnitude (Nat.ofDigitChars 10 digits 0) (lead + 1 - digits.length)) := by
  have hexponent := isExponent_exponentText signs lead
  unfold FloatStyle.scientific
  cases digits with
  | nil => exact absurd rfl h.1
  | cons first rest =>
    cases rest with
    | nil =>
      refine ⟨[first], [], _, rfl, isWhole_of_head h hne, .inl rfl, hexponent, rfl, ?_⟩
      rw [exponentValue_exponentText]
      congr 1
      show lead - 0 = lead + 1 - 1
      omega
    | cons second rest =>
      obtain ⟨hfirst, hrest⟩ := List.forall_mem_cons.1 h.2
      refine ⟨[first], '.' :: second :: rest, _, rfl,
        isWhole_of_head ⟨by simp, List.forall_mem_singleton.2 hfirst⟩ hne,
        .inr ⟨_, ⟨by simp, hrest⟩, rfl⟩, hexponent, rfl, ?_⟩
      rw [exponentValue_exponentText]
      congr 1
      show lead - ((rest.length + 1 : Nat) : Int) = lead + 1 - ((rest.length + 1 + 1 : Nat) : Int)
      omega

/-! ## Decimals -/

theorem head_toDigits {n : Nat} (hn : n ≠ 0) : (Nat.toDigits 10 n).head? ≠ some '0' := by
  induction n using Nat.strongRecOn with
  | ind n ih =>
    rw [Nat.toDigits_eq_if (by decide)]
    split
    · rename_i hlt
      have hdigit : ∀ n < 10, n ≠ 0 → Nat.digitChar n ≠ '0' := by decide
      simpa using hdigit n hlt hn
    · rename_i hge
      rw [List.head?_append_of_ne_nil _ Nat.toDigits_ne_nil]
      exact ih (n / 10) (by omega) (by omega)

/-- Only zeros are dropped. -/
theorem dropFinalZeros_append (digits : List Char) :
    ∃ k, FloatStyle.dropFinalZeros digits ++ List.replicate k '0' = digits := by
  have hzeros : ∀ c ∈ digits.reverse.takeWhile (fun c => decide (c = '0')), c = '0' := by
    intro c hc
    simpa using List.mem_takeWhile_imp hc
  have hreplicate := List.eq_replicate_iff.2 ⟨rfl, hzeros⟩
  refine ⟨(digits.reverse.takeWhile (fun c => decide (c = '0'))).length, ?_⟩
  unfold FloatStyle.dropFinalZeros
  rw [← List.reverse_replicate, ← hreplicate, ← List.reverse_append,
    List.takeWhile_append_dropWhile, List.reverse_reverse]

/-- What is left has the same first digit, and the zeros are a power of ten. -/
theorem dropFinalZeros_spec {digits : List Char} (h : IsDigits digits)
    (hne : digits.head? ≠ some '0') :
    IsDigits (FloatStyle.dropFinalZeros digits) ∧
      (FloatStyle.dropFinalZeros digits).head? ≠ some '0' ∧
      ∃ k, digits.length = (FloatStyle.dropFinalZeros digits).length + k ∧
        Nat.ofDigitChars 10 digits 0 =
          Nat.ofDigitChars 10 (FloatStyle.dropFinalZeros digits) 0 * 10 ^ k := by
  obtain ⟨k, hk⟩ := dropFinalZeros_append digits
  generalize FloatStyle.dropFinalZeros digits = short at hk ⊢
  subst hk
  -- A text of zeros alone would start with one.
  have hshort : short ≠ [] := by
    intro hnil
    rw [hnil, List.nil_append] at h hne
    cases k with
    | zero => exact h.1 rfl
    | succ k => exact hne rfl
  rw [List.head?_append_of_ne_nil _ hshort] at hne
  refine ⟨⟨hshort, (List.forall_mem_append.1 h.2).1⟩, hne, k, by simp, ?_⟩
  rw [Nat.ofDigitChars_append, Nat.ofDigitChars_replicate_zero, Nat.mul_comm]

theorem decimalMagnitude_zero (e : Int) : Binary64.decimalMagnitude 0 e = 0 := by
  rw [Binary64.decimalMagnitude_eq, Nat.zero_mul, Nat.zero_mul]
  exact Binary64.nearestMagnitude_of_small (Nat.pow_pos (by decide))

theorem zero_reads : Reads ['0', '.', '0'] 0 :=
  reads_point isWhole_zero isWhole_zero.1 (decimalMagnitude_zero _)

/-- The text of a decimal denotes it, in a style that marks whole numbers as floats. -/
theorem writeDecimal_reads {style : FloatStyle} (hmarks : style.marksWhole = true) (d : Decimal) :
    Reads (style.writeDecimal d) (Binary64.decimalMagnitude d.coefficient d.exponent) := by
  unfold FloatStyle.writeDecimal
  rw [hmarks]
  by_cases hzero : d.coefficient = 0
  · rw [if_pos hzero, hzero, decimalMagnitude_zero]
    exact zero_reads
  · rw [if_neg hzero]
    obtain ⟨hdigits, hhead, k, hlength, hvalue⟩ :=
      dropFinalZeros_spec (isDigits_toDigits d.coefficient) (head_toDigits hzero)
    rw [Nat.ofDigitChars_ten_toDigits] at hvalue
    dsimp only
    have hlead : d.exponent + ((Nat.toDigits 10 d.coefficient).length : Int) - 1 + 1 -
        (FloatStyle.dropFinalZeros (Nat.toDigits 10 d.coefficient)).length = d.exponent + k := by
      omega
    rw [hvalue, Binary64.decimalMagnitude_shift, ← hlead, ← hvalue]
    split
    · exact pointed_reads hdigits hhead _
    · exact scientific_reads _ hdigits hhead _

/-! ## Numbers -/

theorem isWhole_toDigits (n : Nat) : IsWhole (Nat.toDigits 10 n) := by
  by_cases hn : n = 0
  · subst hn
    exact isWhole_zero
  · exact isWhole_of_head (isDigits_toDigits n) (head_toDigits hn)

theorem numberValue?_integer (n : Int32) (negative : Bool) (m : Nat)
    (h : (if negative then -(m : Int) else m) = n.toInt) :
    numberValue? negative (Nat.toDigits 10 m) [] [] = some (.integer n) := by
  have hrange : -0x80000000 ≤ n.toInt ∧ n.toInt < 0x80000000 := ⟨n.le_toInt, n.toInt_lt⟩
  have hparts : (([] : List Char).isEmpty && ([] : List Char).isEmpty) = true := rfl
  unfold numberValue?
  rw [Nat.ofDigitChars_ten_toDigits]
  dsimp only
  rw [h, if_pos hparts, if_pos hrange, Int32.ofInt_toInt]

/-- Integers are written without a fraction and an exponent. -/
theorem isNumber_integer (n : Int32) : IsNumber (.integer n) (toString n.toInt).toList := by
  rw [Int.toString_eq_repr, Int.repr_eq_if]
  split
  · rename_i hpos
    rw [Nat.toList_repr]
    exact ⟨[], _, [], [], by simp, .inl rfl, isWhole_toDigits _, .inl rfl, .inl rfl,
      numberValue?_integer n false _ (Int.toNat_of_nonneg hpos)⟩
  · rename_i hneg
    have hvalue : -((-n.toInt).toNat : Int) = n.toInt := by omega
    rw [String.toList_append, Nat.toList_repr]
    exact ⟨['-'], _, [], [], by simp, .inr rfl, isWhole_toDigits _, .inl rfl, .inl rfl,
      numberValue?_integer n true _ hvalue⟩

/-- The text of a finite number is that of a decimal that reads back, behind the sign. -/
theorem exists_decimal (style : FloatStyle) {x : Binary64} (hx : x.isFinite) :
    ∃ d, Binary64.decimalMagnitude d.coefficient d.exponent = x.magnitude ∧
      style.write x = (if x.isNegative then ['-'] else []) ++ style.writeDecimal d := by
  have hnan : x.isNaN = false := by
    have hlt := Binary64.magnitude_lt hx
    exact decide_eq_false (by omega)
  refine ⟨if x.magnitude = 0 then ⟨0, 0⟩ else x.shortest style.ties, ?_, ?_⟩
  · split
    · rename_i hzero
      rw [hzero]
      exact decimalMagnitude_zero _
    · exact of_decide_eq_true (Binary64.readsBack_shortest hx style.ties)
  · unfold FloatStyle.write
    rw [hx, hnan]
    cases x.isNegative <;> rfl

/-- Finite floating-point numbers are written with one of them. -/
theorem isNumber_write {style : FloatStyle} (hmarks : style.marksWhole = true) {x : Binary64}
    (hx : x.isFinite) : IsNumber (.float x) (style.write x) := by
  obtain ⟨d, hmagnitude, htext⟩ := exists_decimal style hx
  obtain ⟨whole, fraction, exponent, hparts, hw, hf, he, hmark, hvalue⟩ :=
    writeDecimal_reads hmarks d
  have hfloat : floatValue x.isNegative whole (fraction.drop 1) exponent = x := by
    unfold floatValue Binary64.ofDecimal
    rw [hvalue, hmagnitude, Binary64.ofMagnitude_self]
  have hnumber : numberValue? x.isNegative whole fraction exponent = some (.float x) := by
    unfold numberValue?
    rw [hmark, hfloat]
    exact if_pos hx
  rw [htext, hparts]
  cases hneg : x.isNegative with
  | false =>
    rw [hneg] at hnumber
    exact ⟨[], whole, fraction, exponent, rfl, .inl rfl, hw, hf, he, hnumber⟩
  | true =>
    rw [hneg] at hnumber
    exact ⟨['-'], whole, fraction, exponent, rfl, .inr rfl, hw, hf, he, hnumber⟩

theorem isNumber_float {x : Binary64} (hx : x.isFinite) : IsNumber (.float x) (float x) := by
  unfold float
  rw [if_pos hx]
  exact isNumber_write rfl hx

theorem IsNumber.read {v : Value} {text : List Char} (h : IsNumber v text) :
    readNumber text = some (v, []) := by
  have hread := readNumber_append h stops_nil
  rwa [List.append_nil] at hread

end ConfigLang.Json
