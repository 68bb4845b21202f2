import ConfigLang.Proofs.Lexer.Lexemes
import ConfigLang.Proofs.Yaml.TextEnds
import ConfigLang.Proofs.Yaml.Words

/-!
# Scalars of YAML end where they end

Two scalars of which one text starts with both are the same scalar, if what follows is something
that can follow a scalar: the end of its line, the colon of a key, or for a literal block a line
that is indented less.

* `word_unique`, `doubleQuoted_unique`, `singleQuoted_unique`, `literal_unique`: the four styles.
* `write_unique`: scalars on the line of a key or a value.
* `line_unique`: scalars with the end of their last line.
-/

namespace ConfigLang

/-! ## Hexadecimal digits -/

namespace Text

theorem ofHexDigits_append (a b : List Char) (n : Nat) :
    ofHexDigits (a ++ b) n = ofHexDigits b (ofHexDigits a n) := by
  induction a generalizing n with
  | nil => rfl
  | cons c a ih => exact ih _

theorem ofHexDigits_zeros (k : Nat) : ofHexDigits (List.replicate k '0') 0 = 0 := by
  induction k with
  | zero => rfl
  | succ k ih => exact ih

theorem hexDigitValue_digitChar (upper : Bool) : ∀ d < 16,
    hexDigitValue (if upper then (Nat.digitChar d).toUpper else Nat.digitChar d) = d := by
  cases upper <;> decide

theorem ofHexDigits_toDigits (upper : Bool) (n : Nat) :
    ofHexDigits ((Nat.toDigits 16 n).map fun c => if upper then c.toUpper else c) 0 = n := by
  induction n using Nat.strongRecOn with
  | ind n ih =>
    rw [Nat.toDigits_eq_if (by decide)]
    by_cases hlt : n < 16
    · have hdigit := hexDigitValue_digitChar upper n hlt
      rw [if_pos hlt]
      show 16 * 0 + hexDigitValue _ = n
      rw [hdigit]
      omega
    · have hdigit := hexDigitValue_digitChar upper (n % 16) (Nat.mod_lt _ (by decide))
      rw [if_neg hlt, List.map_append, ofHexDigits_append, ih (n / 16) (by omega)]
      show 16 * (n / 16) + hexDigitValue _ = n
      rw [hdigit]
      omega

/-- A number that fits is written with exactly the given number of digits, and read back. -/
theorem ofHexDigits_toHexDigits (upper : Bool) {width n : Nat} (hwidth : 0 < width)
    (h : n < 16 ^ width) :
    (toHexDigits upper width n).length = width ∧ ofHexDigits (toHexDigits upper width n) 0 = n := by
  have hlen := (Nat.length_toDigits_le_iff (b := 16) (by decide) hwidth).2 h
  unfold toHexDigits
  dsimp only
  rw [ofHexDigits_append, ofHexDigits_zeros, ofHexDigits_toDigits, List.length_append,
    List.length_replicate, List.length_map]
  exact ⟨by omega, rfl⟩

end Text

namespace Yaml

/-! ## Words -/

/-- What follows a scalar on its last line: the end of the line, or the colon of a key. -/
def EndsScalar (rest : List Char) : Prop :=
  (∃ t, rest = '\n' :: t) ∨ ∃ b t, rest = ':' :: b :: t ∧ isBlank b

theorem hasPair_append {p q : Char → Bool} {c d : Char} (hc : p c) (hd : q d)
    (before after : List Char) : hasPair p q (before ++ c :: d :: after) := by
  induction before with
  | nil => simp [hasPair, hc, hd]
  | cons b before ih =>
    cases before with
    | nil => simp [hasPair, hc, hd]
    | cons b' before =>
      rw [List.cons_append, List.cons_append, hasPair]
      rw [List.cons_append] at ih
      simp [ih]

/-- A word does not go on where a scalar can end. -/
theorem eq_nil_of_isWord {w u rest : List Char} (hw : IsWord (w ++ u))
    (hends : EndsScalar (u ++ rest)) : u = [] := by
  cases u with
  | nil => rfl
  | cons c u =>
    exfalso
    rcases hends with ⟨t, ht⟩ | ⟨b, t, ht, hb⟩
    · obtain ⟨rfl, -⟩ := List.cons.inj ht
      have hbreak := hw.noBreak '\n' (by simp)
      exact absurd hbreak (by decide)
    · obtain ⟨rfl, htail⟩ := List.cons.inj ht
      cases u with
      | nil => exact hw.noFinalColon List.getLast?_concat
      | cons d u =>
        obtain ⟨rfl, -⟩ := List.cons.inj htail
        have hmark : (':' == ':') = true := rfl
        have hcolon := hasPair_append (p := (· == ':')) hmark hb w u
        rw [hw.noColon] at hcolon
        cases hcolon

theorem word_unique {w w' rest rest' : List Char} (hw : IsWord w) (hw' : IsWord w')
    (hrest : EndsScalar rest) (hrest' : EndsScalar rest') (h : w ++ rest = w' ++ rest') :
    w = w' ∧ rest = rest' := by
  rcases List.append_eq_append_iff.1 h with ⟨u, rfl, rfl⟩ | ⟨u, rfl, rfl⟩
  · have hnil := eq_nil_of_isWord hw' hrest
    subst hnil
    simp
  · have hnil := eq_nil_of_isWord hw hrest'
    subst hnil
    simp

/-! ## Double quotes -/

/-- A character in double quotes. -/
def quotedChar (c : Char) : List Char :=
  if !isPrintable c || isBreak c || c == '"' || c == '\\' then escapeOf c else [c]

theorem doubleQuoted_eq (s : List Char) : doubleQuoted s = '"' :: s.flatMap quotedChar ++ ['"'] :=
  rfl

/-- How many hexadecimal digits follow the letter of an escape. -/
def hexWidth? : Char → Option Nat
  | 'x' => some 2
  | 'u' => some 4
  | 'U' => some 8
  | _ => none

/-- What the letters of the other escapes stand for. -/
def letterEscapes : List (Char × Char) := [
  ('0', '\x00'), ('a', '\x07'), ('b', '\x08'), ('t', '\t'), ('n', '\n'), ('v', '\x0b'),
  ('f', '\x0c'), ('r', '\r'), ('e', '\x1b'), ('"', '"'), ('\\', '\\'), ('N', '\x85'),
  ('L', '\u2028'), ('P', '\u2029')]

/-- The character at the start of a text in double quotes, and what follows it. -/
def readQuotedChar : List Char → Option (Char × List Char)
  | '"' :: _ => none
  | '\\' :: e :: cs =>
    match hexWidth? e with
    | some width => some (Char.ofNat (Text.ofHexDigits (cs.take width) 0), cs.drop width)
    | none => (letterEscapes.lookup e).map (·, cs)
  | c :: cs => some (c, cs)
  | [] => none

theorem readQuotedChar_hex {e : Char} {width : Nat} (he : hexWidth? e = some width)
    (hwidth : 0 < width) {c : Char} (hc : c.toNat < 16 ^ width) (rest : List Char) :
    readQuotedChar (['\\', e] ++ Text.toHexDigits true width c.toNat ++ rest) = some (c, rest) := by
  obtain ⟨hlen, hvalue⟩ := Text.ofHexDigits_toHexDigits true hwidth hc
  rw [List.append_assoc]
  show readQuotedChar ('\\' :: e :: (Text.toHexDigits true width c.toNat ++ rest)) = _
  rw [readQuotedChar, he]
  dsimp only
  rw [List.take_left' hlen, List.drop_left' hlen, hvalue, Char.ofNat_toNat]

theorem readQuotedChar_quotedChar (c : Char) (rest : List Char) :
    readQuotedChar (quotedChar c ++ rest) = some (c, rest) := by
  unfold quotedChar
  split
  · unfold escapeOf
    split
    all_goals try rfl
    dsimp only
    have hchar : c.toNat < 0x110000 := by
      have hvalid : c.toNat.isValidChar := c.valid
      unfold Nat.isValidChar at hvalid
      omega
    split
    · exact readQuotedChar_hex rfl (by decide) (by omega) rest
    · split
      · exact readQuotedChar_hex rfl (by decide) (by omega) rest
      · exact readQuotedChar_hex rfl (by decide) (by omega) rest
  · rename_i hplain
    simp only [Bool.or_eq_true, not_or, beq_iff_eq] at hplain
    obtain ⟨⟨-, hquote⟩, hslash⟩ := hplain
    show readQuotedChar (c :: rest) = _
    rw [readQuotedChar]
    · exact hquote
    · exact fun _ _ h _ => hslash h

theorem doubleQuoted_unique {s s' rest rest' : List Char}
    (h : doubleQuoted s ++ rest = doubleQuoted s' ++ rest') : s = s' ∧ rest = rest' := by
  have hchars : s.flatMap quotedChar ++ '"' :: rest = s'.flatMap quotedChar ++ '"' :: rest' := by
    simpa [doubleQuoted_eq] using h
  clear h
  have hclosed (t : List Char) : readQuotedChar ('"' :: t) = none := rfl
  induction s generalizing s' with
  | nil =>
    cases s' with
    | nil => simpa using hchars
    | cons c' s' =>
      have hread := readQuotedChar_quotedChar c' (s'.flatMap quotedChar ++ '"' :: rest')
      rw [← List.append_assoc, ← List.flatMap_cons, ← hchars] at hread
      cases hread
  | cons c s ih =>
    have hread := readQuotedChar_quotedChar c (s.flatMap quotedChar ++ '"' :: rest)
    rw [← List.append_assoc, ← List.flatMap_cons, hchars] at hread
    cases s' with
    | nil => cases hread
    | cons c' s' =>
      rw [List.flatMap_cons, List.append_assoc, readQuotedChar_quotedChar] at hread
      obtain ⟨rfl, htail⟩ := Prod.mk.inj (Option.some.inj hread)
      obtain ⟨rfl, hrest⟩ := ih htail.symm
      exact ⟨rfl, hrest⟩

/-! ## Indented lines -/

/-- What a line starts with, if one starts here. -/
def lineStart (width : Nat) (atStart : Bool) : List Char :=
  if atStart then indentation width else []

/-- A character in lines that are indented. -/
def indentedChar (width : Nat) (write : Char → List Char) (atStart : Bool) (c : Char) : List Char :=
  if isBreak c then [c] else lineStart width atStart ++ write c

theorem indentLines_cons (width : Nat) (write : Char → List Char) (atStart : Bool) (c : Char)
    (s : List Char) :
    indentLines width write atStart (c :: s) =
      indentedChar width write atStart c ++ indentLines width write (isBreak c) s := by
  rw [indentLines]
  unfold indentedChar lineStart
  cases hc : isBreak c <;> cases atStart <;> simp

/-- A way to write characters so that they can be told apart, each after itself. -/
structure Distinct (write : Char → List Char) : Prop where
  head (c : Char) : ∃ t, write c = c :: t
  unique {c c' : Char} {t t' : List Char} : write c ++ t = write c' ++ t' → c = c' ∧ t = t'

/-- No line starts with a line break. -/
theorem lineStart_ne {width : Nat} {atStart : Bool} {c d : Char} (hc : isBreak c)
    (hd : isBreak d = false) (t u : List Char) : lineStart width atStart ++ d :: t ≠ c :: u := by
  have hne {d : Char} {t : List Char} (hd : isBreak d = false) : d :: t ≠ c :: u := by
    intro h
    rw [(List.cons.inj h).1, hc] at hd
    cases hd
  cases atStart with
  | false => exact hne hd
  | true =>
    cases width with
    | zero => exact hne hd
    | succ width => exact hne (d := ' ') (by decide)

theorem indentedChar_unique {width : Nat} {write : Char → List Char} (hw : Distinct write)
    {atStart : Bool} {c c' : Char} {t t' : List Char}
    (h : indentedChar width write atStart c ++ t = indentedChar width write atStart c' ++ t') :
    c = c' ∧ t = t' := by
  obtain ⟨u, hu⟩ := hw.head c
  obtain ⟨u', hu'⟩ := hw.head c'
  unfold indentedChar at h
  cases hc : isBreak c <;> cases hc' : isBreak c' <;> rw [hc, hc'] at h
  · simp only [Bool.false_eq_true, if_false, List.append_assoc, List.append_cancel_left_eq] at h
    exact hw.unique h
  · simp only [Bool.false_eq_true, if_false, if_true, hu, List.append_assoc] at h
    exact absurd h (lineStart_ne hc' hc _ _)
  · simp only [Bool.false_eq_true, if_false, if_true, hu', List.append_assoc] at h
    exact absurd h.symm (lineStart_ne hc hc' _ _)
  · simpa using h

/-! ## Single quotes -/

/-- A quote in single quotes is written twice. -/
def doubledQuote (c : Char) : List Char := if c = '\'' then ['\'', '\''] else [c]

theorem doubledQuote_distinct : Distinct doubledQuote where
  head c := by
    unfold doubledQuote
    split
    · rename_i hc
      exact ⟨['\''], by rw [hc]⟩
    · exact ⟨[], rfl⟩
  unique {c c' t t'} h := by
    unfold doubledQuote at h
    split at h <;> split at h
    · simp_all
    · rename_i hc hc'
      exact absurd (List.cons.inj h).1.symm hc'
    · rename_i hc hc'
      exact absurd (List.cons.inj h).1 hc
    · simpa using h

/-- A text in single quotes from some character on, its closing quote included. -/
def inSingleQuotes (width : Nat) : (atStart : Bool) → List Char → List Char
  | atStart, [] => lineStart width atStart ++ ['\'']
  | atStart, c :: s =>
    indentedChar width doubledQuote atStart c ++ inSingleQuotes width (isBreak c) s

theorem inSingleQuotes_eq (width : Nat) (s : List Char) : ∀ atStart,
    inSingleQuotes width atStart s = indentLines width doubledQuote atStart s ++
      lineStart width ((s.getLast?.map isBreak).getD atStart) ++ ['\''] := by
  induction s with
  | nil => exact fun _ => rfl
  | cons c s ih =>
    intro atStart
    have hlast : ((c :: s).getLast?.map isBreak).getD atStart =
        (s.getLast?.map isBreak).getD (isBreak c) := by
      rw [List.getLast?_cons]
      cases s.getLast? <;> rfl
    rw [hlast, inSingleQuotes, indentLines_cons, ih]
    simp only [List.append_assoc]

theorem singleQuoted_eq (width : Nat) (s : List Char) :
    singleQuoted width s = '\'' :: inSingleQuotes width false s := by
  have hfinal : (s.getLast?.map isBreak).getD false = s.getLast?.any isBreak := by
    cases s.getLast? <;> rfl
  rw [inSingleQuotes_eq, hfinal]
  rfl

/-- The closing quote is no character of the text, unless a second quote follows. -/
theorem inSingleQuotes_nil_ne {width : Nat} {atStart : Bool} {c : Char} {s rest rest' : List Char}
    (hrest : rest.head? ≠ some '\'') :
    inSingleQuotes width atStart [] ++ rest ≠ inSingleQuotes width atStart (c :: s) ++ rest' := by
  intro h
  rw [inSingleQuotes, inSingleQuotes, List.append_assoc, List.append_assoc] at h
  unfold indentedChar at h
  split at h
  · rename_i hc
    exact lineStart_ne hc (d := '\'') (by decide) _ _ h
  · rw [List.append_assoc, List.append_cancel_left_eq] at h
    unfold doubledQuote at h
    split at h
    · obtain ⟨-, htail⟩ := List.cons.inj h
      exact hrest (congrArg List.head? htail)
    · rename_i hc
      exact hc (List.cons.inj h).1.symm

theorem inSingleQuotes_unique {width : Nat} {s : List Char} : ∀ {s' rest rest' : List Char}
    {atStart : Bool}, rest.head? ≠ some '\'' → rest'.head? ≠ some '\'' →
      inSingleQuotes width atStart s ++ rest = inSingleQuotes width atStart s' ++ rest' →
        s = s' ∧ rest = rest' := by
  induction s with
  | nil =>
    intro s' rest rest' atStart hrest hrest' h
    cases s' with
    | nil => exact ⟨rfl, List.append_cancel_left h⟩
    | cons c' s' => exact absurd h (inSingleQuotes_nil_ne hrest)
  | cons c s ih =>
    intro s' rest rest' atStart hrest hrest' h
    cases s' with
    | nil => exact absurd h.symm (inSingleQuotes_nil_ne hrest')
    | cons c' s' =>
      rw [inSingleQuotes, inSingleQuotes, List.append_assoc, List.append_assoc] at h
      obtain ⟨rfl, htail⟩ := indentedChar_unique doubledQuote_distinct h
      obtain ⟨rfl, hrests⟩ := ih hrest hrest' htail
      exact ⟨rfl, hrests⟩

theorem singleQuoted_unique {width : Nat} {s s' rest rest' : List Char}
    (hrest : rest.head? ≠ some '\'') (hrest' : rest'.head? ≠ some '\'')
    (h : singleQuoted width s ++ rest = singleQuoted width s' ++ rest') :
    s = s' ∧ rest = rest' := by
  rw [singleQuoted_eq, singleQuoted_eq] at h
  exact inSingleQuotes_unique hrest hrest' (List.cons.inj h).2

/-- A text on one line is the same at every indentation. -/
theorem singleQuoted_of_noBreak {s : List Char} (h : ∀ c ∈ s, isBreak c = false)
    (width width' : Nat) : singleQuoted width s = singleQuoted width' s := by
  rw [singleQuoted_eq, singleQuoted_eq]
  congr 1
  induction s with
  | nil => rfl
  | cons c s ih =>
    obtain ⟨hc, hs⟩ := List.forall_mem_cons.1 h
    have hchar (width : Nat) : indentedChar width doubledQuote false c = doubledQuote c := by
      unfold indentedChar
      rw [hc]
      rfl
    rw [inSingleQuotes, inSingleQuotes, hchar, hchar, hc, ih hs]

/-! ## Literal blocks -/

/-- What follows the lines of a collection: nothing, or a line that is indented by less. -/
def Below (width : Nat) (rest : List Char) : Prop :=
  rest = [] ∨ ∃ m c t, rest = indentation m ++ c :: t ∧ m < width ∧ c ≠ ' ' ∧ isBreak c = false

/-- Less indentation is not more. -/
theorem indentation_ne {m n : Nat} {c : Char} {t u : List Char} (hlt : m < n) (hc : c ≠ ' ') :
    indentation m ++ c :: t ≠ indentation n ++ u := by
  intro h
  have hsplit : indentation n = indentation m ++ ' ' :: indentation (n - m - 1) := by
    unfold indentation
    rw [← List.replicate_succ, List.replicate_append_replicate]
    congr 1
    omega
  rw [hsplit, List.append_assoc, List.append_cancel_left_eq] at h
  exact hc (List.cons.inj h).1

theorem singleton_distinct : Distinct (fun c => [c]) where
  head c := ⟨[], rfl⟩
  unique h := by simpa using h

/-- What follows a block does not go on with it. -/
theorem Below.ne_indented {width : Nat} {rest : List Char} (h : Below width rest) (c : Char)
    (t : List Char) : rest ≠ indentedChar width (fun c => [c]) true c ++ t := by
  unfold indentedChar lineStart
  rcases h with rfl | ⟨m, d, u, rfl, hm, hd, hbreak⟩
  · split <;> simp
  · split
    · rename_i hc
      show lineStart m true ++ d :: u ≠ c :: t
      exact lineStart_ne hc hbreak u t
    · rw [List.append_assoc]
      exact indentation_ne hm hd

/-- Lines that are complete, or a line that has just begun. -/
def Complete (atStart : Bool) (s : List Char) : Prop := (s.getLast?.map isBreak).getD atStart = true

theorem complete_cons {atStart : Bool} {c : Char} {s : List Char} :
    Complete atStart (c :: s) ↔ Complete (isBreak c) s := by
  unfold Complete
  rw [List.getLast?_cons]
  cases s.getLast? <;> rfl

/-- The lines of a block end where a line is indented by less. -/
theorem lines_unique {width : Nat} {s : List Char} : ∀ {s' rest rest' : List Char}
    {atStart : Bool}, Complete atStart s → Complete atStart s' → Below width rest →
      Below width rest' →
      indentLines width (fun c => [c]) atStart s ++ rest =
        indentLines width (fun c => [c]) atStart s' ++ rest' → s = s' ∧ rest = rest' := by
  induction s with
  | nil =>
    intro s' rest rest' atStart hs hs' hrest hrest' h
    obtain rfl : atStart = true := hs
    cases s' with
    | nil => exact ⟨rfl, h⟩
    | cons c' s' =>
      rw [indentLines_cons, List.append_assoc] at h
      exact absurd h (hrest.ne_indented c' _)
  | cons c s ih =>
    intro s' rest rest' atStart hs hs' hrest hrest' h
    cases s' with
    | nil =>
      obtain rfl : atStart = true := hs'
      rw [indentLines_cons, List.append_assoc] at h
      exact absurd h.symm (hrest'.ne_indented c _)
    | cons c' s' =>
      rw [indentLines_cons, indentLines_cons, List.append_assoc, List.append_assoc] at h
      obtain ⟨rfl, htail⟩ := indentedChar_unique singleton_distinct h
      obtain ⟨rfl, hrests⟩ := ih (complete_cons.1 hs) (complete_cons.1 hs') hrest hrest' htail
      exact ⟨rfl, hrests⟩

/-- A string with the line feed that ends its last line. -/
def ended (s : List Char) : List Char := if s.getLast?.any isBreak then s else s ++ ['\n']

theorem complete_ended (s : List Char) : Complete true (ended s) := by
  unfold ended Complete
  split
  · rename_i h
    cases hlast : s.getLast? with
    | none => rfl
    | some c =>
      rw [hlast] at h
      exact h
  · rw [List.getLast?_concat]
    rfl

/-- A literal block with the end of its last line: the lines of the string and perhaps one more. -/
theorem literalLine_eq (width : Nat) (s : List Char) :
    (if s.getLast?.any isBreak then literalBlock width s else literalBlock width s ++ ['\n']) =
      '|' :: literalSigns s ++ '\n' :: indentLines width (fun c => [c]) true (ended s) := by
  unfold ended literalBlock
  split
  · rfl
  · rw [indentLines_concat width (by decide)]
    simp

/-- The signs are no line feeds, and a minus is among them if the last line had no end. -/
theorem literalSigns_spec (s : List Char) :
    '\n' ∉ literalSigns s ∧ ('-' ∈ literalSigns s ↔ s.getLast?.any isBreak = false) := by
  rw [← List.head?_reverse]
  unfold literalSigns
  -- The sign for the start is a digit, whatever the string starts with.
  generalize (s.head?.any fun c => c == ' ' || isBreak c) = hidden
  rcases s.reverse with _ | ⟨c, _ | ⟨d, t⟩⟩
  · cases hidden <;> decide
  · cases hidden <;> cases hc : isBreak c <;> simp [hc]
  · cases hidden <;> cases hc : isBreak c <;> cases hd : isBreak d <;> simp [hc, hd]

theorem literalLine_unique {width : Nat} {s s' rest rest' : List Char} (hrest : Below width rest)
    (hrest' : Below width rest')
    (h : '|' :: literalSigns s ++ '\n' :: indentLines width (fun c => [c]) true (ended s) ++ rest =
      '|' :: literalSigns s' ++ '\n' :: indentLines width (fun c => [c]) true (ended s') ++ rest') :
    s = s' ∧ rest = rest' := by
  obtain ⟨hfeed, hminus⟩ := literalSigns_spec s
  obtain ⟨hfeed', hminus'⟩ := literalSigns_spec s'
  simp only [List.cons_append, List.append_assoc] at h
  have hrun {t : List Char} (ht : '\n' ∉ t) : ∀ c ∈ t, decide (c ≠ '\n') = true := by
    intro c hc
    have hne : c ≠ '\n' := fun heq => ht (heq ▸ hc)
    simpa using hne
  have hstop (t : List Char) : Lexer.Stops (fun c => decide (c ≠ '\n')) ('\n' :: t) :=
    Lexer.stops_cons.2 rfl
  obtain ⟨hsigns, hlines⟩ := run_unique (hrun hfeed) (hstop _) (hrun hfeed') (hstop _)
    (List.cons.inj h).2
  obtain ⟨hended, hrests⟩ := lines_unique (complete_ended s) (complete_ended s') hrest hrest'
    (List.cons.inj hlines).2
  -- The signs say whether a line feed was added.
  rw [hsigns, hminus'] at hminus
  refine ⟨?_, hrests⟩
  unfold ended at hended
  cases hlast : s.getLast?.any isBreak <;> cases hlast' : s'.getLast?.any isBreak <;>
    simp [hlast, hlast'] at hminus hended
  · exact hended
  · exact hended

/-! ## Styles -/

/-- `s` in a style. -/
def writeIn (style : Style) (width : Nat) (s : List Char) : List Char :=
  match style with
  | .plain => s
  | .singleQuoted => singleQuoted width s
  | .doubleQuoted => doubleQuoted s
  | .literal => literalBlock width s

/-- `s` in a style, with the end of its last line. -/
def lineIn (style : Style) (width : Nat) (s : List Char) : List Char :=
  if style = .literal ∧ s.getLast?.any isBreak then writeIn style width s
  else writeIn style width s ++ ['\n']

theorem scalar_eq (width : Nat) (s : List Char) : scalar width s = writeIn (styleOf s) width s :=
  rfl

/-- Only lines after the first are indented. -/
theorem writeIn_of_noBreak {style : Style} {s : List Char} (hblock : style ≠ .literal)
    (h : ∀ c ∈ s, isBreak c = false) (width width' : Nat) :
    writeIn style width s = writeIn style width' s := by
  cases style with
  | plain => rfl
  | singleQuoted => exact singleQuoted_of_noBreak h width width'
  | doubleQuoted => rfl
  | literal => exact absurd rfl hblock

theorem scalarLine_eq (width : Nat) (s : List Char) :
    scalarLine width s = lineIn (styleOf s) width s := by
  unfold scalarLine lineIn
  rw [scalar_eq]

theorem leaf_eq (width : Nat) {v : Value} (hv : v.IsLeaf) :
    leaf width v = lineIn (written v).1 width (written v).2 := by
  cases v with
  | string s => exact scalarLine_eq width s.toList
  | bool b => cases b <;> rfl
  | array items => rfl
  | object fields => rfl
  | _ => rfl

/-- The style that the first character of a scalar tells. -/
def styleAt (c : Char) : Style :=
  if c = '\'' then .singleQuoted
  else if c = '"' then .doubleQuoted
  else if c = '|' then .literal
  else .plain

theorem exists_head_writeIn {style : Style} {s : List Char} (h : style = .plain → IsWord s)
    (width : Nat) : ∃ c t, writeIn style width s = c :: t ∧ styleAt c = style ∧
      c ≠ ' ' ∧ isBreak c = false := by
  cases style with
  | plain =>
    have hw := h rfl
    obtain ⟨c, t, rfl, hspace, hbar, hsingle, hdouble⟩ := hw.head
    have hbreak := hw.noBreak c List.mem_cons_self
    exact ⟨c, t, rfl, by simp [styleAt, hsingle, hdouble, hbar], hspace, hbreak⟩
  | singleQuoted => exact ⟨'\'', _, rfl, rfl, by decide, by decide⟩
  | doubleQuoted => exact ⟨'"', _, rfl, rfl, by decide, by decide⟩
  | literal => exact ⟨'|', _, rfl, rfl, by decide, by decide⟩

theorem EndsScalar.head_ne {rest : List Char} (h : EndsScalar rest) {c : Char} (hfeed : c ≠ '\n')
    (hcolon : c ≠ ':') : rest.head? ≠ some c := by
  rcases h with ⟨t, rfl⟩ | ⟨b, t, rfl, -⟩
  · simpa using hfeed.symm
  · simpa using hcolon.symm

/-- A text that starts with no dash of an item and no question mark of a key. -/
def Unmarked (text : List Char) : Prop := ∀ c t, text = c :: ' ' :: t → c ≠ '-' ∧ c ≠ '?'

section
variable {style style' : Style} {s s' rest rest' : List Char} {width : Nat}
  (hs : style = .plain → IsWord s) (hs' : style' = .plain → IsWord s')
include hs

/-- No scalar looks like an item or a key on lines of its own. -/
theorem writeIn_unmarked (hrest : style = .plain → EndsScalar rest) :
    Unmarked (writeIn style width s ++ rest) := by
  intro d t h
  by_cases hplain : style = .plain
  · have hw := hs hplain
    obtain ⟨c, cs, rfl, -⟩ := hw.head
    subst hplain
    cases cs with
    | nil =>
      have hspace : rest.head? = some ' ' := by
        rw [(List.cons.inj (show c :: rest = d :: ' ' :: t from h)).2]
        rfl
      exact absurd hspace ((hrest rfl).head_ne (by decide) (by decide))
    | cons c' cs =>
      obtain ⟨rfl, htail⟩ := List.cons.inj (show c :: (c' :: cs ++ rest) = d :: ' ' :: t from h)
      obtain ⟨rfl, -⟩ := List.cons.inj htail
      exact hw.noMark c cs rfl
  · obtain ⟨c, cs, htext, hstyle, -⟩ := exists_head_writeIn hs width
    rw [htext] at h
    obtain ⟨rfl, -⟩ := List.cons.inj h
    constructor
    · rintro rfl
      exact hplain hstyle.symm
    · rintro rfl
      exact hplain hstyle.symm

include hs'

theorem style_unique (h : writeIn style width s ++ rest = writeIn style' width s' ++ rest') :
    style = style' := by
  obtain ⟨c, t, htext, hstyle, -⟩ := exists_head_writeIn hs width
  obtain ⟨c', t', htext', hstyle', -⟩ := exists_head_writeIn hs' width
  rw [htext, htext'] at h
  rw [← hstyle, ← hstyle', (List.cons.inj h).1]

/-- Scalars that are no blocks end where a scalar can end. -/
theorem writeIn_unique (hblock : style ≠ .literal) (hrest : EndsScalar rest)
    (hrest' : EndsScalar rest')
    (h : writeIn style width s ++ rest = writeIn style' width s' ++ rest') :
    style = style' ∧ s = s' ∧ rest = rest' := by
  obtain rfl := style_unique hs hs' h
  refine ⟨rfl, ?_⟩
  cases style with
  | plain => exact word_unique (hs rfl) (hs' rfl) hrest hrest' h
  | singleQuoted =>
    exact singleQuoted_unique (hrest.head_ne (by decide) (by decide))
      (hrest'.head_ne (by decide) (by decide)) h
  | doubleQuoted => exact doubleQuoted_unique h
  | literal => exact absurd rfl hblock

end

section
variable {style style' : Style} {s s' rest rest' : List Char} {width : Nat}

theorem lineIn_of_ne (hblock : style ≠ .literal) :
    lineIn style width s = writeIn style width s ++ ['\n'] :=
  if_neg fun h => hblock h.1

theorem lineIn_literal (width : Nat) (s : List Char) : lineIn .literal width s =
    '|' :: literalSigns s ++ '\n' :: indentLines width (fun c => [c]) true (ended s) := by
  rw [← literalLine_eq]
  simp [lineIn, writeIn]

/-- A line starts with the scalar, and goes on with the end of the line where that is a word. -/
theorem exists_lineIn (style : Style) (width : Nat) (s rest : List Char) :
    ∃ t, lineIn style width s ++ rest = writeIn style width s ++ t ∧
      (style = .plain → EndsScalar t) := by
  unfold lineIn
  split
  · rename_i hblock
    exact ⟨rest, rfl, fun hplain => by rw [hplain] at hblock; cases hblock.1⟩
  · exact ⟨'\n' :: rest, by simp, fun _ => .inl ⟨rest, rfl⟩⟩

variable (hs : style = .plain → IsWord s) (hs' : style' = .plain → IsWord s')
include hs

theorem lineIn_unmarked : Unmarked (lineIn style width s ++ rest) := by
  obtain ⟨t, htext, hends⟩ := exists_lineIn style width s rest
  rw [htext]
  exact writeIn_unmarked hs hends

include hs'

/-- A complete line or block is followed by what is indented by less. -/
theorem lineIn_unique (hrest : Below width rest) (hrest' : Below width rest')
    (h : lineIn style width s ++ rest = lineIn style' width s' ++ rest') :
    style = style' ∧ s = s' ∧ rest = rest' := by
  obtain rfl : style = style' := by
    obtain ⟨t, htext, -⟩ := exists_lineIn style width s rest
    obtain ⟨t', htext', -⟩ := exists_lineIn style' width s' rest'
    rw [htext, htext'] at h
    exact style_unique hs hs' h
  refine ⟨rfl, ?_⟩
  by_cases hblock : style = .literal
  · subst hblock
    rw [lineIn_literal, lineIn_literal] at h
    exact literalLine_unique hrest hrest' h
  · rw [lineIn_of_ne hblock, lineIn_of_ne hblock, List.append_assoc, List.append_assoc] at h
    obtain ⟨-, hcontent, hfeed⟩ := writeIn_unique hs hs' hblock (.inl ⟨_, rfl⟩) (.inl ⟨_, rfl⟩) h
    exact ⟨hcontent, (List.cons.inj hfeed).2⟩

end

end Yaml

end ConfigLang
