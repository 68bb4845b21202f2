import ConfigLang.Proofs.Text.Blanks
import ConfigLang.Proofs.Lexer.Lexable
import ConfigLang.Proofs.Lexer.ModesFollow

/-!
# How documents are written

The texts of a token (`Spells`) and of a document (`Document.IsWrittenAs`): its tokens one after
another, with white space between them except in strings. A lexer in the right mode reads back the
token that was written.

* `scan_of_not_mayStart`: a pattern declines what starts with another character.
* `read_spelling`: the token is read, whatever follows that does not go on with it.
-/

namespace ConfigLang

open Lexer

/-! ## Texts -/

/-- The ways to write a token: segments with or without quotes, numbers as decimal literals, escaped
characters by a letter or by their code point. -/
inductive Spells : Token → List Char → Prop
  | symbol (s : Symbol) : Spells (.symbol s) s.text.toList
  | quoted {s : String} (h : '\'' ∉ s.toList) : Spells (.segment s) ('\'' :: s.toList ++ ['\''])
  | bare {s : String} (h : IsBareSegment s.toList) : Spells (.segment s) s.toList
  | integer {n : Int32} {sign digits : List Char} (hs : IsSign sign) (hd : IsDigits digits)
      (hn : integerValue sign digits = n.toInt) : Spells (.integer n) (sign ++ digits)
  | float {x : Binary64} {sign whole fraction exponent : List Char} (hs : IsSign sign)
      (hw : IsDigits whole) (hf : IsDigits fraction) (he : IsExponent exponent)
      (hx : floatValue (!sign.isEmpty) whole fraction exponent = x) :
      Spells (.float x) (sign ++ whole ++ '.' :: fraction ++ exponent)
  | escape {c e : Char} (h : simpleEscape? c = some e) : Spells (.escape e) ['\\', c]
  | codePoint {c : Char} {digits : List Char} (hlen : digits.length = 4)
      (h : namedChar? digits = some c) : Spells (.escape c) ('\\' :: 'u' :: digits)
  | characters (text : String) : Spells (.characters text) text.toList
  | input (name : String) : Spells (.input name) name.toList

/-- White space, or nothing. -/
def IsGap (cs : List Char) : Prop := ∀ c ∈ cs, Text.isBlank c

theorem isGap_nil : IsGap [] := fun _ hc => absurd hc List.not_mem_nil

theorem isGap_space : IsGap [' '] := by
  intro c hc
  obtain rfl := List.mem_singleton.1 hc
  decide

/-- Whether a string is the innermost open construct. -/
def InString (modes : List Mode) : Prop := modes.head? = some .string

theorem Lexer.ahead_of_inString {l : Lexer} (h : InString l.modes) : l.ahead = l.rest := if_pos h

theorem Lexer.ahead_of_not_inString {l : Lexer} (h : ¬ InString l.modes) :
    l.ahead = skipTrivia l.rest := if_neg h

/-- The texts of tokens with the constructs open after them: white space follows each token that a
string does not go on after, if there is another one. -/
inductive Writes : List (Token × List Mode) → List Char → Prop
  | nil : Writes [] []
  | inString {t : Token} {modes : List Mode} {steps : List (Token × List Mode)}
      {text rest : List Char} (h : Spells t text) (hm : InString modes) (hr : Writes steps rest) :
      Writes ((t, modes) :: steps) (text ++ rest)
  | between {t : Token} {modes : List Mode} {steps : List (Token × List Mode)}
      {text gap rest : List Char} (h : Spells t text) (hm : ¬ InString modes) (hg : IsGap gap)
      (hne : gap = [] → steps = []) (hr : Writes steps rest) :
      Writes ((t, modes) :: steps) (text ++ (gap ++ rest))

/-- A text of a document, perhaps with white space around it. -/
def Document.IsWrittenAs (c : Document) (text : List Char) : Prop :=
  ∃ gap rest, text = gap ++ rest ∧ IsGap gap ∧ Writes c.trace rest

/-! ## What follows a token -/

/-- A text that is empty or starts with white space. -/
def Ends (rest : List Char) : Prop := ∀ c ∈ rest.head?, Text.isBlank c

/-- A text that is empty or starts with white space or a closing bracket. -/
def Closes (rest : List Char) : Prop :=
  ∀ c ∈ rest.head?, Text.isBlank c ∨ c = ']' ∨ c = '\x7d'

/-- A rest that does not go on with the text of a token. Only segments without quotes need white
space behind them. -/
def Follows : Token → List Char → List Char → Prop
  | .characters _, _, rest => Stops isPlainChar rest
  | .input _, _, rest => Stops isNameChar rest
  | .integer _, _, rest | .float _, _, rest => Closes rest
  | .segment _, text, rest => text.head? ≠ some '\'' → Ends rest
  | .escape _, _, _ => True
  | .symbol s, _, rest => s = .dot → Ends rest

theorem Ends.stops {p : Char → Bool} (hp : ∀ c, Text.isBlank c → p c = false) {rest : List Char}
    (h : Ends rest) : Stops p rest :=
  fun c hc => hp c (h c hc)

theorem Ends.stops_name {rest : List Char} (h : Ends rest) : Stops isNameChar rest :=
  h.stops fun _ => isNameChar_of_isBlank

theorem Ends.stops_segment {rest : List Char} (h : Ends rest) : Stops isSegmentChar rest :=
  h.stops fun c hc => by simp [isSegmentChar, hc]

theorem Ends.closes {rest : List Char} (h : Ends rest) : Closes rest := fun c hc => .inl (h c hc)

theorem Closes.stops_digit {rest : List Char} (h : Closes rest) : Stops Char.isDigit rest := by
  intro c hc
  rcases h c hc with hblank | rfl | rfl
  · exact isDigit_of_isBlank hblank
  · rfl
  · rfl

theorem Closes.head_ne {c d : Char} {rest : List Char} (h : Closes (c :: rest))
    (hd : (!Text.isBlank d && d != ']' && d != '\x7d') = true) : c ≠ d := by
  rintro rfl
  rcases h c rfl with hblank | rfl | rfl
  · rw [hblank] at hd
    cases hd
  · cases hd
  · cases hd

theorem IsBareSegment.head_ne_quote {cs : List Char} (h : IsBareSegment cs) :
    cs.head? ≠ some '\'' := by
  obtain ⟨-, -, hstart, -, -⟩ := h
  intro hquote
  exact (hstart '\'' hquote).1 rfl

/-! ## Rules that decline -/

namespace Lexer

/-- The characters that a token of a class may start with. -/
def Pattern.mayStart : Pattern → Char → Bool
  | .symbol s, c => s.text.toList.head? == some c
  | .input, c => c == '$'
  | .quotedSegment, c => c == '\''
  | .segment, c => isSegmentChar c
  | .float, c | .integer, c => c == '-' || c.isDigit
  | .hexInteger, c => c == '0'
  | .escape, c => c == '\\'
  | .characters, c => isPlainChar c

theorem scanSymbol_of_not_mayStart {s : Symbol} {c : Char} {cs : List Char}
    (h : s.text.toList.head? ≠ some c) : scanSymbol s (c :: cs) = none := by
  cases hscan : scanSymbol s (c :: cs) with
  | none => rfl
  | some lexeme =>
    obtain ⟨rest, hcs, -⟩ := scanSymbol_eq_some_iff.1 hscan
    refine absurd ?_ h
    rw [← List.head?_append_of_ne_nil _ (text_ne_nil s), ← hcs, List.head?_cons]

theorem signOf_of_ne {c : Char} {cs : List Char} (h : c ≠ '-') : signOf (c :: cs) = [] := by
  unfold signOf
  split
  · rename_i heq
    exact absurd (List.cons.inj heq).1 h
  · rfl

/-- A pattern declines what cannot start with its first character. -/
theorem scan_of_not_mayStart {p : Pattern} {c : Char} {cs : List Char}
    (h : p.mayStart c = false) : p.scan (c :: cs) = .ok none := by
  cases p with
  | symbol s =>
    have hne : s.text.toList.head? ≠ some c := by simpa [Pattern.mayStart] using h
    rw [Pattern.scan, scanSymbol_of_not_mayStart hne]
  | input =>
    simp only [Pattern.mayStart, beq_eq_false_iff_ne] at h
    simp [Pattern.scan, scanInput, h]
  | quotedSegment =>
    simp only [Pattern.mayStart, beq_eq_false_iff_ne] at h
    simp [Pattern.scan, scanQuotedSegment, h]
  | segment =>
    simp only [Pattern.mayStart] at h
    simp [Pattern.scan, scanSegment, h]
  | float =>
    simp only [Pattern.mayStart, Bool.or_eq_false_iff, beq_eq_false_iff_ne] at h
    simp [Pattern.scan, scanFloat, signOf_of_ne h.1, h.2]
  | hexInteger =>
    simp only [Pattern.mayStart, beq_eq_false_iff_ne] at h
    simp [Pattern.scan, scanHexInteger, h]
  | integer =>
    simp only [Pattern.mayStart, Bool.or_eq_false_iff, beq_eq_false_iff_ne] at h
    simp [Pattern.scan, scanInteger, signOf_of_ne h.1, h.2]
  | escape =>
    simp only [Pattern.mayStart, beq_eq_false_iff_ne] at h
    simp [Pattern.scan, scanEscape, h]
  | characters =>
    simp only [Pattern.mayStart] at h
    simp [Pattern.scan, scanCharacters, h]

theorem firstMatch_of_declined {before rules : List Rule} {cs : List Char}
    (hbefore : ∀ r ∈ before, r.pattern.scan cs = .ok none) :
    firstMatch (before ++ rules) cs = firstMatch rules cs := by
  induction before with
  | nil => rfl
  | cons r before ih =>
    obtain ⟨hr, hbefore⟩ := List.forall_mem_cons.1 hbefore
    rw [List.cons_append, firstMatch, hr]
    exact ih hbefore

theorem firstMatch_append {before after : List Rule} {rule : Rule} {cs : List Char}
    {lexeme : Lexeme} (hbefore : ∀ r ∈ before, r.pattern.scan cs = .ok none)
    (h : rule.pattern.scan cs = .ok (some lexeme)) :
    firstMatch (before ++ rule :: after) cs = .ok (some (lexeme, rule.move)) := by
  rw [firstMatch_of_declined hbefore, firstMatch, h]

/-- The rules of a mode before the one for a pattern. -/
def Mode.before (mode : Mode) (p : Pattern) : List Rule :=
  mode.rules.takeWhile fun r => r.pattern ≠ p

/-- A pattern of a mode reads a token where the rules before it decline. -/
theorem firstMatch_of_before {mode : Mode} {p : Pattern} {cs : List Char} {lexeme : Lexeme}
    {move : Move} (hm : mode.moveOn lexeme.token = some move)
    (hp : ∃ r ∈ mode.rules, r.pattern = p)
    (hbefore : ∀ r ∈ mode.before p, r.pattern.scan cs = .ok none)
    (hscan : p.scan cs = .ok (some lexeme)) :
    firstMatch mode.rules cs = .ok (some (lexeme, move)) := by
  have hsplit : mode.before p ++ mode.rules.dropWhile (fun r => r.pattern ≠ p) = mode.rules :=
    List.takeWhile_append_dropWhile
  cases hdrop : mode.rules.dropWhile fun r => r.pattern ≠ p with
  | nil =>
    obtain ⟨r, hr, hrp⟩ := hp
    have hall := List.dropWhile_eq_nil_iff.1 hdrop r hr
    simp [hrp] at hall
  | cons rule after =>
    have hrule : rule.pattern = p := by
      have h := List.head?_dropWhile_not (fun r : Rule => r.pattern ≠ p) mode.rules
      rw [hdrop] at h
      simpa using h
    rw [hdrop] at hsplit
    have hmem : rule ∈ mode.rules := by rw [← hsplit]; simp
    have hmakes : rule.pattern.makes lexeme.token := makes_of_scan (hrule ▸ hscan)
    have hmove : rule.move = move := by
      rw [moveOn_of_mem hmem hmakes] at hm
      exact Option.some.inj hm
    rw [← hsplit, ← hmove]
    exact firstMatch_append hbefore (hrule ▸ hscan)

theorem read_of_before {mode : Mode} {outer : List Mode} {p : Pattern} {t : Token} {move : Move}
    {c : Char} {text rest : List Char} (hm : mode.moveOn t = some move)
    (hp : ∃ r ∈ mode.rules, r.pattern = p)
    (hbefore : ∀ r ∈ mode.before p, r.pattern.scan (c :: text ++ rest) = .ok none)
    (hscan : p.scan (c :: text ++ rest) = .ok (some ⟨t, c :: text⟩)) :
    read (mode :: outer) (c :: text ++ rest) = .ok (some (⟨t, c :: text⟩, move)) := by
  have hfirst := firstMatch_of_before hm hp hbefore hscan
  rw [List.cons_append] at hfirst ⊢
  simp [read, hfirst]

theorem read_of_start {mode : Mode} {outer : List Mode} {p : Pattern} {t : Token} {move : Move}
    {c : Char} {text rest : List Char} (hm : mode.moveOn t = some move)
    (hp : ∃ r ∈ mode.rules, r.pattern = p)
    (hstart : ∀ r ∈ mode.before p, r.pattern.mayStart c = false)
    (hscan : p.scan (c :: text ++ rest) = .ok (some ⟨t, c :: text⟩)) :
    read (mode :: outer) (c :: text ++ rest) = .ok (some (⟨t, c :: text⟩, move)) :=
  read_of_before hm hp (fun r hr => scan_of_not_mayStart (hstart r hr)) hscan

/-! ## Symbols and names -/

theorem before_symbol {mode : Mode} {s : Symbol} (h : (mode.moveOn (.symbol s)).isSome) :
    (∃ r ∈ mode.rules, r.pattern = .symbol s) ∧
      ∀ r ∈ mode.before (.symbol s),
        (r.pattern = .symbol .spread ∧ s = .dot) ∨
          (s.text.toList.head?.all fun c => !r.pattern.mayStart c) = true := by
  revert h
  cases mode <;> cases s <;> decide

theorem read_symbol {mode : Mode} {outer : List Mode} {s : Symbol} {move : Move}
    {rest : List Char} (hm : mode.moveOn (.symbol s) = some move) (hf : s = .dot → Ends rest) :
    read (mode :: outer) (s.text.toList ++ rest) =
      .ok (some (⟨.symbol s, s.text.toList⟩, move)) := by
  obtain ⟨hp, hbefore⟩ := before_symbol (Option.isSome_of_eq_some hm)
  have hscan : Pattern.scan (.symbol s) (s.text.toList ++ rest) =
      .ok (some ⟨.symbol s, s.text.toList⟩) := by
    rw [Pattern.scan, scanSymbol_eq_some_iff.2 ⟨rest, rfl, rfl⟩]
  cases htext : s.text.toList with
  | nil => exact absurd htext (text_ne_nil s)
  | cons c text =>
    rw [htext] at hscan hbefore
    refine read_of_before hm hp (fun r hr => ?_) hscan
    rcases hbefore r hr with ⟨hspread, rfl⟩ | hstart
    · -- A dot before white space is no spread.
      obtain ⟨rfl, rfl⟩ : c = '.' ∧ text = [] := by simpa [Symbol.text, eq_comm] using htext
      rw [hspread, Pattern.scan]
      cases rest with
      | nil => rfl
      | cons d rest =>
        have hd : Text.isBlank d := hf rfl d rfl
        have hne : d ≠ '.' := by
          rintro rfl
          exact absurd hd (by decide)
        simp [scanSymbol, Symbol.text, hne.symm]
    · exact scan_of_not_mayStart (by simpa using hstart)

theorem before_input {mode : Mode} {name : String} (h : (mode.moveOn (.input name)).isSome) :
    (∃ r ∈ mode.rules, r.pattern = .input) ∧
      ∀ r ∈ mode.before .input, r.pattern.mayStart '$' = false := by
  cases mode with
  | topLevel => cases h
  | _ => decide

theorem read_input {mode : Mode} {outer : List Mode} {name : String} {move : Move}
    {rest : List Char} (hm : mode.moveOn (.input name) = some move) (hname : NameLexable name)
    (hf : Stops isNameChar rest) :
    read (mode :: outer) (name.toList ++ rest) =
      .ok (some (⟨.input name, name.toList⟩, move)) := by
  obtain ⟨hp, hbefore⟩ := before_input (Option.isSome_of_eq_some hm)
  have hscan : Pattern.scan .input (name.toList ++ rest) =
      .ok (some ⟨.input name, name.toList⟩) := by
    rw [Pattern.scan, scanInput_eq_some_iff.2 ⟨name.toList, rest, rfl, hname, hf, rfl⟩,
      String.ofList_toList]
  obtain ⟨c, run, htext, -⟩ := isName_iff.1 hname
  rw [htext] at hscan ⊢
  exact read_of_start hm hp hbefore hscan

/-! ## Segments -/

theorem before_segment {mode : Mode} {s : String} (h : (mode.moveOn (.segment s)).isSome) :
    mode = .object := by
  cases mode with
  | object => rfl
  | _ => cases h

theorem read_quoted {mode : Mode} {outer : List Mode} {s : String} {move : Move}
    {rest : List Char} (hm : mode.moveOn (.segment s) = some move) (hs : '\'' ∉ s.toList) :
    read (mode :: outer) ('\'' :: s.toList ++ ['\''] ++ rest) =
      .ok (some (⟨.segment s, '\'' :: s.toList ++ ['\'']⟩, move)) := by
  obtain rfl := before_segment (Option.isSome_of_eq_some hm)
  have hscan : Pattern.scan .quotedSegment ('\'' :: s.toList ++ ['\''] ++ rest) =
      .ok (some ⟨.segment s, '\'' :: s.toList ++ ['\'']⟩) := by
    rw [Pattern.scan, scanQuotedSegment_eq_ok_iff]
    exact ⟨s.toList, rest, by simp, hs, by rw [String.ofList_toList]⟩
  exact read_of_start hm (by decide) (by decide) hscan

theorem scanInput_of_bare {text rest : List Char} (h : IsBareSegment text) (hf : Ends rest) :
    scanInput (text ++ rest) = none := by
  obtain ⟨hne, hchars, -, -, hname⟩ := h
  cases hscan : scanInput (text ++ rest) with
  | none => rfl
  | some lexeme =>
    obtain ⟨name, rest', heq, hn, -, -⟩ := scanInput_eq_some_iff.1 hscan
    obtain ⟨c, run, rfl, hc, -⟩ := isName_iff.1 hn
    match text, hne with
    | [d], _ =>
      -- The name would go on into the white space.
      simp only [List.cons_append, List.nil_append, List.cons.injEq] at heq
      obtain ⟨rfl, rfl⟩ := heq
      have hblank := isNameChar_of_isBlank (hf c rfl)
      rw [isNameChar_of_isNameStart hc] at hblank
      cases hblank
    | d :: d' :: text, _ =>
      simp only [List.cons_append, List.cons.injEq] at heq
      obtain ⟨rfl, rfl, -⟩ := heq
      have hstart := hname d' text rfl
      rw [hc] at hstart
      cases hstart

theorem read_bare {mode : Mode} {outer : List Mode} {s : String} {move : Move}
    {rest : List Char} (hm : mode.moveOn (.segment s) = some move) (hs : IsBareSegment s.toList)
    (hf : Ends rest) :
    read (mode :: outer) (s.toList ++ rest) = .ok (some (⟨.segment s, s.toList⟩, move)) := by
  obtain rfl := before_segment (Option.isSome_of_eq_some hm)
  have hinput := scanInput_of_bare hs hf
  obtain ⟨hne, hchars, hstart, -, -⟩ := hs
  have hscan : Pattern.scan .segment (s.toList ++ rest) = .ok (some ⟨.segment s, s.toList⟩) := by
    rw [Pattern.scan,
      scanSegment_eq_some_iff.2 ⟨s.toList, rest, rfl, hne, hchars, hf.stops_segment, rfl⟩,
      String.ofList_toList]
  cases htext : s.toList with
  | nil => exact absurd htext hne
  | cons c text =>
    rw [htext] at hscan hinput hchars hstart
    obtain ⟨hquote, hbrace⟩ := hstart c rfl
    have hc := hchars c List.mem_cons_self
    simp only [isSegmentChar, Bool.and_eq_true, bne_iff_ne] at hc
    refine read_of_before hm (by decide) (fun r hr => ?_) hscan
    have hbefore : r.pattern = .input ∨ r.pattern ∈ [.symbol .braceClose, .symbol .equals,
        .symbol .spread, .symbol .dot, Pattern.quotedSegment] := by
      revert r
      decide
    rcases hbefore with h | h
    · rw [h, Pattern.scan, hinput]
    · refine scan_of_not_mayStart ?_
      simp only [List.mem_cons, List.not_mem_nil, or_false] at h
      obtain ⟨⟨-, hequals⟩, hdot⟩ := hc
      rcases h with h | h | h | h | h <;> rw [h] <;>
        simp [Pattern.mayStart, Symbol.text, hbrace.symm, hquote, hequals.symm, hdot.symm]

/-! ## Numbers -/

/-- The patterns for symbols and inputs, which no number starts as. -/
def Pattern.isOther : Pattern → Bool
  | .symbol _ | .input => true
  | _ => false

theorem scan_of_isOther {p : Pattern} {c : Char} {cs : List Char} (hp : p.isOther)
    (hc : c = '-' ∨ c.isDigit) : p.scan (c :: cs) = .ok none := by
  have hne {d : Char} (hd : (d != '-' && !d.isDigit) = true) : c ≠ d := by
    rintro rfl
    rcases hc with rfl | hc
    · cases hd
    · simp [hc] at hd
  refine scan_of_not_mayStart ?_
  cases p with
  | symbol s =>
    have hhead : s.text.toList.head?.all (fun c => c != '-' && !c.isDigit) = true := by
      cases s <;> decide
    cases hstart : (Pattern.symbol s).mayStart c with
    | false => rfl
    | true =>
      have hsome : s.text.toList.head? = some c := by simpa [Pattern.mayStart] using hstart
      rw [hsome] at hhead
      exact absurd rfl (hne hhead)
  | input => simpa [Pattern.mayStart] using hne (by decide)
  | _ => cases hp

theorem number_start {sign digits : List Char} (hs : IsSign sign) (hd : IsDigits digits) :
    ∃ c text, sign ++ digits = c :: text ∧ (c = '-' ∨ c.isDigit) := by
  rcases hs with rfl | rfl
  · obtain ⟨hne, hdigits⟩ := hd
    cases digits with
    | nil => exact absurd rfl hne
    | cons d digits => exact ⟨d, digits, rfl, .inr (hdigits d List.mem_cons_self)⟩
  · exact ⟨'-', digits, rfl, .inl rfl⟩

theorem number_mode {mode : Mode} {t : Token} (ht : (∃ x, t = .float x) ∨ ∃ n, t = .integer n)
    (h : (mode.moveOn t).isSome) : mode = .value ∨ mode = .array := by
  rcases ht with ⟨x, rfl⟩ | ⟨n, rfl⟩ <;> cases mode <;>
    first | exact .inl rfl | exact .inr rfl | cases h

theorem exponentOf_append_of_closes {exponent rest : List Char} (he : IsExponent exponent)
    (hf : Closes rest) :
    exponentOf (exponent ++ rest) = exponent ∧ Stops Char.isDigit (exponent ++ rest) := by
  by_cases hne : exponent = []
  · subst hne
    refine ⟨?_, hf.stops_digit⟩
    cases rest with
    | nil => rfl
    | cons c rest =>
      have hc : ¬ (c = 'e' ∨ c = 'E') :=
        not_or.2 ⟨hf.head_ne (by decide), hf.head_ne (by decide)⟩
      simp [exponentOf, hc]
  · refine ⟨(exponentOf_append_iff he hne).2 hf.stops_digit, ?_⟩
    rcases he with rfl | ⟨e, sign, digits, he, -, -, rfl⟩
    · exact absurd rfl hne
    · rw [List.cons_append, List.cons_append, stops_cons]
      rcases he with rfl | rfl <;> rfl

theorem read_float {mode : Mode} {outer : List Mode} {x : Binary64} {move : Move}
    {sign whole fraction exponent rest : List Char} (hm : mode.moveOn (.float x) = some move)
    (hs : IsSign sign) (hw : IsDigits whole) (hfr : IsDigits fraction) (he : IsExponent exponent)
    (hx : floatValue (!sign.isEmpty) whole fraction exponent = x) (hfinite : x.isFinite)
    (hf : Closes rest) :
    read (mode :: outer) (sign ++ whole ++ '.' :: fraction ++ exponent ++ rest) =
      .ok (some (⟨.float x, sign ++ whole ++ '.' :: fraction ++ exponent⟩, move)) := by
  obtain ⟨hexponent, hstop⟩ := exponentOf_append_of_closes he hf
  have hscan : Pattern.scan .float (sign ++ whole ++ '.' :: fraction ++ exponent ++ rest) =
      .ok (some ⟨.float x, sign ++ whole ++ '.' :: fraction ++ exponent⟩) := by
    rw [Pattern.scan, scanFloat_eq_ok_iff]
    subst hx
    exact ⟨sign, whole, fraction, exponent, rest, by simp, hs, hw, hfr, hstop, hexponent, hfinite,
      rfl⟩
  have hmode := number_mode (.inl ⟨x, rfl⟩) (Option.isSome_of_eq_some hm)
  have hp : (∃ r ∈ mode.rules, r.pattern = .float) ∧
      ∀ r ∈ mode.before .float, r.pattern.isOther := by
    rcases hmode with rfl | rfl <;> decide
  obtain ⟨c, text, htext, hc⟩ := number_start hs hw
  simp only [htext, List.cons_append] at hscan ⊢
  exact read_of_before hm hp.1 (fun r hr => scan_of_isOther (hp.2 r hr) hc) hscan

theorem scanFloat_of_closes {sign digits rest : List Char} (hs : IsSign sign) (hd : IsDigits digits)
    (hf : Closes rest) : scanFloat (sign ++ digits ++ rest) = .ok none := by
  have hne : digits.isEmpty = false := by simpa using hd.1
  unfold scanFloat
  rw [List.append_assoc, signOf_append hs hd]
  dsimp only
  rw [List.drop_left, takeWhile_append_of_stops hd.2 hf.stops_digit, hne, ← List.append_assoc,
    List.drop_left]
  cases rest with
  | nil => rfl
  | cons c rest =>
    have hc : c ≠ '.' := hf.head_ne (by decide)
    simp [hc]

theorem scanHexInteger_of_closes {sign digits rest : List Char} (hs : IsSign sign)
    (hd : IsDigits digits) (hf : Closes rest) :
    scanHexInteger (sign ++ digits ++ rest) = .ok none := by
  unfold scanHexInteger
  split
  · rename_i cs heq
    rcases hs with rfl | rfl
    · -- The letter after the zero is neither a digit nor white space.
      match digits, hd with
      | [], hd => exact absurd rfl hd.1
      | [d], _ =>
        obtain rfl : rest = 'x' :: cs := by simpa using (List.cons.inj heq).2
        exact absurd rfl (hf.head_ne (by decide))
      | d :: d' :: digits, hd =>
        obtain rfl : d' = 'x' := (List.cons.inj (List.cons.inj heq).2).1
        exact absurd (hd.2 'x' (by simp)) (by decide)
    · exact absurd (List.cons.inj heq).1 (by decide)
  · rfl

theorem read_integer {mode : Mode} {outer : List Mode} {n : Int32} {move : Move}
    {sign digits rest : List Char} (hm : mode.moveOn (.integer n) = some move)
    (hs : IsSign sign) (hd : IsDigits digits) (hn : integerValue sign digits = n.toInt)
    (hf : Closes rest) :
    read (mode :: outer) (sign ++ digits ++ rest) =
      .ok (some (⟨.integer n, sign ++ digits⟩, move)) := by
  have hscan : Pattern.scan .integer (sign ++ digits ++ rest) =
      .ok (some ⟨.integer n, sign ++ digits⟩) := by
    rw [Pattern.scan, scanInteger_eq_ok_iff]
    refine ⟨sign, digits, rest, by simp, hs, hd, hf.stops_digit, ?_, ?_⟩
    · rw [hn]
      exact ⟨n.le_toInt, n.toInt_lt⟩
    · rw [hn, Int32.ofInt_toInt]
  have hmode := number_mode (.inr ⟨n, rfl⟩) (Option.isSome_of_eq_some hm)
  have hp : (∃ r ∈ mode.rules, r.pattern = .integer) ∧
      ∀ r ∈ mode.before .integer,
        r.pattern.isOther ∨ r.pattern = .float ∨ r.pattern = .hexInteger := by
    rcases hmode with rfl | rfl <;> decide
  have hfloat := scanFloat_of_closes hs hd hf
  have hhex := scanHexInteger_of_closes hs hd hf
  obtain ⟨c, text, htext, hc⟩ := number_start hs hd
  rw [htext] at hscan hfloat hhex ⊢
  refine read_of_before hm hp.1 (fun r hr => ?_) hscan
  rcases hp.2 r hr with h | h | h
  · exact scan_of_isOther h hc
  · rw [h, Pattern.scan, hfloat]
  · rw [h, Pattern.scan, hhex]

/-! ## Pieces of strings -/

theorem string_mode {mode : Mode} {t : Token}
    (ht : (∃ c, t = .escape c) ∨ ∃ text, t = .characters text) (h : (mode.moveOn t).isSome) :
    mode = .string := by
  rcases ht with ⟨c, rfl⟩ | ⟨text, rfl⟩ <;> cases mode <;> first | rfl | cases h

theorem read_escape {mode : Mode} {outer : List Mode} {c : Char} {move : Move}
    {text rest : List Char} (hm : mode.moveOn (.escape c) = some move)
    (hscan : scanEscape ('\\' :: text ++ rest) = .ok (some ⟨.escape c, '\\' :: text⟩)) :
    read (mode :: outer) ('\\' :: text ++ rest) =
      .ok (some (⟨.escape c, '\\' :: text⟩, move)) := by
  obtain rfl := string_mode (.inl ⟨c, rfl⟩) (Option.isSome_of_eq_some hm)
  exact read_of_start (p := .escape) hm (by decide) (by decide) hscan

theorem read_characters {mode : Mode} {outer : List Mode} {text : String} {move : Move}
    {rest : List Char} (hm : mode.moveOn (.characters text) = some move)
    (ht : (Token.characters text).Lexable) (hf : Stops isPlainChar rest) :
    read (mode :: outer) (text.toList ++ rest) =
      .ok (some (⟨.characters text, text.toList⟩, move)) := by
  obtain rfl := string_mode (.inr ⟨text, rfl⟩) (Option.isSome_of_eq_some hm)
  obtain ⟨hne, hplain⟩ := ht
  have hscan : Pattern.scan .characters (text.toList ++ rest) =
      .ok (some ⟨.characters text, text.toList⟩) := by
    rw [Pattern.scan,
      scanCharacters_eq_some_iff.2 ⟨text.toList, rest, rfl, hne, hplain, hf, rfl⟩,
      String.ofList_toList]
  cases htext : text.toList with
  | nil => exact absurd htext hne
  | cons c cs =>
    rw [htext] at hscan hplain
    have hc := hplain c List.mem_cons_self
    simp only [isPlainChar, Bool.and_eq_true, bne_iff_ne] at hc
    refine read_of_start hm (by decide) (fun r hr => ?_) hscan
    have hbefore : r.pattern ∈ [.symbol .quote, Pattern.input, .escape] := by
      revert r
      decide
    simp only [List.mem_cons, List.not_mem_nil, or_false] at hbefore
    obtain ⟨⟨hbackslash, hquote⟩, hdollar⟩ := hc
    rcases hbefore with h | h | h <;> rw [h] <;>
      simp [Pattern.mayStart, Symbol.text, hquote.symm, hdollar, hbackslash]

/-- **What was written is read**, in every mode that has a move for it, before every rest that does
not go on with it. -/
theorem read_spelling {mode : Mode} {outer : List Mode} {t : Token} {move : Move}
    {text rest : List Char} (hs : Spells t text) (ht : t.Lexable)
    (hm : mode.moveOn t = some move) (hf : Follows t text rest) :
    read (mode :: outer) (text ++ rest) = .ok (some (⟨t, text⟩, move)) := by
  cases hs with
  | symbol s => exact read_symbol hm hf
  | quoted h => exact read_quoted hm h
  | bare h => exact read_bare hm h (hf h.head_ne_quote)
  | integer hs hd hn => exact read_integer hm hs hd hn hf
  | float hs hw hfr he hx => exact read_float hm hs hw hfr he hx ht hf
  | escape h =>
    refine read_escape hm (scanEscape_eq_ok_iff.2 (.inr ?_))
    exact ⟨_, _, rest, rfl, h, rfl⟩
  | codePoint hlen h =>
    refine read_escape hm (scanEscape_eq_ok_iff.2 (.inl ?_))
    exact ⟨_, _, rest, by simp, hlen, h, rfl⟩
  | characters text => exact read_characters hm ht hf
  | input name => exact read_input hm ht hf

end Lexer

end ConfigLang
