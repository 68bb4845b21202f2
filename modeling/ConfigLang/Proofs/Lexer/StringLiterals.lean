import ConfigLang.Proofs.Evaluation.Evaluating
import ConfigLang.Proofs.Lexer.NumberLiterals
import ConfigLang.Proofs.Lexer.RoundTrip

/-!
# String literals

A string literal is a quote, a text made of units, and the first quote that is no part of a unit. A
unit is a character that stands for itself or an escape, and the string is what the units stand for,
one after another, however the lexer groups them.

* `Arrives`: a lexer and a draft that have read the same tokens from the start of a text.
* `arrives_body`: the induction on the units; what is carried along is the run of characters that
  the lexer has not cut off yet.
* `string_decoded`: the statement for whole documents.
-/

namespace ConfigLang

open Lexer

/-! ## Units -/

/-- The characters that a backslash may stand before, each with what the two stand for. -/
def escapes : List (Char × Char) :=
  [('\\', '\\'), ('"', '"'), ('n', '\n'), ('r', '\r'), ('t', '\t'), ('$', '$')]

/-- A unit of a string literal: a character and a text that stands for it. -/
inductive SpellsChar : Char → List Char → Prop
  | raw {c : Char} (hbackslash : c ≠ '\\') (hquote : c ≠ '"') (hdollar : c ≠ '$') :
      SpellsChar c [c]
  | escape {e c : Char} (h : (e, c) ∈ escapes) : SpellsChar c ['\\', e]
  | codePoint {c : Char} {digits : List Char} (hlength : digits.length = 4)
      (hdigits : ∀ d ∈ digits, Text.isHexDigit d) (hvalue : Text.ofHexDigits digits 0 = c.toNat) :
      SpellsChar c ('\\' :: 'u' :: digits)

/-- Units one after another: the characters that they stand for, and their text. -/
inductive SpellsBody : List Char → List Char → Prop
  | nil : SpellsBody [] []
  | cons {c : Char} {cs text body : List Char} (hc : SpellsChar c text) (h : SpellsBody cs body) :
      SpellsBody (c :: cs) (text ++ body)

/-- No escape goes on behind a backslash as this text does. -/
def BeginsNoEscape (rest : List Char) : Prop :=
  ∀ c text, SpellsChar c ('\\' :: text) → ¬ text <+: rest

/-- What a message quotes of a backslash and the text behind it. -/
def brokenEscape (rest : List Char) : String :=
  String.ofList ('\\' :: rest.take (if rest.head? = some 'u' then 5 else 1))

/-! ## Escapes -/

namespace Lexer

theorem simpleEscape?_eq_some_iff {e c : Char} : simpleEscape? e = some c ↔ (e, c) ∈ escapes := by
  constructor
  · intro h
    unfold simpleEscape? at h
    split at h <;> cases h <;> decide
  · intro h
    simp only [escapes, List.mem_cons, Prod.mk.injEq, List.not_mem_nil, or_false] at h
    rcases h with ⟨rfl, rfl⟩ | ⟨rfl, rfl⟩ | ⟨rfl, rfl⟩ | ⟨rfl, rfl⟩ | ⟨rfl, rfl⟩ | ⟨rfl, rfl⟩ <;>
      rfl

theorem namedChar?_eq_some_iff {cs : List Char} {c : Char} :
    namedChar? cs = some c ↔ (cs.take 4).length = 4 ∧ (∀ d ∈ cs.take 4, Text.isHexDigit d) ∧
      Text.ofHexDigits (cs.take 4) 0 = c.toNat := by
  unfold namedChar? charOfCodePoint?
  dsimp only
  constructor
  · intro h
    split at h
    · rename_i hdigits
      split at h
      · rename_i hvalid
        cases h
        exact ⟨hdigits.1, List.all_eq_true.1 hdigits.2, (toNat_of_isValidChar hvalid).symm⟩
      · cases h
    · cases h
  · rintro ⟨hlength, hdigits, hvalue⟩
    have hvalid : c.toNat.isValidChar := c.valid
    rw [if_pos ⟨hlength, List.all_eq_true.2 hdigits⟩, hvalue, if_pos hvalid, Char.ofNat_toNat]

/-- A backslash that begins no escape is refused, whatever stands behind it. -/
theorem scanEscape_of_beginsNoEscape {rest : List Char} (h : BeginsNoEscape rest) :
    scanEscape ('\\' :: rest) = .error (.invalidEscape (brokenEscape rest)) := by
  cases rest with
  | nil => rfl
  | cons e cs =>
    by_cases hu : e = 'u'
    · subst hu
      have hnone : namedChar? cs = none := by
        cases hc : namedChar? cs with
        | none => rfl
        | some c =>
          obtain ⟨hlength, hdigits, hvalue⟩ := namedChar?_eq_some_iff.1 hc
          have hprefix : 'u' :: cs.take 4 <+: 'u' :: cs :=
            (List.prefix_cons_inj 'u').2 (List.take_prefix 4 cs)
          exact absurd hprefix (h c _ (.codePoint hlength hdigits hvalue))
      simp [scanEscape, hnone, brokenEscape]
    · have hnone : simpleEscape? e = none := by
        cases hc : simpleEscape? e with
        | none => rfl
        | some c =>
          have hprefix : [e] <+: e :: cs := ⟨cs, rfl⟩
          exact absurd hprefix (h c _ (.escape (simpleEscape?_eq_some_iff.1 hc)))
      simp [scanEscape, hnone, brokenEscape, hu]

end Lexer

/-- A unit is a character that stands for itself, or the text of an escape. -/
theorem SpellsChar.cases_token {c : Char} {text : List Char} (h : SpellsChar c text) :
    (text = [c] ∧ isPlainChar c) ∨
      Spells (.escape c) text ∧ (Token.escape c).Lexable ∧ ∃ tail, text = '\\' :: tail := by
  cases h with
  | raw hbackslash hquote hdollar =>
    exact .inl ⟨rfl, by simp [isPlainChar, hbackslash, hquote, hdollar]⟩
  | escape h =>
    refine .inr ⟨.escape (simpleEscape?_eq_some_iff.2 h), ?_, _, rfl⟩
    revert h
    simp only [escapes, List.mem_cons, Prod.mk.injEq, List.not_mem_nil, or_false]
    rintro (⟨-, rfl⟩ | ⟨-, rfl⟩ | ⟨-, rfl⟩ | ⟨-, rfl⟩ | ⟨-, rfl⟩ | ⟨-, rfl⟩) <;>
      simp [Token.Lexable]
  | @codePoint _ digits hlength hdigits hvalue =>
    have htake : digits.take 4 = digits := List.take_of_length_le hlength.le
    have hnamed : namedChar? digits = some c := by
      rw [namedChar?_eq_some_iff, htake]
      exact ⟨hlength, hdigits, hvalue⟩
    exact .inr ⟨.codePoint hlength hnamed, namedChar?_le hnamed, _, rfl⟩

/-! ## Lexer and draft side by side -/

/-- From the start of a text, the lexer has read the tokens that lead to a draft, and stands before
`rest` with the constructs of the draft open. -/
inductive Arrives (source : List Char) : Draft → List Char → Prop
  | start : Arrives source .start source
  | step {d d' : Draft} {rest rest' : List Char} {lexeme : Lexeme} (h : Arrives source d rest)
      (hnext : next ⟨rest, d.modes⟩ = (.ok (some lexeme), ⟨rest', d'.modes⟩))
      (ht : d.extend lexeme.token = some d') : Arrives source d' rest'

section
variable {source rest : List Char} {d : Draft}

theorem Arrives.tokens_run (h : Arrives source d rest) :
    (ofText source).run.tokens = (run ⟨rest, d.modes⟩).tokens.map (d.tokens ++ ·) := by
  induction h with
  | start => cases hrun : (ofText source).run.tokens <;> exact hrun.symm ▸ rfl
  | @step d d' rest rest' lexeme _ hnext ht ih =>
    rw [ih, run_eq, hnext, extend_tokens ht]
    unfold Run.tokens
    cases (run ⟨rest', d'.modes⟩).error <;> simp [Except.map]

/-- Where the lexer refuses what comes next, the text has no tokens. -/
theorem Arrives.compile_error (h : Arrives source d rest) {e : LexError}
    (hrefuses : Refuses ⟨rest, d.modes⟩ e) (env : Environment) :
    compile env (String.ofList source) = .error (.lex e) := by
  have htokens : tokenize (String.ofList source) = .error e := by
    rw [tokenize, String.toList_ofList, h.tokens_run, run_eq, hrefuses]
    rfl
  simp [compile, documentOf, tokensOf, htokens, Except.mapError, bind, Except.bind]

/-- A complete document before the end of the text has been read from it. -/
theorem Arrives.documentOf {c : Document} (h : Arrives source (.complete c) [])
    (hdepth : c.depth ≤ nestingLimit) : documentOf (String.ofList source) = .ok c := by
  refine documentOf_eq_ok_iff.2 ⟨?_, hdepth⟩
  have hnext : next ⟨[], (Draft.complete c).modes⟩ = (.ok none, ⟨[], (Draft.complete c).modes⟩) :=
    rfl
  rw [tokenize, String.toList_ofList, h.tokens_run, run_eq, hnext]
  simp [Run.tokens, Except.map, Draft.tokens]

/-- What was written is read, perhaps behind white space. -/
theorem Arrives.read {d' : Draft} {t : Token} {gap text : List Char}
    (h : Arrives source d (gap ++ (text ++ rest))) (ht : d.extend t = some d') (hlex : t.Lexable)
    (hs : Spells t text) (hf : Follows t text rest)
    (hgap : gap = [] ∨ IsGap gap ∧ ¬ InString d.modes) : Arrives source d' rest := by
  refine h.step (next_of_spelling ht hlex hs hf ⟨fun hin => ?_, fun _ => ?_⟩) ht
  · exact hgap.resolve_right fun hout => hout.2 hin
  · rcases hgap with rfl | ⟨hgap, -⟩
    · exact isGap_nil
    · exact hgap

theorem Arrives.read_symbol {d' : Draft} {s : Symbol} {gap : List Char}
    (h : Arrives source d (gap ++ (s.text.toList ++ rest))) (ht : d.extend (.symbol s) = some d')
    (hdot : s ≠ .dot) (hgap : gap = [] ∨ IsGap gap ∧ ¬ InString d.modes) : Arrives source d' rest :=
  h.read ht trivial (.symbol s) (fun hs => absurd hs hdot) hgap

/-! ## Pieces of a string -/

variable {place : Context} {done : List Part}

/-- Pieces that stand for a text, whatever the inputs are. -/
def PiecesOf (parts : List Part) (cs : List Char) : Prop :=
  ∀ env scope, evalParts env scope parts = .ok (String.ofList cs)

theorem PiecesOf.single {part : Part} {cs : List Char}
    (h : ∀ env scope, part.eval env scope = .ok (String.ofList cs)) : PiecesOf [part] cs := by
  intro env scope
  rw [evalParts, h]
  exact congrArg Except.ok String.append_empty

theorem PiecesOf.append {parts parts' : List Part} {cs cs' : List Char} (h : PiecesOf parts cs)
    (h' : PiecesOf parts' cs') : PiecesOf (parts ++ parts') (cs ++ cs') := by
  intro env scope
  rw [evalParts_append, h, h']
  exact congrArg Except.ok String.ofList_append.symm

theorem Arrives.read_part {part : Part} {text : List Char}
    (h : Arrives source (.parts place done) (text ++ rest)) (hlex : part.token.Lexable)
    (hs : Spells part.token text) (hf : Follows part.token text rest) :
    Arrives source (.parts place (part :: done)) rest := by
  have ht : (Draft.parts place done).extend part.token = some (.parts place (part :: done)) := by
    cases part <;> rfl
  exact Arrives.read h ht hlex hs hf (.inl rfl)

/-- A run of characters is cut off where one follows that does not stand for itself. -/
theorem arrives_run {run : List Char} (hrun : ∀ c ∈ run, isPlainChar c)
    (hstop : Stops isPlainChar rest) (h : Arrives source (.parts place done) (run ++ rest)) :
    ∃ parts, PiecesOf parts run ∧ Arrives source (.parts place (parts.reverse ++ done)) rest := by
  cases run with
  | nil => exact ⟨[], fun _ _ => rfl, h⟩
  | cons c run =>
    have hpiece : PiecesOf [.characters (String.ofList (c :: run))] (c :: run) :=
      .single fun _ _ => rfl
    have hlex : (Token.characters (String.ofList (c :: run))).Lexable := by
      rw [Token.Lexable, String.toList_ofList]
      exact ⟨List.cons_ne_nil c run, hrun⟩
    have hs : Spells (.characters (String.ofList (c :: run))) (c :: run) := by
      simpa using Spells.characters (String.ofList (c :: run))
    have hread : Arrives source (.parts place (.characters _ :: done)) rest :=
      h.read_part hlex hs hstop
    exact ⟨_, hpiece, hread⟩

/-- **The units of a string are read one after another.** In front of them stands a run of
characters that is still open: raw characters only make it longer, an escape cuts it off. -/
theorem arrives_body {cs body : List Char} (h : SpellsBody cs body)
    (hstop : Stops isPlainChar rest) :
    ∀ {run : List Char} {done : List Part}, (∀ c ∈ run, isPlainChar c) →
      Arrives source (.parts place done) (run ++ (body ++ rest)) →
      ∃ parts, PiecesOf parts (run ++ cs) ∧
        Arrives source (.parts place (parts.reverse ++ done)) rest := by
  induction h with
  | nil =>
    intro run done hrun harrives
    rw [List.append_nil]
    exact arrives_run hrun hstop harrives
  | @cons c cs text body hc _ ih =>
    intro run done hrun harrives
    rw [List.append_assoc] at harrives
    rcases hc.cases_token with ⟨rfl, hplain⟩ | ⟨hs, hlex, tail, rfl⟩
    · -- The run goes on.
      have hrun' : ∀ d ∈ run ++ [c], isPlainChar d :=
        List.forall_mem_append.2 ⟨hrun, List.forall_mem_singleton.2 hplain⟩
      rw [← List.append_assoc] at harrives
      obtain ⟨parts, hparts, hrest⟩ := ih hrun' harrives
      rw [List.append_assoc] at hparts
      exact ⟨parts, hparts, hrest⟩
    · have hbackslash : Stops isPlainChar ('\\' :: tail ++ (body ++ rest)) :=
        stops_cons.2 (by decide)
      obtain ⟨before, hbefore, hescape⟩ := arrives_run hrun hbackslash harrives
      have hbody : Arrives source (.parts place (.escape c :: (before.reverse ++ done)))
          ([] ++ (body ++ rest)) :=
        hescape.read_part hlex hs trivial
      obtain ⟨parts, hparts, hrest⟩ := ih (by simp) hbody
      have hpiece : PiecesOf [.escape c] [c] :=
        .single fun _ _ => congrArg Except.ok String.singleton_eq_ofList
      exact ⟨before ++ ([.escape c] ++ parts), hbefore.append (hpiece.append hparts),
        by simpa using hrest⟩

/-! ## Literals -/

variable {gap : List Char} (hquote : d.extend (.symbol .quote) = some (.parts place []))
include hquote

theorem arrives_opened {cs body : List Char} (hbody : SpellsBody cs body)
    (hstop : Stops isPlainChar rest) (hgap : IsGap gap)
    (h : Arrives source d (gap ++ '"' :: (body ++ rest))) :
    ∃ parts, PiecesOf parts cs ∧ Arrives source (.parts place parts.reverse) rest := by
  have hout : ¬ InString d.modes := by
    intro hs
    obtain ⟨place', done', rfl⟩ := inString_iff.1 hs
    exact absurd (Option.some.inj hquote) (fill_ne_parts place' _ place [])
  have hopened : Arrives source (.parts place []) ([] ++ (body ++ rest)) :=
    h.read_symbol hquote (by decide) (.inr ⟨hgap, hout⟩)
  obtain ⟨parts, hparts, hrest⟩ := arrives_body hbody hstop (by simp) hopened
  exact ⟨parts, hparts, by simpa using hrest⟩

/-- **A literal ends at the first quote that is no part of a unit**, whatever stands behind it, and
its pieces stand for what the units stand for. -/
theorem arrives_literal {cs body after : List Char} (hbody : SpellsBody cs body) (hgap : IsGap gap)
    (h : Arrives source d (gap ++ '"' :: (body ++ '"' :: after))) :
    ∃ parts, PiecesOf parts cs ∧ Arrives source (place.fill (.string parts)) after := by
  have hstop : Stops isPlainChar ('"' :: after) := stops_cons.2 (by decide)
  obtain ⟨parts, hparts, hclosing⟩ := arrives_opened hquote hbody hstop hgap h
  have hclose : (Draft.parts place parts.reverse).extend (.symbol .quote) =
      some (place.fill (.string parts)) := by
    rw [Draft.extend, List.reverse_reverse]
  exact ⟨parts, hparts, Arrives.read_symbol hclosing hclose (by decide) (.inl rfl)⟩

end

/-! ## What strings refuse -/

namespace Lexer

theorem refuses_escape {rest : List Char} (h : BeginsNoEscape rest) (outer : List Mode) :
    Refuses ⟨'\\' :: rest, .string :: outer⟩ (.invalidEscape (brokenEscape rest)) := by
  have hdeclined : ∀ r ∈ [⟨.symbol .quote, .pop⟩, (⟨.input, .stay⟩ : Rule)],
      r.pattern.scan ('\\' :: rest) = .ok none := by
    intro r hr
    refine scan_of_not_mayStart ?_
    revert r
    decide
  refine refuses_of_firstMatch rfl (List.cons_ne_nil _ _) ?_
  calc firstMatch Mode.string.rules ('\\' :: rest)
    _ = firstMatch [⟨.escape, .stay⟩, ⟨.characters, .stay⟩] ('\\' :: rest) :=
      firstMatch_of_declined hdeclined
    _ = .error (.invalidEscape (brokenEscape rest)) := by
      rw [firstMatch, Pattern.scan, scanEscape_of_beginsNoEscape h]

theorem refuses_dollar {rest : List Char} (h : Stops isNameStart rest) (outer : List Mode) :
    Refuses ⟨'$' :: rest, .string :: outer⟩
      (.unexpectedText (some .string) (String.ofList (Text.excerpt ('$' :: rest)))) := by
  have hinput : scanInput ('$' :: rest) = none := by
    cases rest with
    | nil => rfl
    | cons c cs => simp [scanInput, stops_cons.1 h]
  have hdeclined : ∀ r ∈ Mode.string.rules, r.pattern.scan ('$' :: rest) = .ok none := by
    intro r hr
    have hr' : r.pattern = .input ∨ r.pattern.mayStart '$' = false := by
      revert r
      decide
    rcases hr' with hr' | hr'
    · rw [hr', Pattern.scan, hinput]
    · exact scan_of_not_mayStart hr'
  have hfirst : firstMatch Mode.string.rules ('$' :: rest) = .ok none := by
    rw [← List.append_nil Mode.string.rules, firstMatch_of_declined hdeclined, firstMatch]
  refine refuses_of_read ?_
  show read (.string :: outer) ('$' :: rest) = _
  simp [read, hfirst]

end Lexer

/-! ## Documents with one value -/

/-- Where a document with one key has its value: at the key, or as the one item of an array. -/
inductive Slot where
  | entry
  | item

namespace Slot

/-- The text of the document before the value. -/
def before (key : String) : Slot → List Char
  | .entry => "\x7b '".toList ++ key.toList ++ "' = ".toList
  | .item => "\x7b '".toList ++ key.toList ++ "' = [ ".toList

/-- The text of the document behind the value. -/
def after : Slot → List Char
  | .entry => " \x7d".toList
  | .item => " ] \x7d".toList

/-- The fields of the document's value. -/
def fields (key : String) (v : Value) : Slot → Assoc Value
  | .entry => [(key, v)]
  | .item => [(key, .array [v])]

/-- The draft before the value. -/
def draft (key : String) : Slot → Draft
  | .entry => .value (.bodyEntry none [] ⟨key, []⟩)
  | .item => .items (.bodyEntry none [] ⟨key, []⟩) []

/-- The place of the value. -/
def place (key : String) : Slot → Context
  | .entry => .bodyEntry none [] ⟨key, []⟩
  | .item => .item (.bodyEntry none [] ⟨key, []⟩) []

/-- The document around an expression. -/
def document (key : String) (e : Expr) : Slot → Document
  | .entry => ⟨none, [.pair ⟨key, []⟩ e]⟩
  | .item => ⟨none, [.pair ⟨key, []⟩ (.array [.value e])]⟩

variable {key : String} (slot : Slot)

/-- A document that starts with a key waits for its value. -/
theorem arrives_value (hkey : '\'' ∉ key.toList) (rest : List Char) :
    Arrives ("\x7b '".toList ++ (key.toList ++ ("' =".toList ++ rest)))
      (.value (.bodyEntry none [] ⟨key, []⟩)) rest := by
  have hstart : Arrives ("\x7b '".toList ++ (key.toList ++ ("' =".toList ++ rest))) .start
      ([] ++ ("\x7b".toList ++ (" ".toList ++
        ('\'' :: key.toList ++ ['\''] ++ (" ".toList ++ ("=".toList ++ rest)))))) := by
    simpa using Arrives.start
  have hspace : " ".toList = [] ∨ IsGap " ".toList ∧ ¬ InString (Owner.body none).modes :=
    .inr ⟨isGap_space, not_inString_owner _⟩
  have hbrace : Arrives _ (.entries (.body none) []) _ :=
    hstart.read_symbol (s := .braceOpen) rfl (by decide) (.inl rfl)
  have hsegment : Arrives _ (.key (.body none) [] ⟨key, []⟩) _ :=
    hbrace.read (t := .segment key) rfl (.inl hkey) (.quoted hkey) (fun h => absurd rfl h) hspace
  exact hsegment.read_symbol (s := .equals) rfl (by decide) hspace

theorem arrives_before (hkey : '\'' ∉ key.toList) (rest : List Char) :
    Arrives (slot.before key ++ rest) (slot.draft key) (' ' :: rest) := by
  have hvalue (rest : List Char) := arrives_value hkey rest
  cases slot with
  | entry => simpa [before, draft] using hvalue (' ' :: rest)
  | item =>
    have hout : ¬ InString (Draft.value (.bodyEntry none [] ⟨key, []⟩)).modes := by
      simp [InString, Draft.modes]
    have hopened : Arrives _ (.items (.bodyEntry none [] ⟨key, []⟩) []) (' ' :: rest) :=
      (hvalue (" ".toList ++ ("[".toList ++ ' ' :: rest))).read_symbol (s := .bracketOpen) rfl
        (by decide) (.inr ⟨isGap_space, hout⟩)
    simpa [before, draft] using hopened

theorem extend_draft (key : String) :
    (slot.draft key).extend (.symbol .quote) = some (.parts (slot.place key) []) := by
  cases slot <;> rfl

theorem arrives_document {source : List Char} {e : Expr}
    (h : Arrives source ((slot.place key).fill e) slot.after) :
    Arrives source (.complete (slot.document key e)) [] := by
  have hobject : ¬ InString (Owner.body none).modes := not_inString_owner _
  have hbrace {entries : List Entry} (h : Arrives source (.entries (.body none) entries)
      (" ".toList ++ ("\x7d".toList ++ []))) :
      Arrives source (.complete ⟨none, entries.reverse⟩) [] :=
    h.read_symbol (s := .braceClose) rfl (by decide) (.inr ⟨isGap_space, hobject⟩)
  cases slot with
  | entry => exact hbrace h
  | item =>
    have hout : ¬ InString (Draft.items (.bodyEntry none [] ⟨key, []⟩) [.value e]).modes := by
      simp [InString, Draft.modes]
    have hitem : Arrives source (.items (.bodyEntry none [] ⟨key, []⟩) [.value e])
        (" ".toList ++ ("]".toList ++ " \x7d".toList)) := h
    exact hbrace (hitem.read_symbol (s := .bracketClose) rfl (by decide) (.inr ⟨isGap_space, hout⟩))

theorem depth_document (key : String) (parts : List Part) :
    (slot.document key (.string parts)).depth ≤ nestingLimit := by
  cases slot <;>
    simp [document, Document.depth, Expr.depth, entriesDepth, Entry.depth, itemsDepth, Item.depth,
      nestingLimit]

theorem eval_document (env : Environment) (key : String) {parts : List Part} {cs : List Char}
    (h : PiecesOf parts cs) :
    (slot.document key (.string parts)).eval env =
      .ok (slot.fields key (.string (String.ofList cs))) := by
  have hstring : (Expr.string parts).eval env [] = .ok (.string (String.ofList cs)) := by
    rw [Expr.eval, h]
    rfl
  cases slot with
  | entry =>
    show evalEntries env [] [] [.pair ⟨key, []⟩ (.string parts)] = _
    rw [evalEntries, Entry.eval, hstring]
    rfl
  | item =>
    show evalEntries env [] [] [.pair ⟨key, []⟩ (.array [.value (.string parts)])] = _
    rw [evalEntries, Entry.eval, Expr.eval, evalItems, Item.eval, hstring]
    rfl

end Slot

/-! ## Compiled strings -/

section
variable {cs body rest : List Char} (hbody : SpellsBody cs body) (env : Environment) (slot : Slot)
  {key : String} (hkey : '\'' ∉ key.toList)
include hbody hkey

theorem compile_literal :
    compile env (String.ofList (slot.before key ++ '"' :: (body ++ '"' :: slot.after))) =
      .ok (.object (slot.fields key (.string (String.ofList cs)))) := by
  have hbefore := slot.arrives_before hkey ('"' :: (body ++ '"' :: slot.after))
  obtain ⟨parts, hparts, hclosed⟩ :=
    arrives_literal (slot.extend_draft key) hbody isGap_space hbefore
  have hdocument := (slot.arrives_document hclosed).documentOf (slot.depth_document key parts)
  exact compile_of_documentOf hdocument (slot.eval_document env key hparts)

/-- Behind good units, what every string refuses fails the compilation. -/
theorem compile_refused {c : Char} {e : LexError} (hc : isPlainChar c = false)
    (hrefuses : ∀ outer, Refuses ⟨c :: rest, .string :: outer⟩ e) :
    compile env (String.ofList (slot.before key ++ '"' :: (body ++ c :: rest))) =
      .error (.lex e) := by
  have hbefore := slot.arrives_before hkey ('"' :: (body ++ c :: rest))
  obtain ⟨parts, -, hstopped⟩ :=
    arrives_opened (slot.extend_draft key) hbody (stops_cons.2 hc) isGap_space hbefore
  exact hstopped.compile_error (hrefuses _) env

end

/-- **String literals are decoded unit by unit.** As the value at a key, or as the one item of an
array there, a literal is compiled to what its units stand for, in order. Behind good units, a
backslash that begins no escape fails the compilation, and so does a dollar sign that begins no
name, whatever text comes after. Wherever else a string may start, the literal is read up to the
first quote that is no part of a unit, as pieces that stand for the same text. -/
theorem string_decoded {cs body : List Char} (hbody : SpellsBody cs body) :
    (∀ (env : Environment) (slot : Slot) (key : String), '\'' ∉ key.toList →
      compile env (String.ofList (slot.before key ++ '"' :: (body ++ '"' :: slot.after))) =
        .ok (.object (slot.fields key (.string (String.ofList cs)))) ∧
      ∀ rest : List Char,
        (BeginsNoEscape rest →
          compile env (String.ofList (slot.before key ++ '"' :: (body ++ '\\' :: rest))) =
            .error (.lex (.invalidEscape (brokenEscape rest)))) ∧
        ((∀ c ∈ rest.head?, Text.isLetter c = false ∧ c ≠ '_') →
          compile env (String.ofList (slot.before key ++ '"' :: (body ++ '$' :: rest))) =
            .error (.lex (.unexpectedText (some .string)
              (String.ofList (Text.excerpt ('$' :: rest))))))) ∧
    ∀ (source gap after : List Char) (d : Draft) (place : Context),
      d.extend (.symbol .quote) = some (.parts place []) → IsGap gap →
      Arrives source d (gap ++ '"' :: (body ++ '"' :: after)) →
      ∃ parts, PiecesOf parts cs ∧ Arrives source (place.fill (.string parts)) after := by
  refine ⟨fun env slot key hkey => ⟨compile_literal hbody env slot hkey, fun rest => ⟨?_, ?_⟩⟩,
    fun source gap after d place hquote hgap h => arrives_literal hquote hbody hgap h⟩
  · intro hescape
    exact compile_refused hbody env slot hkey (by decide) (refuses_escape hescape)
  · intro hname
    have hstop : Stops isNameStart rest := by
      intro c hc
      obtain ⟨hletter, hunderscore⟩ := hname c hc
      simp [isNameStart, hletter, hunderscore]
    exact compile_refused hbody env slot hkey (by decide) (refuses_dollar hstop)

/-- An emoji and two slashes inside a run, both kinds of escapes, and an escaped quote. -/
theorem string_decoded_mixed :
    compile (fun _ => none) "\x7b 'k' = [ \"😀//\\n\\u00E9\\\"\" ] \x7d" =
        .ok (.object [("k", .array [.string "😀//\né\""])]) ∧
      compile (fun _ => none) "\x7b 'k' = \"😀//\\n\\u00E9\\\"\\q\" \x7d" =
        .error (.lex (.invalidEscape "\\q")) ∧
      compile (fun _ => none) "\x7b 'k' = \"😀//\\n\\u00E9\\\"$1\" \x7d" =
        .error (.lex (.unexpectedText (some .string) "$1\" \x7d")) := by
  have hraw {c : Char} (h : isPlainChar c = true) : SpellsChar c [c] := by
    simp only [isPlainChar, Bool.and_eq_true, bne_iff_ne] at h
    exact .raw h.1.1 h.1.2 h.2
  have hdigits : ∀ d ∈ "00E9".toList, Text.isHexDigit d := List.all_eq_true.1 rfl
  have haccent : SpellsChar 'é' "\\u00E9".toList := .codePoint rfl hdigits rfl
  have hbody : SpellsBody "😀//\né\"".toList "😀//\\n\\u00E9\\\"".toList :=
    .cons (hraw rfl) <| .cons (hraw rfl) <| .cons (hraw rfl) <| .cons (.escape (by decide)) <|
      .cons haccent <| .cons (.escape (by decide)) .nil
  have hescape : BeginsNoEscape "q\" \x7d".toList := by
    intro c text hc hprefix
    cases hc with
    | raw hbackslash => exact hbackslash rfl
    | @escape e _ he =>
      obtain rfl : e = 'q' := (List.cons_prefix_cons.1 hprefix).1
      exact absurd he (by simp [escapes])
    | codePoint => exact absurd (List.cons_prefix_cons.1 hprefix).1 (by decide)
  have hname : ∀ c ∈ "1\" \x7d".toList.head?, Text.isLetter c = false ∧ c ≠ '_' := by
    rintro c ⟨⟩
    decide
  obtain ⟨hliterals, -⟩ := string_decoded hbody
  refine ⟨(hliterals _ .item "k" (by decide)).1, ?_, ?_⟩
  · exact ((hliterals _ .entry "k" (by decide)).2 "q\" \x7d".toList).1 hescape
  · exact ((hliterals _ .entry "k" (by decide)).2 "1\" \x7d".toList).2 hname

end ConfigLang
