import ConfigLang.Proofs.Lexer.FrontEnd
import ConfigLang.Proofs.Evaluation.Literals

/-!
# Values as text

Every value has texts in the language itself: keys between single quotes, strings between double
quotes, numbers as decimal literals, white space between the parts. Such a text of an object is a
document, and compiles back to the object.

* `Value.IsText`: the texts of a value.
* `Value.delimited`: in such a text nothing goes on with the token before it.
* `compile_text`: what a text of an object compiles to.
-/

namespace ConfigLang

open Lexer

/-! ## Texts of values -/

/-- The text of a string between its quotes: a backslash stands before a backslash, a double quote
and a dollar sign, and everything else stands for itself. -/
def stringText (cs : List Char) : List Char :=
  cs.flatMap fun c => if c = '\\' ∨ c = '"' ∨ c = '$' then ['\\', c] else [c]

mutual

/-- The texts of a value. There is white space between the items of an array and between the fields
of an object, and perhaps inside brackets and around equals signs. -/
def Value.IsText : Value → List Char → Prop
  | .null, text => text = Symbol.nullWord.text.toList
  | .bool true, text => text = Symbol.trueWord.text.toList
  | .bool false, text => text = Symbol.falseWord.text.toList
  | .integer n, text => Spells (.integer n) text
  | .float x, text => Spells (.float x) text
  | .string s, text => text = '"' :: (stringText s.toList ++ ['"'])
  | .array items, text =>
    ∃ gap inner, IsGap gap ∧ itemsText items inner ∧ text = '[' :: (gap ++ (inner ++ [']']))
  | .object fields, text =>
    ∃ gap inner, IsGap gap ∧ fieldsText fields inner ∧
      text = '\x7b' :: (gap ++ (inner ++ ['\x7d']))

def itemsText : List Value → List Char → Prop
  | [], text => text = []
  | v :: vs, text =>
    ∃ own gap rest, v.IsText own ∧ IsGap gap ∧ (gap = [] → vs = []) ∧ itemsText vs rest ∧
      text = own ++ (gap ++ rest)

def fieldsText : List (String × Value) → List Char → Prop
  | [], text => text = []
  | (key, v) :: fields, text =>
    ∃ before after own gap rest, IsGap before ∧ IsGap after ∧ v.IsText own ∧ IsGap gap ∧
      (gap = [] → fields = []) ∧ fieldsText fields rest ∧
      text = '\'' :: key.toList ++ ['\''] ++
        (before ++ (['='] ++ (after ++ (own ++ (gap ++ rest)))))

end

/-! ## Values that have texts -/

/-- A float that is finite, or anything but a float. -/
def Value.FloatFinite : Value → Prop
  | .float x => x.isFinite
  | _ => True

/-- A value all of whose floats are finite. -/
def Value.IsFinite (v : Value) : Prop := v.Everywhere Value.FloatFinite

/-- An object whose keys can stand between single quotes, or anything else. -/
def Value.KeysQuotable : Value → Prop
  | .object fields => ∀ key ∈ Assoc.keys fields, '\'' ∉ key.toList
  | _ => True

/-- A value with no single quote in any key. -/
def Value.HasQuotableKeys (v : Value) : Prop := v.Everywhere Value.KeysQuotable

mutual

theorem Value.exists_text : ∀ {v : Value}, v.IsFinite → ∃ text, v.IsText text
  | .null, _ | .bool true, _ | .bool false, _ | .string _, _ => ⟨_, rfl⟩
  | .integer n, _ => exists_integer n
  | .float x, h => exists_float h
  | .array items, h => by
    obtain ⟨inner, hinner⟩ := exists_itemsText h.2
    exact ⟨_, [], inner, isGap_nil, hinner, rfl⟩
  | .object fields, h => by
    obtain ⟨inner, hinner⟩ := exists_fieldsText h.2
    exact ⟨_, [], inner, isGap_nil, hinner, rfl⟩

theorem exists_itemsText :
    ∀ {items : List Value}, itemsEverywhere Value.FloatFinite items → ∃ text, itemsText items text
  | [], _ => ⟨[], rfl⟩
  | v :: vs, h => by
    obtain ⟨own, hown⟩ := Value.exists_text h.1
    obtain ⟨rest, hrest⟩ := exists_itemsText h.2
    exact ⟨_, own, [' '], rest, hown, isGap_space, by simp, hrest, rfl⟩

theorem exists_fieldsText :
    ∀ {fields : List (String × Value)}, fieldsEverywhere Value.FloatFinite fields →
      ∃ text, fieldsText fields text
  | [], _ => ⟨[], rfl⟩
  | (key, v) :: fields, h => by
    obtain ⟨own, hown⟩ := Value.exists_text h.1
    obtain ⟨rest, hrest⟩ := exists_fieldsText h.2
    exact ⟨_, [], [], own, [' '], rest, isGap_nil, isGap_nil, hown, isGap_space,
      by simp, hrest, rfl⟩

end

/-! ## Tokens of texts -/

section
variable {modes : List Mode} {steps : List (Token × List Mode)}

theorem Delimited.symbol {s : Symbol} {gap rest : List Char} (hs : s ≠ .dot)
    (hm : ¬ InString modes) (hg : IsGap gap) (h : Delimited steps rest) :
    Delimited ((.symbol s, modes) :: steps) (s.text.toList ++ (gap ++ rest)) :=
  .cons (.symbol s) trivial (fun hdot => absurd hdot hs) (fun hin => absurd hin hm) (fun _ => hg) h

theorem Delimited.number {t : Token} {text gap rest : List Char} (hs : Spells t text)
    (ht : t.Lexable) (hnumber : (∃ n, t = .integer n) ∨ ∃ x, t = .float x)
    (hm : ¬ InString modes) (hg : IsGap gap) (hc : Closes (gap ++ rest))
    (h : Delimited steps rest) :
    Delimited ((t, modes) :: steps) (text ++ (gap ++ rest)) := by
  refine .cons hs ht ?_ (fun hin => absurd hin hm) (fun _ => hg) h
  rcases hnumber with ⟨n, rfl⟩ | ⟨x, rfl⟩
  · exact hc
  · exact hc

/-- Inside a string the next token follows at once. -/
theorem Delimited.piece {t : Token} {text rest : List Char} (hs : Spells t text) (ht : t.Lexable)
    (hf : Follows t text rest) (hm : InString modes) (h : Delimited steps rest) :
    Delimited ((t, modes) :: steps) (text ++ rest) := by
  show Delimited _ (text ++ ([] ++ rest))
  exact .cons hs ht hf (fun _ => rfl) (fun hout => absurd hm hout) h

theorem isPlainChar_eq_false_iff {c : Char} :
    isPlainChar c = false ↔ c = '\\' ∨ c = '"' ∨ c = '$' := by
  simp only [isPlainChar, Bool.and_eq_false_iff, bne_eq_false_iff_eq, or_assoc]

theorem simpleEscape?_of_not_plain {c : Char} (h : isPlainChar c = false) :
    simpleEscape? c = some c := by
  rcases isPlainChar_eq_false_iff.1 h with rfl | rfl | rfl <;> rfl

theorem stringText_cons (c : Char) (cs : List Char) :
    stringText (c :: cs) = (if isPlainChar c then [c] else ['\\', c]) ++ stringText cs := by
  rw [stringText, List.flatMap_cons]
  congr 1
  cases h : isPlainChar c with
  | false => rw [if_pos (isPlainChar_eq_false_iff.1 h), if_neg (by simp)]
  | true => rw [if_neg (by rw [← isPlainChar_eq_false_iff, h]; simp), if_pos rfl]

theorem prependCharacter_eq (c : Char) (parts : List Part) :
    ∃ text parts', prependCharacter c parts = .characters text :: parts' := by
  unfold prependCharacter
  split
  · exact ⟨_, _, rfl⟩
  · exact ⟨_, _, rfl⟩

/-- Where no run of characters starts the pieces, none starts the text. -/
theorem stops_stringText {cs rest : List Char}
    (h : ∀ text parts, literalParts cs ≠ .characters text :: parts)
    (hrest : Stops isPlainChar rest) : Stops isPlainChar (stringText cs ++ rest) := by
  cases cs with
  | nil => exact hrest
  | cons c cs =>
    rw [literalParts] at h
    split at h
    · obtain ⟨text, parts, heq⟩ := prependCharacter_eq c (literalParts cs)
      exact absurd heq (h text parts)
    · rename_i hc
      rw [stringText_cons, if_neg hc]
      exact stops_cons.2 (by decide)

/-- One more character in front makes a run longer, or starts one. -/
theorem Delimited.prependCharacter {c : Char} {parts : List Part} {rest : List Char}
    (hc : isPlainChar c) (hm : InString modes)
    (hstop : (∀ text parts', parts ≠ .characters text :: parts') → Stops isPlainChar rest)
    (h : Delimited (keeping modes (parts.map Part.token) ++ steps) rest) :
    Delimited (keeping modes ((prependCharacter c parts).map Part.token) ++ steps) (c :: rest) := by
  have hlong (cs : List Char) : (String.ofList (c :: cs)).toList = c :: cs := String.toList_ofList
  unfold ConfigLang.prependCharacter
  split
  · rename_i text parts
    cases h with
    | cons hs ht hf hin hout hr =>
      cases hs
      obtain rfl := hin hm
      have hlex : (Token.characters (String.ofList (c :: text.toList))).Lexable := by
        refine ⟨by simp, fun d hd => ?_⟩
        rw [hlong] at hd
        rcases List.mem_cons.1 hd with rfl | hd
        · exact hc
        · exact ht.2 d hd
      have hrun := Delimited.piece (.characters _) hlex hf hm hr
      rw [hlong] at hrun
      exact hrun
  · rename_i hnone
    have hlex : (Token.characters (String.ofList [c])).Lexable := by
      refine ⟨by simp, fun d hd => ?_⟩
      rw [hlong] at hd
      rw [List.mem_singleton.1 hd]
      exact hc
    have hrun := Delimited.piece (.characters _) hlex (hstop hnone) hm h
    rw [hlong] at hrun
    exact hrun

theorem delimited_stringText (hm : InString modes) {rest : List Char}
    (hrest : Stops isPlainChar rest) (h : Delimited steps rest) (cs : List Char) :
    Delimited (keeping modes ((literalParts cs).map Part.token) ++ steps)
      (stringText cs ++ rest) := by
  induction cs with
  | nil => exact h
  | cons c cs ih =>
    rw [literalParts, stringText_cons, List.append_assoc]
    split
    · rename_i hc
      exact ih.prependCharacter hc hm fun hnone => stops_stringText hnone hrest
    · rename_i hc
      have hescape : simpleEscape? c = some c := simpleEscape?_of_not_plain (by simpa using hc)
      exact .piece (.escape hescape) (simpleEscape?_le hescape) trivial hm ih

end

/-! ## Texts of values keep their tokens apart -/

theorem closes_append {gap rest : List Char} (hg : IsGap gap) (h : gap = [] → Closes rest) :
    Closes (gap ++ rest) := by
  cases gap with
  | nil => exact h rfl
  | cons c gap =>
    intro c' hc'
    cases hc'
    exact .inl (hg c List.mem_cons_self)

/-- White space stands before what is left of a list, unless nothing is left of it. -/
theorem closes_between {gap others rest : List Char} (hg : IsGap gap)
    (hothers : gap = [] → others = []) (hc : Closes rest) : Closes (gap ++ (others ++ rest)) := by
  refine closes_append hg fun hgap => ?_
  rw [hothers hgap]
  exact hc

theorem closes_cons {c : Char} {rest : List Char} (hc : c = ']' ∨ c = '\x7d') :
    Closes (c :: rest) := by
  intro c' hc'
  cases hc'
  exact .inr hc

mutual

theorem Value.delimited {modes : List Mode} (hm : ¬ InString modes) :
    ∀ {v : Value}, v.IsFinite → v.HasQuotableKeys →
      ∀ {text gap rest : List Char} {steps : List (Token × List Mode)}, v.IsText text →
        IsGap gap → Closes (gap ++ rest) → Delimited steps rest →
          Delimited (v.literal.trace modes ++ steps) (text ++ (gap ++ rest))
  | .null, _, _, text, gap, rest, steps, htext, hg, _, h => by
    obtain rfl := htext
    exact .symbol (by decide) hm hg h
  | .bool true, _, _, text, gap, rest, steps, htext, hg, _, h => by
    obtain rfl := htext
    exact .symbol (by decide) hm hg h
  | .bool false, _, _, text, gap, rest, steps, htext, hg, _, h => by
    obtain rfl := htext
    exact .symbol (by decide) hm hg h
  | .integer n, _, _, text, gap, rest, steps, htext, hg, hc, h =>
    .number htext trivial (.inl ⟨n, rfl⟩) hm hg hc h
  | .float x, hfinite, _, text, gap, rest, steps, htext, hg, hc, h =>
    .number htext hfinite (.inr ⟨x, rfl⟩) hm hg hc h
  | .string s, _, _, text, gap, rest, steps, htext, hg, _, h => by
    obtain rfl := htext
    have hclose : Delimited ((.symbol .quote, modes) :: steps) ('"' :: (gap ++ rest)) :=
      .symbol (by decide) hm hg h
    have hstop : Stops isPlainChar ('"' :: (gap ++ rest)) := stops_cons.2 (by decide)
    have hin : InString (.string :: modes) := rfl
    have hparts := delimited_stringText hin hstop hclose s.toList
    have hopen := Delimited.piece (.symbol .quote) trivial (fun hdot => by cases hdot) hin hparts
    rw [Value.literal, Expr.trace]
    simpa [Symbol.text] using hopen
  | .array items, hfinite, hkeys, text, gap, rest, steps, htext, hg, _, h => by
    obtain ⟨before, inner, hbefore, hinner, rfl⟩ := htext
    have hclose : Delimited ((.symbol .bracketClose, modes) :: steps) (']' :: (gap ++ rest)) :=
      .symbol (by decide) hm hg h
    have hm' : ¬ InString (.array :: modes) := by simp [InString]
    have hitems :=
      itemsText_delimited hm' hfinite.2 hkeys.2 hinner (closes_cons (.inl rfl)) hclose
    have hopen := Delimited.symbol (s := .bracketOpen) (by decide) hm' hbefore hitems
    rw [Value.literal, Expr.trace]
    simpa [Symbol.text] using hopen
  | .object fields, hfinite, hkeys, text, gap, rest, steps, htext, hg, _, h => by
    obtain ⟨before, inner, hbefore, hinner, rfl⟩ := htext
    have hclose : Delimited ((.symbol .braceClose, modes) :: steps) ('\x7d' :: (gap ++ rest)) :=
      .symbol (by decide) hm hg h
    have hm' : ¬ InString (.object :: modes) := by simp [InString]
    have hfields :=
      fieldsText_delimited hm' hfinite.2 hkeys.1 hkeys.2 hinner (closes_cons (.inr rfl)) hclose
    have hopen := Delimited.symbol (s := .braceOpen) (by decide) hm' hbefore hfields
    rw [Value.literal, Expr.trace]
    simpa [Symbol.text] using hopen

theorem itemsText_delimited {modes : List Mode} (hm : ¬ InString modes) :
    ∀ {items : List Value}, itemsEverywhere Value.FloatFinite items →
      itemsEverywhere Value.KeysQuotable items →
      ∀ {text rest : List Char} {steps : List (Token × List Mode)}, itemsText items text →
        Closes rest → Delimited steps rest →
          Delimited (itemsTrace modes (literalItems items) ++ steps) (text ++ rest)
  | [], _, _, text, rest, steps, htext, _, h => by
    obtain rfl := htext
    exact h
  | v :: vs, hfinite, hkeys, text, rest, steps, htext, hc, h => by
    obtain ⟨own, gap, others, hown, hg, hlast, hothers, rfl⟩ := htext
    have hrest := itemsText_delimited hm hfinite.2 hkeys.2 hothers hc h
    have hnil : gap = [] → others = [] := by
      intro hgap
      obtain rfl := hlast hgap
      exact hothers
    have hcloses := closes_between hg hnil hc
    rw [literalItems, itemsTrace, Item.trace, List.append_assoc, List.append_assoc,
      List.append_assoc]
    exact Value.delimited hm hfinite.1 hkeys.1 hown hg hcloses hrest

theorem fieldsText_delimited {modes : List Mode} (hm : ¬ InString modes) :
    ∀ {fields : List (String × Value)}, fieldsEverywhere Value.FloatFinite fields →
      (∀ key ∈ Assoc.keys fields, '\'' ∉ key.toList) →
      fieldsEverywhere Value.KeysQuotable fields →
      ∀ {text rest : List Char} {steps : List (Token × List Mode)}, fieldsText fields text →
        Closes rest → Delimited steps rest →
          Delimited (entriesTrace modes (literalEntries fields) ++ steps) (text ++ rest)
  | [], _, _, _, text, rest, steps, htext, _, h => by
    obtain rfl := htext
    exact h
  | (key, v) :: fields, hfinite, hquotable, hkeys, text, rest, steps, htext, hc, h => by
    obtain ⟨before, after, own, gap, others, hbefore, hafter, hown, hg, hlast, hothers, rfl⟩ :=
      htext
    obtain ⟨hkey, hquotable⟩ := List.forall_mem_cons.1 hquotable
    have hrest := fieldsText_delimited hm hfinite.2 hquotable hkeys.2 hothers hc h
    have hnil : gap = [] → others = [] := by
      intro hgap
      obtain rfl := hlast hgap
      exact hothers
    have hcloses := closes_between hg hnil hc
    have hvalue := Value.delimited hm hfinite.1 hkeys.1 hown hg hcloses hrest
    have hm' : ¬ InString (.value :: modes) := by simp [InString]
    have hequals := Delimited.symbol (s := .equals) (by decide) hm' hafter hvalue
    have hsegment := Delimited.cons (.quoted hkey) (.inl hkey)
      (fun hne => absurd rfl hne) (fun hin => absurd hin hm) (fun _ => hbefore) hequals
    rw [literalEntries, entriesTrace, Entry.trace]
    simpa [Symbol.text, keeping, Path.tokens] using hsegment

end

/-! ## Nesting -/

mutual

theorem Value.depth_literal : ∀ v : Value, v.literal.depth = v.depth
  | .array items => by rw [Value.literal, Expr.depth, itemsDepth_literalItems items, Value.depth]
  | .object fields => by
    rw [Value.literal, Expr.depth, entriesDepth_literalEntries fields, Value.depth]
  | .null | .bool _ | .integer _ | .float _ | .string _ => rfl

theorem itemsDepth_literalItems :
    ∀ items : List Value, itemsDepth (literalItems items) = valuesDepth items
  | [] => rfl
  | v :: vs => by
    rw [literalItems, itemsDepth, Item.depth, v.depth_literal, itemsDepth_literalItems vs,
      valuesDepth]

theorem entriesDepth_literalEntries :
    ∀ fields : List (String × Value), entriesDepth (literalEntries fields) = fieldsDepth fields
  | [] => rfl
  | (key, v) :: fields => by
    rw [literalEntries, entriesDepth, Entry.depth, v.depth_literal,
      entriesDepth_literalEntries fields, fieldsDepth]

end

/-! ## Compilation -/

/-- **A text of an object compiles back to it**, in every environment, if its objects have distinct
keys without single quotes, its floats are finite, and it nests no deeper than a document may.
There is such a text. -/
theorem compile_text {fields : Assoc Value} (hkeys : (Value.object fields).HasDistinctKeys)
    (hquotable : (Value.object fields).HasQuotableKeys) (hfinite : (Value.object fields).IsFinite)
    (hdepth : (Value.object fields).depth ≤ nestingLimit) :
    (∃ text, (Value.object fields).IsText text) ∧
      ∀ env before text after, IsGap before → (Value.object fields).IsText text → IsGap after →
        compile env (String.ofList (before ++ (text ++ after))) = .ok (.object fields) := by
  refine ⟨Value.exists_text hfinite, fun env before text after hbefore htext hafter => ?_⟩
  let c : Document := ⟨none, literalEntries fields⟩
  have htrace : Delimited c.trace (text ++ after) := by
    have hcloses : Closes (after ++ []) := closes_append hafter fun _ => by simp [Closes]
    have hm : ¬ InString [.topLevel] := by simp [InString]
    have h := Value.delimited hm hfinite hquotable htext hafter hcloses .nil
    simpa [c, Document.trace, blockTrace, Value.literal] using h
  have hc : c.depth ≤ nestingLimit := by
    have h : c.depth = (Value.object fields).literal.depth := Nat.zero_max _
    rw [h, Value.depth_literal]
    exact hdepth
  have heval : c.eval env = .ok fields := by
    obtain ⟨hdistinct, hvalues⟩ := hasDistinctKeys_object.1 hkeys
    have h := evalEntries_literalEntries env [] [] hvalues
    rwa [Assoc.insertAll_of_nodup (by exact hdistinct)] at h
  exact compile_of_documentOf (documentOf_of_delimited hbefore htrace hc) heval

/-- A key and a string full of signs, and a negative zero. -/
theorem compile_text_of_signs :
    compile (fun _ => none) "\x7b'a.b = c'=[\"x\\$\\\"\n//\" -0.0]\x7d" =
      .ok (.object [("a.b = c", .array [.string "x$\"\n//", .float ⟨0x8000000000000000⟩])]) := by
  obtain ⟨-, h⟩ := @compile_text
    [("a.b = c", .array [.string "x$\"\n//", .float ⟨0x8000000000000000⟩])]
    (by
      simp [Value.HasDistinctKeys, Value.Everywhere, fieldsEverywhere, itemsEverywhere,
        Value.KeysApart, Assoc.keys])
    (by
      simp [Value.HasQuotableKeys, Value.Everywhere, fieldsEverywhere, itemsEverywhere,
        Value.KeysQuotable, Assoc.keys])
    (by
      have hfinite : (⟨0x8000000000000000⟩ : Binary64).isFinite = true := by decide
      simp [Value.IsFinite, Value.Everywhere, fieldsEverywhere, itemsEverywhere, Value.FloatFinite,
        hfinite])
    (by decide)
  have hfloat : (Value.float ⟨0x8000000000000000⟩).IsText ['-', '0', '.', '0'] := by
    have hsign : IsSign ['-'] := .inr rfl
    have hzero : IsDigits ['0'] := by simp [IsDigits]
    have hexponent : IsExponent [] := .inl rfl
    exact .float hsign hzero hzero hexponent (by decide +kernel)
  have hitems : itemsText [.string "x$\"\n//", .float ⟨0x8000000000000000⟩] _ :=
    ⟨_, [' '], _, rfl, isGap_space, by simp,
      ⟨_, [], [], hfloat, isGap_nil, by simp, rfl, rfl⟩, rfl⟩
  have hfields : fieldsText
      [("a.b = c", .array [.string "x$\"\n//", .float ⟨0x8000000000000000⟩])] _ :=
    ⟨[], [], _, [], [], isGap_nil, isGap_nil, ⟨[], _, isGap_nil, hitems, rfl⟩, isGap_nil, by simp,
      rfl, rfl⟩
  have htext := h (fun _ => none) [] _ [] isGap_nil ⟨[], _, isGap_nil, hfields, rfl⟩ isGap_nil
  simpa [stringText] using htext

end ConfigLang
