import ConfigLang.Format
import ConfigLang.Proofs.Evaluation.LiteralText
import ConfigLang.Proofs.Json.NumberTexts

/-!
# JSON is read back

A value with finite numbers and distinct keys is what a reader of JSON makes of its text, in either
layout. So the text determines the value, and the layouts of one value denote the same.

* `readString_string`: escapes are undone.
* `readValue_render`: so are the layouts, at every depth, by recursion on the value.
* `json_determines_value`: the round trip of whole texts.
-/

namespace ConfigLang

namespace Json

open Lexer

/-! ## Strings -/

/-- Control characters have four digits. -/
theorem toHexDigits_control : ∀ n < 32, ∃ a b c d, Text.toHexDigits false 4 n = [a, b, c, d] ∧
    [a, b, c, d].all Text.isHexDigit = true ∧ Text.ofHexDigits [a, b, c, d] 0 = n := by
  have hdigits : ∀ n < 32, (Text.toHexDigits false 4 n).length = 4 ∧
      (Text.toHexDigits false 4 n).all Text.isHexDigit = true ∧
      Text.ofHexDigits (Text.toHexDigits false 4 n) 0 = n := by decide +kernel
  intro n hn
  obtain ⟨hlen, hhex, hvalue⟩ := hdigits n hn
  obtain ⟨a, b, c, d, h⟩ := List.length_eq_four.1 hlen
  rw [h] at hhex hvalue
  exact ⟨a, b, c, d, h, hhex, hvalue⟩

/-- The text of a character is read as its code point. -/
theorem readCodes_escapeChar (c : Char) (rest : List Char) :
    readCodes (escapeChar c ++ rest) =
      (readCodes rest).map fun (codes, rest) => (c.toNat :: codes, rest) := by
  unfold escapeChar
  split
  · rfl
  · rfl
  · rfl
  · rfl
  · rfl
  · rfl
  · rfl
  · rename_i hquote hslash _ _ _ _ _
    split
    · rename_i hlow
      obtain ⟨a, b, c', d, hdigits, hhex, hvalue⟩ := toHexDigits_control c.toNat hlow
      rw [hdigits]
      show readCodes ('\\' :: 'u' :: a :: b :: c' :: d :: rest) = _
      rw [readCodes, if_pos hhex, hvalue]
    · rename_i hhigh
      show readCodes (c :: rest) = _
      rw [readCodes, if_neg hhigh]
      · exact fun h _ => hslash h
      · exact hquote
      · exact fun _ _ _ _ _ h _ => hslash h
      · exact fun _ _ h _ => hslash h

theorem readCodes_escaped (cs rest : List Char) :
    readCodes (cs.flatMap escapeChar ++ '"' :: rest) = some (cs.map Char.toNat, rest) := by
  induction cs with
  | nil => rfl
  | cons c cs ih =>
    rw [List.flatMap_cons, List.append_assoc, readCodes_escapeChar, ih]
    rfl

theorem charOfCodePoint?_toNat (c : Char) : charOfCodePoint? c.toNat = some c := by
  have hvalid : c.toNat.isValidChar := c.valid
  unfold charOfCodePoint?
  rw [if_pos hvalid, Char.ofNat_toNat]

/-- No character is half of another. -/
theorem joinHalves_codes (cs : List Char) : joinHalves (cs.map Char.toNat) = some cs := by
  induction cs with
  | nil => rfl
  | cons c cs ih =>
    cases cs with
    | nil =>
      show (charOfCodePoint? c.toNat).map _ = _
      rw [charOfCodePoint?_toNat]
      rfl
    | cons d cs =>
      have hhigh : ¬ (0xD800 ≤ c.toNat ∧ c.toNat < 0xDC00 ∧ 0xDC00 ≤ d.toNat ∧
          d.toNat < 0xE000) := by
        have hvalid : c.toNat.isValidChar := c.valid
        unfold Nat.isValidChar at hvalid
        omega
      rw [List.map_cons, List.map_cons] at *
      rw [joinHalves, if_neg hhigh, charOfCodePoint?_toNat, ih]
      rfl

theorem readString_string (s : String) (rest : List Char) :
    readString (s.toList.flatMap escapeChar ++ '"' :: rest) = some (s, rest) := by
  unfold readString
  rw [readCodes_escaped]
  dsimp only [Option.bind_some]
  rw [joinHalves_codes, Option.map_some, String.ofList_toList]

/-! ## White space and brackets -/

/-- A layout that puts only white space between tokens. -/
structure Layout.IsBlank (layout : Layout) : Prop where
  lineBreak : ∀ depth, ∀ c ∈ layout.lineBreak depth, isSpace c
  colon : ∃ blanks, layout.colon = ':' :: blanks ∧ ∀ c ∈ blanks, isSpace c

theorem isBlank_compact : Layout.compact.IsBlank where
  lineBreak := fun _ _ hc => absurd hc List.not_mem_nil
  colon := ⟨[], rfl, fun _ hc => absurd hc List.not_mem_nil⟩

theorem isBlank_pretty : Layout.pretty.IsBlank where
  lineBreak := by
    intro depth c hc
    rcases List.mem_cons.1 hc with rfl | hc
    · rfl
    · rw [List.eq_of_mem_replicate hc]
      rfl
  colon := ⟨[' '], rfl, List.forall_mem_singleton.2 rfl⟩

theorem skipSpace_append {blanks : List Char} (h : ∀ c ∈ blanks, isSpace c) (rest : List Char) :
    skipSpace (blanks ++ rest) = skipSpace rest :=
  List.dropWhile_append_of_pos h

theorem skipSpace_cons {c : Char} (h : isSpace c = false) (cs : List Char) :
    skipSpace (c :: cs) = c :: cs := by
  unfold skipSpace
  rw [List.dropWhile_cons, h]
  rfl

/-- The text starts with a token that no bracket closes anything with. -/
def Opens (text : List Char) : Prop := ∃ c cs, text = c :: cs ∧ isSpace c = false ∧ c ≠ ']'

theorem ne_of_isNumber {c d : Char} (hc : c = '-' ∨ c.isDigit) (hd : d ≠ '-' ∧ d.isDigit = false) :
    c ≠ d := by
  intro h
  subst h
  rcases hc with rfl | hdigit
  · exact hd.1 rfl
  · rw [hd.2] at hdigit
    cases hdigit

theorem isNumber_opens {v : Value} {text : List Char} (h : IsNumber v text) : Opens text := by
  obtain ⟨c, cs, rfl, hc⟩ := h.head
  have hne {d : Char} (hd : d ≠ '-' ∧ d.isDigit = false) := ne_of_isNumber hc hd
  refine ⟨c, cs, rfl, ?_, hne (by decide)⟩
  simp [isSpace, hne (d := ' ') (by decide), hne (d := '\t') (by decide),
    hne (d := '\n') (by decide), hne (d := '\r') (by decide)]

theorem render_opens (layout : Layout) (depth : Nat) {v : Value} (hv : v.IsFinite) :
    Opens (render layout depth v) := by
  cases v with
  | null => exact ⟨'n', _, rfl, by decide⟩
  | bool b => cases b with
    | true => exact ⟨'t', _, rfl, by decide⟩
    | false => exact ⟨'f', _, rfl, by decide⟩
  | integer n => exact isNumber_opens (isNumber_integer n)
  | float x => exact isNumber_opens (isNumber_float hv)
  | string s => exact ⟨'"', _, rfl, by decide⟩
  | array items => cases items with
    | nil => exact ⟨'[', _, rfl, by decide⟩
    | cons v vs => exact ⟨'[', _, rfl, by decide⟩
  | object fields => cases fields with
    | nil => exact ⟨'\x7b', _, rfl, by decide⟩
    | cons field fields => exact ⟨'\x7b', _, rfl, by decide⟩

/-! ## Values -/

/-- What begins like a number is read as one. -/
theorem readValue_number {v : Value} {text rest : List Char} (h : IsNumber v text)
    (hrest : Stops goesOn rest) (fuel : Nat) :
    readValue (fuel + 1) (text ++ rest) = some (v, rest) := by
  have hread := readNumber_append h hrest
  obtain ⟨c, cs, rfl, hc⟩ := h.head
  have hne {d : Char} (hd : d ≠ '-' ∧ d.isDigit = false) := ne_of_isNumber hc hd
  rw [List.cons_append] at hread ⊢
  rw [readValue]
  · exact hread
  all_goals exact fun _ h => hne (by decide) (List.cons.inj h).1

theorem goesOn_of_isSpace {c : Char} (h : isSpace c) : goesOn c = false := by
  simp only [isSpace, Bool.or_eq_true, beq_iff_eq] at h
  rcases h with ((rfl | rfl) | rfl) | rfl <;> decide

theorem stops_blank {blanks : List Char} (h : ∀ c ∈ blanks, isSpace c) {c : Char}
    (hc : goesOn c = false) (rest : List Char) : Stops goesOn (blanks ++ c :: rest) := by
  cases blanks with
  | nil => exact stops_cons.2 hc
  | cons b blanks => exact stops_cons.2 (goesOn_of_isSpace (h b List.mem_cons_self))

theorem skipSpace_opens {text : List Char} (h : Opens text) (rest : List Char) :
    skipSpace (text ++ rest) = text ++ rest := by
  obtain ⟨c, cs, rfl, hc, -⟩ := h
  exact skipSpace_cons hc _

/-! ## What one step reads -/

section
variable {fuel : Nat} {blanks text more rest : List Char} {v : Value}

theorem readValue_array {vs : List Value} (hblanks : ∀ c ∈ blanks, isSpace c) (hopens : Opens text)
    (hv : readValue fuel (text ++ more) = some (v, more))
    (hvs : readItems fuel (skipSpace more) = some (vs, rest)) :
    readValue (fuel + 1) ('[' :: (blanks ++ (text ++ more))) = some (.array (v :: vs), rest) := by
  rw [readValue, skipSpace_append hblanks, skipSpace_opens hopens]
  obtain ⟨c, cs, htext, -, hc⟩ := hopens
  split
  · rename_i h
    rw [htext] at h
    exact absurd (List.cons.inj h).1 hc
  · simp [hv, hvs]

theorem readItems_cons {vs : List Value} (hblanks : ∀ c ∈ blanks, isSpace c) (hopens : Opens text)
    (hv : readValue fuel (text ++ more) = some (v, more))
    (hvs : readItems fuel (skipSpace more) = some (vs, rest)) :
    readItems (fuel + 1) (',' :: (blanks ++ (text ++ more))) = some (v :: vs, rest) := by
  rw [readItems, skipSpace_append hblanks, skipSpace_opens hopens]
  simp [hv, hvs]

theorem readValue_object {key : String} {tail : List Char} {fields : List (String × Value)}
    (hblanks : ∀ c ∈ blanks, isSpace c)
    (hkey : readKey (string key ++ tail) = some (key, text))
    (hv : readValue fuel text = some (v, more))
    (hfields : readFields fuel (skipSpace more) = some (fields, rest)) :
    readValue (fuel + 1) ('\x7b' :: (blanks ++ (string key ++ tail))) =
      some (.object (Assoc.insertAll [] ((key, v) :: fields)), rest) := by
  have hstring : skipSpace (string key ++ tail) = string key ++ tail :=
    skipSpace_opens ⟨'"', _, rfl, by decide, by decide⟩ tail
  rw [readValue, skipSpace_append hblanks, hstring]
  split
  · rename_i h
    simp [string] at h
  · simp [hkey, hv, hfields]

theorem readFields_cons {key : String} {tail : List Char} {fields : List (String × Value)}
    (hblanks : ∀ c ∈ blanks, isSpace c)
    (hkey : readKey (string key ++ tail) = some (key, text))
    (hv : readValue fuel text = some (v, more))
    (hfields : readFields fuel (skipSpace more) = some (fields, rest)) :
    readFields (fuel + 1) (',' :: (blanks ++ (string key ++ tail))) =
      some ((key, v) :: fields, rest) := by
  have hstring : skipSpace (string key ++ tail) = string key ++ tail :=
    skipSpace_opens ⟨'"', _, rfl, by decide, by decide⟩ tail
  rw [readFields, skipSpace_append hblanks, hstring]
  simp [hkey, hv, hfields]

end

/-! ## Whole values -/

section
variable {layout : Layout} (hl : layout.IsBlank)
include hl

theorem readKey_string (key : String) {text : List Char} (h : Opens text) (rest : List Char) :
    readKey (string key ++ (layout.colon ++ (text ++ rest))) = some (key, text ++ rest) := by
  obtain ⟨blanks, hcolon, hblanks⟩ := hl.colon
  have hstring : string key ++ (layout.colon ++ (text ++ rest)) =
      '"' :: (key.toList.flatMap escapeChar ++ '"' :: (':' :: (blanks ++ (text ++ rest)))) := by
    simp [string, hcolon]
  have hspace : skipSpace (':' :: (blanks ++ (text ++ rest))) = ':' :: (blanks ++ (text ++ rest)) :=
    skipSpace_cons (by decide) _
  rw [hstring, readKey, readString_string]
  dsimp only [Option.bind_some]
  rw [hspace]
  show some (key, skipSpace (blanks ++ (text ++ rest))) = _
  rw [skipSpace_append hblanks, skipSpace_opens h]

theorem renderItems_stops (depth : Nat) (vs : List Value) (rest : List Char) :
    Stops goesOn (renderItems layout depth vs ++ rest) := by
  cases vs with
  | nil =>
    rw [renderItems, List.append_assoc]
    exact stops_blank (hl.lineBreak depth) (by decide) rest
  | cons v vs => exact stops_cons.2 (by decide)

theorem renderFields_stops (depth : Nat) (fs : List (String × Value)) (rest : List Char) :
    Stops goesOn (renderFields layout depth fs ++ rest) := by
  cases fs with
  | nil =>
    rw [renderFields, List.append_assoc]
    exact stops_blank (hl.lineBreak depth) (by decide) rest
  | cons field fs => exact stops_cons.2 (by decide)

mutual

/-- A value is read from its text with fuel for each of its characters. -/
theorem readValue_render : ∀ (v : Value) (depth fuel : Nat) (rest : List Char), v.IsFinite →
    v.HasDistinctKeys → (render layout depth v).length ≤ fuel → Stops goesOn rest →
    readValue (fuel + 1) (render layout depth v ++ rest) = some (v, rest)
  | .null, _, _, _, _, _, _, _ => rfl
  | .bool true, _, _, _, _, _, _, _ => rfl
  | .bool false, _, _, _, _, _, _, _ => rfl
  | .integer n, _, fuel, _, _, _, _, hrest => readValue_number (isNumber_integer n) hrest fuel
  | .float _, _, fuel, _, hv, _, _, hrest => readValue_number (isNumber_float hv) hrest fuel
  | .string s, depth, fuel, rest, _, _, _, _ => by
    have htext : render layout depth (.string s) ++ rest =
        '"' :: (s.toList.flatMap escapeChar ++ '"' :: rest) := by
      simp [render, string]
    rw [htext, readValue, readString_string]
    rfl
  | .array [], _, _, _, _, _, _, _ => rfl
  | .array (v :: vs), depth, fuel, rest, hv, hkeys, hfuel, _ => by
    obtain ⟨-, hv, hvs⟩ := hv
    obtain ⟨-, hkey, hkeys⟩ := hkeys
    simp only [render, List.cons_append, List.length_cons, List.length_append] at hfuel
    obtain ⟨n, rfl⟩ : ∃ n, fuel = n + 1 := ⟨fuel - 1, by omega⟩
    have htext : render layout depth (.array (v :: vs)) ++ rest =
        '[' :: (layout.lineBreak (depth + 1) ++ (render layout (depth + 1) v ++
          (renderItems layout depth vs ++ rest))) := by
      simp [render]
    rw [htext]
    apply readValue_array (hl.lineBreak (depth + 1)) (render_opens layout (depth + 1) hv)
    · exact readValue_render v (depth + 1) n _ hv hkey (by omega)
        (renderItems_stops hl depth vs rest)
    · exact readItems_render vs depth n rest hvs hkeys (by omega)
  | .object [], _, _, _, _, _, _, _ => rfl
  | .object ((key, v) :: fields), depth, fuel, rest, hv, hkeys, hfuel, _ => by
    have hapart : Assoc.insertAll [] ((key, v) :: fields) = (key, v) :: fields :=
      Assoc.insertAll_of_nodup hkeys.1
    obtain ⟨-, hv, hfields⟩ := hv
    obtain ⟨-, hkey, hkeys⟩ := hkeys
    simp only [render, List.cons_append, List.length_cons, List.length_append] at hfuel
    obtain ⟨n, rfl⟩ : ∃ n, fuel = n + 1 := ⟨fuel - 1, by omega⟩
    have hopens := render_opens layout (depth + 1) hv
    have htext : render layout depth (.object ((key, v) :: fields)) ++ rest =
        '\x7b' :: (layout.lineBreak (depth + 1) ++ (string key ++ (layout.colon ++
          (render layout (depth + 1) v ++ (renderFields layout depth fields ++ rest))))) := by
      simp [render]
    rw [htext, ← hapart]
    apply readValue_object (hl.lineBreak (depth + 1)) (readKey_string hl key hopens _)
    · exact readValue_render v (depth + 1) n _ hv hkey (by omega)
        (renderFields_stops hl depth fields rest)
    · exact readFields_render fields depth n rest hfields hkeys (by omega)

theorem readItems_render : ∀ (vs : List Value) (depth fuel : Nat) (rest : List Char),
    itemsEverywhere Value.FloatFinite vs → itemsEverywhere Value.KeysApart vs →
    (renderItems layout depth vs).length ≤ fuel →
    readItems (fuel + 1) (skipSpace (renderItems layout depth vs ++ rest)) = some (vs, rest)
  | [], depth, fuel, rest, _, _, _ => by
    rw [renderItems, List.append_assoc, skipSpace_append (hl.lineBreak depth)]
    rfl
  | v :: vs, depth, fuel, rest, hvs, hkeys, hfuel => by
    obtain ⟨hv, hvs⟩ := hvs
    obtain ⟨hkey, hkeys⟩ := hkeys
    simp only [renderItems, List.cons_append, List.length_cons, List.length_append] at hfuel
    obtain ⟨n, rfl⟩ : ∃ n, fuel = n + 1 := ⟨fuel - 1, by omega⟩
    have htext : renderItems layout depth (v :: vs) ++ rest =
        ',' :: (layout.lineBreak (depth + 1) ++ (render layout (depth + 1) v ++
          (renderItems layout depth vs ++ rest))) := by
      simp [renderItems]
    rw [htext, skipSpace_cons (by decide)]
    apply readItems_cons (hl.lineBreak (depth + 1)) (render_opens layout (depth + 1) hv)
    · exact readValue_render v (depth + 1) n _ hv hkey (by omega)
        (renderItems_stops hl depth vs rest)
    · exact readItems_render vs depth n rest hvs hkeys (by omega)

theorem readFields_render : ∀ (fields : List (String × Value)) (depth fuel : Nat)
    (rest : List Char), fieldsEverywhere Value.FloatFinite fields →
    fieldsEverywhere Value.KeysApart fields → (renderFields layout depth fields).length ≤ fuel →
    readFields (fuel + 1) (skipSpace (renderFields layout depth fields ++ rest)) =
      some (fields, rest)
  | [], depth, fuel, rest, _, _, _ => by
    rw [renderFields, List.append_assoc, skipSpace_append (hl.lineBreak depth)]
    rfl
  | (key, v) :: fields, depth, fuel, rest, hfields, hkeys, hfuel => by
    obtain ⟨hv, hfields⟩ := hfields
    obtain ⟨hkey, hkeys⟩ := hkeys
    simp only [renderFields, List.cons_append, List.length_cons, List.length_append] at hfuel
    obtain ⟨n, rfl⟩ : ∃ n, fuel = n + 1 := ⟨fuel - 1, by omega⟩
    have hopens := render_opens layout (depth + 1) hv
    have htext : renderFields layout depth ((key, v) :: fields) ++ rest =
        ',' :: (layout.lineBreak (depth + 1) ++ (string key ++ (layout.colon ++
          (render layout (depth + 1) v ++ (renderFields layout depth fields ++ rest))))) := by
      simp [renderFields]
    rw [htext, skipSpace_cons (by decide)]
    apply readFields_cons (hl.lineBreak (depth + 1)) (readKey_string hl key hopens _)
    · exact readValue_render v (depth + 1) n _ hv hkey (by omega)
        (renderFields_stops hl depth fields rest)
    · exact readFields_render fields depth n rest hfields hkeys (by omega)

end

/-- The whole text of a value is read as the value. -/
theorem read_text {v : Value} (hv : v.IsFinite) (hkeys : v.HasDistinctKeys) :
    read (text layout v) = some v := by
  have hspace : skipSpace (render layout 0 v) = render layout 0 v := by
    have h := skipSpace_opens (render_opens layout 0 hv) []
    rwa [List.append_nil] at h
  have hread := readValue_render hl v 0 _ [] hv hkeys (Nat.le_refl _) stops_nil
  rw [List.append_nil] at hread
  unfold read text
  rw [String.toList_ofList, hspace, hread]
  rfl

end

/-- Texts in forms that `text` never writes are read as well. -/
example : read " [1 ,\"\\ud83d\\ude00\\/\"\t]" = some (.array [.integer 1, .string "😀/"]) := by rfl

/-- The reader forgives nothing. -/
example : ["", "01", "1.", "1e", "[1,]", "[1 2]", "nul", "\"\\ud83d\"", "\"\n\""].all
    (fun text => (read text).isNone) = true := by decide +kernel

end Json

/-- Compact or pretty, the JSON text of a value with finite numbers and distinct keys is read back
as the value, so it is the text of no other such value in either form. -/
theorem json_determines_value {v : Value} (hv : v.IsFinite) (hkeys : v.HasDistinctKeys) :
    Json.read (Format.json.render v) = some v ∧ Json.read (Format.jsonPretty.render v) = some v ∧
      ∀ w : Value, w.IsFinite → w.HasDistinctKeys → ∀ f ∈ [Format.json, Format.jsonPretty],
        ∀ g ∈ [Format.json, Format.jsonPretty], f.render v = g.render w → v = w := by
  have hread {w : Value} (hw : w.IsFinite) (hkeys : w.HasDistinctKeys) :
      ∀ f ∈ [Format.json, Format.jsonPretty], Json.read (f.render w) = some w := by
    intro f hf
    rcases List.mem_pair.1 hf with rfl | rfl
    · exact Json.read_text Json.isBlank_compact hw hkeys
    · exact Json.read_text Json.isBlank_pretty hw hkeys
  refine ⟨hread hv hkeys _ List.mem_cons_self, hread hv hkeys _ (by decide), ?_⟩
  intro w hw hwkeys f hf g hg htext
  have hv' := hread hv hkeys f hf
  rw [htext, hread hw hwkeys g hg] at hv'
  exact (Option.some.inj hv').symm

/-- A value with what could be mistaken for something else: an integer and the same float, a zero,
escapes in a key, a string that is a word, and containers with nothing in them. -/
def closeValue (zero : Binary64) : Value :=
  .object [("\"\\\n\x01", .array [.integer 1, .float ⟨0x3ff0000000000000⟩, .float zero,
    .object [], .array []]), ("", .string "null")]

theorem closeValue_isFinite {zero : Binary64} (h : zero.isFinite) :
    (closeValue zero).IsFinite := by
  have hone : (⟨0x3ff0000000000000⟩ : Binary64).isFinite := by decide
  simp [closeValue, Value.IsFinite, Value.Everywhere, itemsEverywhere, fieldsEverywhere,
    Value.FloatFinite, hone, h]

theorem closeValue_hasDistinctKeys (zero : Binary64) : (closeValue zero).HasDistinctKeys := by
  simp [closeValue, Value.HasDistinctKeys, Value.Everywhere, itemsEverywhere, fieldsEverywhere,
    Value.KeysApart, Assoc.keys]

/-- The sign of a zero is enough to make another text. -/
theorem json_determines_value_of_close :
    (closeValue ⟨0⟩).IsFinite ∧ (closeValue ⟨0⟩).HasDistinctKeys ∧
      Json.read (Format.json.render (closeValue ⟨0⟩)) = some (closeValue ⟨0⟩) ∧
      Json.read (Format.jsonPretty.render (closeValue ⟨0⟩)) = some (closeValue ⟨0⟩) ∧
      Format.json.render (closeValue ⟨0⟩) ≠
        Format.jsonPretty.render (closeValue ⟨0x8000000000000000⟩) := by
  have hfinite : (closeValue ⟨0⟩).IsFinite := closeValue_isFinite (by decide)
  have hkeys := closeValue_hasDistinctKeys ⟨0⟩
  obtain ⟨hcompact, hpretty, hother⟩ := json_determines_value hfinite hkeys
  refine ⟨hfinite, hkeys, hcompact, hpretty, fun htext => ?_⟩
  have hsame := hother (closeValue ⟨0x8000000000000000⟩) (closeValue_isFinite (by decide))
    (closeValue_hasDistinctKeys _) _ List.mem_cons_self _ (by decide) htext
  simp [closeValue] at hsame

end ConfigLang
