import ConfigLang.Command.Run
import ConfigLang.Proofs.Text.Blanks
import Mathlib.Data.List.DropRight

/-!
# How rendered texts end

A text that ends its last line and a text stripped of the white space at its end differ exactly in
the blanks before the final line feed. This module finds the character before that line feed.

* `trimEnd_eq_endLine_iff`: the two ways to end a text agree where that character is not blank.
* `Yaml.render_ends`: YAML text ends with the last leaf of its value.
* `Yaml.finalChar?_leaf`: the character before the final line feed of a leaf is blank only in
  strings without quotes that end so themselves.
* `Yaml.trimEnd_text_eq_iff`, `Json.trimEnd_text_eq`: when nothing is lost from YAML and from JSON.
-/

namespace ConfigLang

/-! ## Before the final line feed -/

/-- A text without one line feed at its end. -/
def withoutFeed (cs : List Char) : List Char :=
  if cs.getLast? = some '\n' then cs.dropLast else cs

/-- The last character of a text before a line feed at its end. -/
def finalChar? (cs : List Char) : Option Char := (withoutFeed cs).getLast?

theorem withoutFeed_concat (cs : List Char) : withoutFeed (cs ++ ['\n']) = cs := by
  simp [withoutFeed]

theorem withoutFeed_of_ne {cs : List Char} (h : cs.getLast? ≠ some '\n') : withoutFeed cs = cs :=
  if_neg h

theorem finalChar?_concat (cs : List Char) : finalChar? (cs ++ ['\n']) = cs.getLast? := by
  rw [finalChar?, withoutFeed_concat]

theorem finalChar?_of_getLast? {cs : List Char} {c : Char} (h : cs.getLast? = some c)
    (hc : c ≠ '\n') : finalChar? cs = some c := by
  have hne : cs.getLast? ≠ some '\n' := by
    rw [h]
    simpa using hc
  rw [finalChar?, withoutFeed_of_ne hne, h]

theorem finalChar?_append {cs : List Char} {c : Char} (before : List Char)
    (h : finalChar? cs = some c) : finalChar? (before ++ cs) = some c := by
  rcases cs.eq_nil_or_concat with rfl | ⟨front, last, rfl⟩
  · cases h
  · by_cases hl : last = '\n'
    · subst hl
      rw [List.concat_eq_append, finalChar?_concat] at h
      rw [List.concat_eq_append, ← List.append_assoc, finalChar?_concat, List.getLast?_append, h]
      rfl
    · rw [List.concat_eq_append, finalChar?_of_getLast? (by simp) hl] at h
      cases h
      exact finalChar?_of_getLast? (by simp) hl

/-- A text with its line ended is a text without a line feed at its end, and one. -/
theorem endLine_toList (text : String) :
    (Command.endLine text).toList = withoutFeed text.toList ++ ['\n'] := by
  unfold Command.endLine withoutFeed
  split
  · rename_i h
    exact (List.dropLast_append_getLast? '\n' h).symm
  · simp

theorem rdropWhile_withoutFeed (cs : List Char) :
    (withoutFeed cs).rdropWhile Text.isBlank = cs.rdropWhile Text.isBlank := by
  unfold withoutFeed
  split
  · rename_i h
    have hfeed : Text.isBlank '\n' := by decide
    conv_rhs => rw [← List.dropLast_append_getLast? '\n' h]
    rw [List.rdropWhile_concat_pos _ _ _ hfeed]
  · rfl

/-- Stripping and ending a text agree where no blank stands before the final line feed. -/
theorem trimEnd_eq_endLine_iff {text : String} :
    Command.trimEnd text ++ "\n" = Command.endLine text ↔
      ∀ c ∈ finalChar? text.toList, Text.isBlank c = false := by
  have htrim : (Command.trimEnd text).toList = text.toList.rdropWhile Text.isBlank := by
    simp [Command.trimEnd, List.rdropWhile]
  rw [← String.toList_inj, String.toList_append, endLine_toList, htrim]
  rw [← rdropWhile_withoutFeed, show "\n".toList = ['\n'] from rfl, List.append_cancel_right_eq,
    List.rdropWhile_eq_self_iff]
  unfold finalChar?
  constructor
  · intro h c hc
    obtain ⟨hne, rfl⟩ := List.mem_getLast?_eq_getLast hc
    simpa using h hne
  · intro h hne
    simpa using h _ (List.getLast?_eq_getLast_of_ne_nil hne)

/-! ## The last leaf -/

mutual

/-- The last leaf of a value in the order of writing: a value that is no collection, or an empty
one. -/
def Value.final : Value → Value
  | .array (v :: vs) => finalOfItems (v :: vs)
  | .object (f :: fs) => finalOfFields (f :: fs)
  | v => v

/-- The last leaf of the last item. -/
def finalOfItems : List Value → Value
  | [] => .null
  | [v] => v.final
  | _ :: v :: vs => finalOfItems (v :: vs)

/-- The last leaf of the last field. -/
def finalOfFields : List (String × Value) → Value
  | [] => .null
  | [(_, v)] => v.final
  | _ :: f :: fs => finalOfFields (f :: fs)

end

namespace Yaml

/-- A text that ends with the leaf `v`, at some indentation. -/
def EndsWithLeaf (text : List Char) (v : Value) : Prop :=
  ∃ before width, text = before ++ leaf width v

theorem EndsWithLeaf.append {text : List Char} {v : Value} (before : List Char)
    (h : EndsWithLeaf text v) : EndsWithLeaf (before ++ text) v := by
  obtain ⟨before', width, rfl⟩ := h
  exact ⟨before ++ before', width, by rw [List.append_assoc]⟩

theorem EndsWithLeaf.cons {text : List Char} {v : Value} (c : Char) (h : EndsWithLeaf text v) :
    EndsWithLeaf (c :: text) v :=
  h.append [c]

mutual

theorem afterDash_ends (width : Nat) : ∀ v : Value, EndsWithLeaf (afterDash width v) v.final
  | .array (v :: vs) => by
    rw [afterDash, Value.final]
    exact renderItems_ends [' '] (width + 2) (v :: vs) (List.cons_ne_nil v vs)
  | .object (f :: fs) => by
    rw [afterDash, Value.final]
    exact renderFields_ends [' '] (width + 2) (f :: fs) (List.cons_ne_nil f fs)
  | .array [] | .object [] | .null | .bool _ | .integer _ | .float _ | .string _ =>
    ⟨[' '], width + 2, rfl⟩

theorem afterKey_ends (width : Nat) : ∀ v : Value, EndsWithLeaf (afterKey width v) v.final
  | .array (v :: vs) => by
    rw [afterKey, Value.final]
    exact renderItems_ends _ width (v :: vs) (List.cons_ne_nil v vs)
  | .object (f :: fs) => by
    rw [afterKey, Value.final]
    exact renderFields_ends _ (width + 2) (f :: fs) (List.cons_ne_nil f fs)
  | .array [] | .object [] | .null | .bool _ | .integer _ | .float _ | .string _ =>
    ⟨[' '], width + 2, rfl⟩

theorem renderItems_ends (lead : List Char) (width : Nat) :
    ∀ vs : List Value, vs ≠ [] → EndsWithLeaf (renderItems lead width vs) (finalOfItems vs)
  | [], h => absurd rfl h
  | [v], _ => by
    rw [renderItems, renderItems, List.append_nil, finalOfItems]
    exact ((afterDash_ends width v).cons '-').append lead
  | v :: v' :: vs, _ => by
    rw [renderItems, finalOfItems]
    exact (renderItems_ends (indentation width) width (v' :: vs) (List.cons_ne_nil v' vs)).append _

theorem renderFields_ends (lead : List Char) (width : Nat) :
    ∀ fs : List (String × Value), fs ≠ [] →
      EndsWithLeaf (renderFields lead width fs) (finalOfFields fs)
  | [], h => absurd rfl h
  | [(k, v)], _ => by
    rw [renderFields, renderFields, List.append_nil, finalOfFields]
    refine EndsWithLeaf.append lead ?_
    split
    · exact ((afterKey_ends width v).cons ':').append _
    · exact ((afterDash_ends width v).cons ':').append _
  | (k, v) :: f :: fs, _ => by
    rw [renderFields, finalOfFields]
    exact (renderFields_ends (indentation width) width (f :: fs) (List.cons_ne_nil f fs)).append _

end

/-- YAML text ends with the last leaf of its value. -/
theorem render_ends (v : Value) : EndsWithLeaf (render v) v.final := by
  cases v with
  | array items =>
    cases items with
    | nil => exact ⟨[], 2, rfl⟩
    | cons v vs =>
      rw [render, Value.final]
      exact renderItems_ends [] 0 (v :: vs) (List.cons_ne_nil v vs)
  | object fields =>
    cases fields with
    | nil => exact ⟨[], 2, rfl⟩
    | cons f fs =>
      rw [render, Value.final]
      exact renderFields_ends [] 0 (f :: fs) (List.cons_ne_nil f fs)
  | _ => exact ⟨[], 2, rfl⟩

end Yaml

/-! ## Numbers -/

/-- Text without white space. -/
def IsInk (cs : List Char) : Prop := ∀ c ∈ cs, Text.isBlank c = false

theorem isInk_of_all {cs : List Char} (h : cs.all (fun c => !Text.isBlank c)) : IsInk cs := by
  simpa [IsInk] using h

theorem isInk_append {a b : List Char} : IsInk (a ++ b) ↔ IsInk a ∧ IsInk b :=
  List.forall_mem_append

theorem isInk_cons {c : Char} {cs : List Char} :
    IsInk (c :: cs) ↔ Text.isBlank c = false ∧ IsInk cs :=
  List.forall_mem_cons

theorem isInk_digits (n : Nat) : IsInk (Nat.toDigits 10 n) := fun _ hc =>
  isBlank_of_isDigit (Nat.isDigit_of_mem_toDigits (by decide) (by decide) hc)

theorem isInk_zeros (k : Nat) : IsInk (List.replicate k '0') := fun c hc => by
  rw [List.eq_of_mem_replicate hc]
  decide

theorem IsInk.take {cs : List Char} (h : IsInk cs) (k : Nat) : IsInk (cs.take k) :=
  fun c hc => h c (List.mem_of_mem_take hc)

theorem IsInk.drop {cs : List Char} (h : IsInk cs) (k : Nat) : IsInk (cs.drop k) :=
  fun c hc => h c (List.mem_of_mem_drop hc)

theorem integer_spec (n : Int) : (toString n).toList ≠ [] ∧ IsInk (toString n).toList := by
  rw [Int.toString_eq_repr, Int.repr_eq_if]
  split
  · rw [Nat.toList_repr]
    exact ⟨Nat.toDigits_ne_nil, isInk_digits _⟩
  · rw [String.toList_append, Nat.toList_repr]
    exact ⟨by simp, isInk_append.2 ⟨isInk_of_all (by decide), isInk_digits _⟩⟩

namespace FloatStyle

theorem isInk_dropFinalZeros {digits : List Char} (h : IsInk digits) :
    IsInk (dropFinalZeros digits) := by
  intro c hc
  unfold dropFinalZeros at hc
  have hmem := (List.dropWhile_sublist _).subset (List.mem_reverse.1 hc)
  exact h c (List.mem_reverse.1 hmem)

theorem pointed_spec (marksWhole : Bool) {digits : List Char} (h : IsInk digits) (lead : Int) :
    pointed marksWhole digits lead ≠ [] ∧ IsInk (pointed marksWhole digits lead) := by
  cases lead with
  | negSucc k =>
    refine ⟨by simp [pointed], ?_⟩
    exact isInk_append.2 ⟨isInk_append.2 ⟨isInk_of_all (by decide), isInk_zeros k⟩, h⟩
  | ofNat k =>
    unfold pointed
    have hwhole : IsInk (digits.take (k + 1) ++ List.replicate (k + 1 - digits.length) '0') :=
      isInk_append.2 ⟨h.take _, isInk_zeros _⟩
    have hne : digits.take (k + 1) ++ List.replicate (k + 1 - digits.length) '0' ≠ [] := by
      intro hnil
      have hlen := congrArg List.length hnil
      simp only [List.length_append, List.length_take, List.length_replicate,
        List.length_nil] at hlen
      omega
    dsimp only
    split
    · split
      · exact ⟨by simp, isInk_append.2 ⟨hwhole, isInk_of_all (by decide)⟩⟩
      · exact ⟨hne, hwhole⟩
    · refine ⟨by simp, isInk_append.2 ⟨hwhole, isInk_cons.2 ⟨by decide, ?_⟩⟩⟩
      exact h.drop _

theorem scientific_spec (signsExponent : Bool) {digits : List Char} (h : IsInk digits)
    (lead : Int) :
    scientific signsExponent digits lead ≠ [] ∧ IsInk (scientific signsExponent digits lead) := by
  have hexponent : IsInk (exponentText signsExponent lead) := by
    cases lead with
    | negSucc k => exact isInk_cons.2 ⟨by decide, isInk_digits _⟩
    | ofNat k =>
      cases signsExponent
      · exact isInk_digits _
      · exact isInk_cons.2 ⟨by decide, isInk_digits _⟩
  refine ⟨by simp [scientific], isInk_append.2 ⟨?_, isInk_cons.2 ⟨by decide, hexponent⟩⟩⟩
  split
  · obtain ⟨hfirst, hrest⟩ := isInk_cons.1 h
    exact isInk_cons.2 ⟨hfirst, isInk_cons.2 ⟨by decide, hrest⟩⟩
  · exact h

/-- A written number is not empty and has no white space, if the style has none. -/
theorem write_spec {style : FloatStyle} (hi : style.infinity ≠ [] ∧ IsInk style.infinity)
    (hn : style.nan ≠ [] ∧ IsInk style.nan) (x : Binary64) :
    style.write x ≠ [] ∧ IsInk (style.write x) := by
  have hdecimal (d : Decimal) : style.writeDecimal d ≠ [] ∧ IsInk (style.writeDecimal d) := by
    have hdigits := isInk_dropFinalZeros (isInk_digits d.coefficient)
    unfold writeDecimal
    split
    · exact pointed_spec _ (isInk_of_all (by decide)) _
    · dsimp only
      split
      · exact pointed_spec _ hdigits _
      · exact scientific_spec _ hdigits _
  unfold write
  split
  · exact hn
  · dsimp only
    have habsolute : ∀ absolute : List Char, absolute ≠ [] ∧ IsInk absolute →
        (if x.isNegative then '-' :: absolute else absolute) ≠ [] ∧
          IsInk (if x.isNegative then '-' :: absolute else absolute) := by
      intro absolute h
      split
      · exact ⟨List.cons_ne_nil _ _, isInk_cons.2 ⟨by decide, h.2⟩⟩
      · exact h
    apply habsolute
    split
    · exact hdecimal _
    · exact hi

end FloatStyle

/-! ## Leaves -/

theorem finalChar?_line {text : List Char} (h : text ≠ [] ∧ IsInk text) :
    ∃ c, finalChar? (text ++ ['\n']) = some c ∧ Text.isBlank c = false := by
  obtain ⟨hne, hink⟩ := h
  have hlast := List.getLast?_eq_getLast_of_ne_nil hne
  exact ⟨text.getLast hne, by rw [finalChar?_concat, hlast], hink _ (List.getLast_mem hne)⟩

namespace Yaml

/-- The lines of a literal block end with the last character of the string. -/
theorem getLast?_indentLines (width : Nat) (s : List Char) :
    ∀ atStart, (indentLines width (fun c => [c]) atStart s).getLast? = s.getLast? := by
  induction s with
  | nil => exact fun _ => rfl
  | cons c s ih =>
    intro atStart
    rw [indentLines]
    split
    · rw [List.getLast?_cons, List.getLast?_cons, ih]
    · dsimp only
      split
      · rw [List.getLast?_append, List.singleton_append, List.getLast?_cons, List.getLast?_cons, ih]
        rfl
      · rw [List.singleton_append, List.getLast?_cons, List.getLast?_cons, ih]

theorem indentLines_concat (width : Nat) {c : Char} (hc : isBreak c) (s : List Char) :
    ∀ atStart, indentLines width (fun c => [c]) atStart (s ++ [c]) =
      indentLines width (fun c => [c]) atStart s ++ [c] := by
  induction s with
  | nil =>
    intro atStart
    simp [indentLines, hc]
  | cons d s ih =>
    intro atStart
    rw [List.cons_append, indentLines, indentLines]
    split
    · rw [ih, List.cons_append]
    · dsimp only
      rw [ih]
      split <;> simp

/-- A string whose text keeps a blank before the final line feed: it has no quotes, and a blank or
nothing before a line feed at its own end. -/
def EndsBlank (s : List Char) : Prop :=
  (styleOf s = .plain ∨ styleOf s = .literal) ∧ ∀ c ∈ finalChar? s, Text.isBlank c

theorem plain_spec {s : List Char} (h : styleOf s = .plain) : s ≠ [] ∧ '\n' ∉ s := by
  constructor
  · rintro rfl
    exact absurd h (by decide)
  · intro hmem
    unfold styleOf at h
    rw [if_pos hmem] at h
    split at h
    · cases h
    · split at h <;> cases h

theorem getLast?_literalBlock (width : Nat) (s : List Char) :
    (literalBlock width s).getLast? = some (s.getLast?.getD '\n') := by
  unfold literalBlock
  rw [List.getLast?_append, List.getLast?_cons, getLast?_indentLines]
  rfl

theorem literalBlock_concat (width : Nat) (s : List Char) :
    ∃ front, literalBlock width (s ++ ['\n']) = front ++ ['\n'] ∧
      front.getLast? = some (s.getLast?.getD '\n') := by
  refine ⟨'|' :: literalSigns (s ++ ['\n']) ++
    '\n' :: indentLines width (fun c => [c]) true s, ?_, ?_⟩
  · rw [literalBlock, indentLines_concat width (by decide)]
    simp
  · rw [List.getLast?_append, List.getLast?_cons, getLast?_indentLines]
    rfl

theorem finalChar?_scalarLine (width : Nat) (s : List Char) :
    ∃ c, finalChar? (scalarLine width s) = some c ∧ (Text.isBlank c ↔ EndsBlank s) := by
  unfold scalarLine scalar EndsBlank
  cases hstyle : styleOf s with
  | plain =>
    obtain ⟨hne, hfeed⟩ := plain_spec hstyle
    have hlast := List.getLast?_eq_getLast_of_ne_nil hne
    have hc : s.getLast hne ≠ '\n' := fun he => hfeed (he ▸ List.getLast_mem hne)
    refine ⟨s.getLast hne, ?_, ?_⟩
    · simp only [reduceCtorEq, false_and, if_false]
      rw [finalChar?_concat, hlast]
    · simp [finalChar?_of_getLast? hlast hc]
  | singleQuoted =>
    refine ⟨'\'', ?_, by simp; decide⟩
    simp only [reduceCtorEq, false_and, if_false]
    rw [finalChar?_concat]
    exact List.getLast?_concat
  | doubleQuoted =>
    refine ⟨'"', ?_, by simp; decide⟩
    simp only [reduceCtorEq, false_and, if_false]
    rw [finalChar?_concat]
    exact List.getLast?_concat
  | literal =>
    simp only [true_and, reduceCtorEq, false_or]
    rcases s.eq_nil_or_concat with rfl | ⟨front, last, rfl⟩
    · cases hstyle
    rw [List.concat_eq_append, List.getLast?_concat]
    by_cases hlast : last = '\n'
    · -- The line feed at the end belongs to the string, and what it follows is the last character.
      subst hlast
      obtain ⟨text, htext, hc⟩ := literalBlock_concat width front
      rw [if_pos (by decide), htext, finalChar?_concat, finalChar?_concat]
      refine ⟨_, hc, ?_⟩
      cases front.getLast? with
      | none => simp; decide
      | some c => simp
    · have hblock : (literalBlock width (front ++ [last])).getLast? = some last := by
        rw [getLast?_literalBlock, List.getLast?_concat]
        rfl
      refine ⟨last, ?_, by simp [finalChar?_of_getLast? List.getLast?_concat hlast]⟩
      split
      · exact finalChar?_of_getLast? hblock hlast
      · rw [finalChar?_concat, hblock]

end Yaml

/-- Whether the YAML text of a value keeps a blank before its final line feed: its last leaf is a
string that does. -/
def Value.EndsBlank (v : Value) : Prop := ∃ s, v.final = .string s ∧ Yaml.EndsBlank s.toList

namespace Yaml

/-- Blanks before the final line feed of a leaf are those of a string without quotes. -/
theorem finalChar?_leaf (width : Nat) (v : Value) :
    ∃ c, finalChar? (leaf width v) = some c ∧
      (Text.isBlank c ↔ ∃ s, v = .string s ∧ EndsBlank s.toList) := by
  have hline {t : List Char} (h : t ≠ [] ∧ IsInk t) (hv : ∀ s, v ≠ .string s) :
      ∃ c, finalChar? (t ++ ['\n']) = some c ∧
        (Text.isBlank c ↔ ∃ s, v = .string s ∧ EndsBlank s.toList) := by
    obtain ⟨c, hc, hblank⟩ := finalChar?_line h
    refine ⟨c, hc, ?_⟩
    simp [hblank, hv]
  cases v with
  | string s =>
    obtain ⟨c, hc, hblank⟩ := finalChar?_scalarLine width s.toList
    refine ⟨c, hc, ?_⟩
    simp [hblank]
  | integer n => exact hline (integer_spec n.toInt) (by simp)
  | float x =>
    have hinf : FloatStyle.yaml.infinity ≠ [] ∧ IsInk FloatStyle.yaml.infinity := by
      exact ⟨by decide, isInk_of_all (by decide)⟩
    have hnan : FloatStyle.yaml.nan ≠ [] ∧ IsInk FloatStyle.yaml.nan := by
      exact ⟨by decide, isInk_of_all (by decide)⟩
    exact hline (FloatStyle.write_spec hinf hnan x) (by simp)
  | null => exact hline (t := ['n', 'u', 'l', 'l']) ⟨by decide, isInk_of_all (by decide)⟩ (by simp)
  | bool b =>
    cases b
    · exact hline (t := ['f', 'a', 'l', 's', 'e']) ⟨by decide, isInk_of_all (by decide)⟩ (by simp)
    · exact hline (t := ['t', 'r', 'u', 'e']) ⟨by decide, isInk_of_all (by decide)⟩ (by simp)
  | array items => exact hline (t := ['[', ']']) ⟨by decide, isInk_of_all (by decide)⟩ (by simp)
  | object fields =>
    exact hline (t := ['\x7b', '\x7d']) ⟨by decide, isInk_of_all (by decide)⟩ (by simp)

/-- Stripping YAML text and ending its line lose the blanks that a string left before its final
line feed. -/
theorem trimEnd_text_eq_iff (v : Value) :
    Command.trimEnd (text v) ++ "\n" = Command.endLine (text v) ↔ ¬ v.EndsBlank := by
  obtain ⟨before, width, hrender⟩ := render_ends v
  obtain ⟨c, hc, hblank⟩ := finalChar?_leaf width v.final
  rw [trimEnd_eq_endLine_iff, text, String.toList_ofList, hrender, finalChar?_append before hc]
  unfold Value.EndsBlank
  rw [← hblank]
  simp

end Yaml

namespace Json

theorem getLast?_renderFields (layout : Layout) (depth : Nat) (fs : List (String × Value)) :
    (renderFields layout depth fs).getLast? = some '\x7d' := by
  induction fs with
  | nil => rw [renderFields, List.getLast?_concat]
  | cons f fs ih =>
    obtain ⟨k, v⟩ := f
    rw [renderFields, List.getLast?_append, ih]
    rfl

/-- Nothing can be stripped from the JSON text of an object. -/
theorem trimEnd_text_eq (layout : Layout) (fields : List (String × Value)) :
    Command.trimEnd (text layout (.object fields)) ++ "\n" =
      Command.endLine (text layout (.object fields)) := by
  have hlast : (render layout 0 (.object fields)).getLast? = some '\x7d' := by
    cases fields with
    | nil => rfl
    | cons f fs =>
      obtain ⟨k, v⟩ := f
      rw [render, List.getLast?_append, getLast?_renderFields]
      rfl
  rw [trimEnd_eq_endLine_iff, text, String.toList_ofList,
    finalChar?_of_getLast? hlast (by decide)]
  intro c hc
  cases hc
  decide

end Json

end ConfigLang
