import ConfigLang.Lexer.Cursor
import ConfigLang.Proofs.Lexer.BytePatterns
import ConfigLang.Proofs.Lexer.ModeStack
import ConfigLang.Proofs.Lexer.RoundTrip

/-!
# A cursor does what a lexer does

A cursor, which keeps its place in the source as a number of bytes, does what the lexer does that
keeps the rest of the text. So none of its cuts is without a result.

* `skipFrom_eq`: the loop goes past the trivia, and no further.
* `StandsAt.next`: a step of the cursor is a step of the lexer.
* `lexer_stays_in_source`: the statement for patterns and for runs.
-/

namespace ConfigLang.Lexer

open String (utf8Len utf8Len_append utf8Len_eq_zero)

/-! ## The loop that skips trivia -/

/-- Trivia that starts with a comment goes on at the end of its line. -/
theorem skipTrivia_line {cs : List Char} (h : ['/', '/'] <+: cs) :
    skipTrivia cs = skipTrivia (cs.dropWhile (· ≠ '\n')) := by
  obtain ⟨line, rfl⟩ := h
  have hdrop : (['/', '/'] ++ line).dropWhile (· ≠ '\n') = line.dropWhile (· ≠ '\n') := rfl
  rw [hdrop]
  refine (skipTrivia_slashes line).trans ?_
  by_cases hmem : '\n' ∈ line
  · obtain ⟨body, rest, rfl, hbody⟩ := List.eq_append_cons_of_mem hmem
    have hrun : ∀ c ∈ body, decide (c ≠ '\n') = true := by
      intro c hc
      simpa using ne_of_mem_of_not_mem hc hbody
    have hfeed : Stops (fun c => decide (c ≠ '\n')) ('\n' :: rest) := stops_cons.2 (by decide)
    rw [skipComment_append hbody, dropWhile_append_of_stops hrun hfeed,
      skipTrivia_blank (by decide)]
  · have hrun : ∀ c ∈ line, decide (c ≠ '\n') = true := by
      intro c hc
      simpa using ne_of_mem_of_not_mem hc hmem
    rw [skipComment_of_not_mem hmem, List.dropWhile_eq_nil_iff.2 hrun, skipTrivia]

theorem skipTrivia_dropWhile (cs : List Char) :
    skipTrivia (cs.dropWhile Text.isBlank) = skipTrivia cs := by
  have hgap : IsGap (cs.takeWhile Text.isBlank) := fun c hc => List.mem_takeWhile_imp hc
  rw [← skipTrivia_append hgap.isTrivia, List.takeWhile_append_dropWhile]

theorem skipTrivia_trimmed {cs : List Char} (h : ¬ ['/', '/'] <+: cs.dropWhile Text.isBlank) :
    skipTrivia cs = cs.dropWhile Text.isBlank := by
  rw [← skipTrivia_dropWhile]
  exact skipTrivia_eq_self_iff.2 ⟨stops_dropWhile Text.isBlank cs, h⟩

section
variable {source : String} {before rest : List Char} (h : source.toList = before ++ rest)
include h

/-- A round of the loop ends behind the trivia, or takes some of it and leaves the rest to the next
round. -/
theorem skipFrom_round :
    (∃ blanks, rest = blanks ++ skipTrivia rest ∧
      skipFrom source (utf8Len before) = some (utf8Len (before ++ blanks))) ∨
    ∃ skipped after, rest = skipped ++ after ∧ skipped ≠ [] ∧
      skipTrivia rest = skipTrivia after ∧
      skipFrom source (utf8Len before) = skipFrom source (utf8Len (before ++ skipped)) := by
  have hcut : splitBytes (utf8Len before) source.toList = some (before, rest) :=
    splitBytes_eq_some_iff.2 ⟨h, rfl⟩
  have hrest : rest = rest.takeWhile Text.isBlank ++ rest.dropWhile Text.isBlank :=
    List.takeWhile_append_dropWhile.symm
  have hstart : utf8Len before + (utf8Len rest - utf8Len (rest.dropWhile Text.isBlank)) =
      utf8Len (before ++ rest.takeWhile Text.isBlank) := by
    have hlen := congrArg utf8Len hrest
    rw [utf8Len_append] at hlen ⊢
    omega
  rw [skipFrom, hcut]
  dsimp only
  rw [hstart]
  split
  · rename_i hcomment
    have hskip := skipTrivia_line (List.isPrefixOf_iff_prefix.1 hcomment)
    have hpos := (comment_pos hcomment).1
    rw [skipTrivia_dropWhile] at hskip
    rw [leading_eq] at hpos ⊢
    refine .inr ⟨rest.takeWhile Text.isBlank ++ (rest.dropWhile Text.isBlank).takeWhile (· ≠ '\n'),
      _, ?_, ?_, hskip, ?_⟩
    · rw [List.append_assoc, List.takeWhile_append_dropWhile, ← hrest]
    · intro hnil
      rw [(List.append_eq_nil_iff.1 hnil).2] at hpos
      cases hpos
    · rw [← List.append_assoc, utf8Len_append (before ++ _)]
  · rename_i hcomment
    rw [skipTrivia_trimmed (mt List.isPrefixOf_iff_prefix.2 hcomment)]
    exact .inl ⟨_, hrest, rfl⟩

/-- The loop goes past the trivia, and no further. -/
theorem skipFrom_eq :
    ∃ trivia, rest = trivia ++ skipTrivia rest ∧
      skipFrom source (utf8Len before) = some (utf8Len (before ++ trivia)) := by
  induction hlength : rest.length using Nat.strong_induction_on generalizing before rest with
  | _ n ih =>
    subst hlength
    rcases skipFrom_round h with hends | ⟨skipped, after, rfl, hne, hskip, hfrom⟩
    · exact hends
    · have hsource : source.toList = before ++ skipped ++ after := by rw [h, List.append_assoc]
      have hshorter : after.length < (skipped ++ after).length := by
        have hpos := List.length_pos_iff.2 hne
        rw [List.length_append]
        omega
      obtain ⟨trivia, hafter, hends⟩ := ih _ hshorter hsource rfl
      refine ⟨skipped ++ trivia, ?_, ?_⟩
      · rw [hskip, List.append_assoc, ← hafter]
      · rw [hfrom, hends, List.append_assoc]

end

/-! ## A cursor and a lexer -/

theorem tryRules_eq (rules : List Rule) (cs : List Char) :
    (tryRules rules cs).run = some ((firstMatch rules cs).map
      (Option.map fun found => (found.1.token, utf8Len found.1.text, found.2))) := by
  induction rules with
  | nil => rfl
  | cons rule rules ih =>
    rw [tryRules, firstMatch, tryMatch_eq]
    cases rule.pattern.scan cs with
    | error e => rfl
    | ok read =>
      cases read with
      | none => exact ih
      | some lexeme => rfl

theorem read_cons (mode : Mode) (outer : List Mode) (c : Char) (cs : List Char) :
    read (mode :: outer) (c :: cs) =
      match firstMatch mode.rules (c :: cs) with
      | .error e => .error e
      | .ok none =>
        .error (.unexpectedText (some mode) (String.ofList (Text.excerpt (c :: cs))))
      | .ok (some (lexeme, move)) =>
        if lexeme.text.isEmpty then .error (.stalled mode) else .ok (some (lexeme, move)) :=
  rfl

/-- A cursor stands where a lexer stands: the text before it is as long as its position says, and
the lexer has the text behind it ahead. -/
structure StandsAt (c : Cursor) (l : Lexer) : Prop where
  place : ∃ before, c.source.toList = before ++ l.rest ∧ c.position = utf8Len before
  modes : c.modes = l.modes

section
variable {c : Cursor} {l : Lexer}

theorem standsAt_ofText (source : String) :
    StandsAt (Cursor.ofText source) (ofText source.toList) :=
  ⟨⟨[], rfl, rfl⟩, rfl⟩

theorem StandsAt.remaining (h : StandsAt c l) : c.remaining = some l.rest := by
  obtain ⟨before, hsource, hposition⟩ := h.place
  rw [Cursor.remaining, splitBytes_eq_some_iff.2 ⟨hsource, hposition.symm⟩]
  rfl

theorem StandsAt.skip (h : StandsAt c l) :
    ∃ c', c.skip = some c' ∧ c'.source = c.source ∧ StandsAt c' ⟨l.ahead, l.modes⟩ := by
  obtain ⟨before, hsource, hposition⟩ := h.place
  unfold Cursor.skip
  by_cases hs : InString l.modes
  · rw [if_pos (h.modes ▸ hs), ahead_of_inString hs]
    exact ⟨c, rfl, rfl, h⟩
  · obtain ⟨trivia, hrest, hfrom⟩ := skipFrom_eq hsource
    rw [if_neg (h.modes ▸ hs), ahead_of_not_inString hs, hposition, hfrom]
    refine ⟨_, rfl, rfl, ⟨before ++ trivia, ?_, rfl⟩, h.modes⟩
    rw [hsource, List.append_assoc]
    exact congrArg (before ++ ·) hrest

/-- A step of the cursor is a step of the lexer: it has a result, finds the same token or error, and
ends where the lexer ends. -/
theorem StandsAt.next (h : StandsAt c l) :
    ∃ c', c.next = some (l.next.1.map (Option.map Lexeme.token), c') ∧ c'.source = c.source ∧
      StandsAt c' l.next.2 := by
  obtain ⟨c', hskip, hsource, hc'⟩ := h.skip
  have hmodes : c'.modes = l.modes := hc'.modes
  have hrest : c'.remaining = some l.ahead := hc'.remaining
  unfold Cursor.next Lexer.next
  rw [hskip, Option.bind_eq_bind, Option.bind_some, hrest]
  generalize l.ahead = cs at *
  generalize l.modes = modes at *
  rw [Option.bind_eq_bind, Option.bind_some, hmodes]
  cases cs with
  | nil => exact ⟨c', rfl, hsource, hc'⟩
  | cons d cs =>
    cases modes with
    | nil => exact ⟨c', rfl, hsource, hc'⟩
    | cons mode outer =>
      dsimp only
      rw [List.isEmpty_cons, tryRules_eq, read_cons]
      match hfirst : firstMatch mode.rules (d :: cs) with
      | .error e => exact ⟨c', rfl, hsource, hc'⟩
      | .ok none => exact ⟨c', rfl, hsource, hc'⟩
      | .ok (some (lexeme, move)) =>
        obtain ⟨before, rule, after, -, -, hscan, -⟩ := rule_of_firstMatch hfirst
        have hne := scan_text_ne_nil hscan
        have hempty : lexeme.text.isEmpty = false := by simpa using hne
        have hpos : utf8Len lexeme.text ≠ 0 := mt utf8Len_eq_zero.1 hne
        obtain ⟨rest, hcs⟩ := prefix_of_scan hscan
        obtain ⟨front, hplace, hposition⟩ := hc'.place
        dsimp only
        rw [hempty]
        refine ⟨⟨c'.source, c'.position + utf8Len lexeme.text, move.apply (mode :: outer)⟩, ?_,
          hsource, ⟨front ++ lexeme.text, ?_, ?_⟩, rfl⟩
        · exact if_neg hpos
        · show c'.source.toList = front ++ lexeme.text ++ (d :: cs).drop lexeme.text.length
          rw [hplace, ← hcs, List.drop_left, List.append_assoc]
        · show c'.position + utf8Len lexeme.text = utf8Len (front ++ lexeme.text)
          rw [hposition, utf8Len_append]

theorem StandsAt.afterSteps (h : StandsAt c l) (k : Nat) :
    ∃ c', c.afterSteps k = some c' ∧ c'.source = c.source ∧ StandsAt c' (l.afterSteps k) := by
  induction k with
  | zero => exact ⟨c, rfl, rfl, h⟩
  | succ k ih =>
    obtain ⟨c₁, hsteps, hsource₁, hc₁⟩ := ih
    obtain ⟨c₂, hnext, hsource₂, hc₂⟩ := hc₁.next
    refine ⟨c₂, ?_, hsource₂.trans hsource₁, hc₂⟩
    rw [Cursor.afterSteps, hsteps, Option.bind_eq_bind, Option.bind_some, hnext]
    rfl

/-- The position of a cursor lies in its source, between two characters. -/
theorem StandsAt.isValid (h : StandsAt c l) :
    c.position ≤ c.source.utf8ByteSize ∧ String.Pos.Raw.IsValid c.source ⟨c.position⟩ := by
  obtain ⟨before, hsource, hposition⟩ := h.place
  have htext : c.source = String.ofList before ++ String.ofList l.rest := by
    rw [← String.ofList_append, ← hsource, String.ofList_toList]
  constructor
  · rw [← String.utf8Len_toList, hsource, hposition, utf8Len_append]
    exact Nat.le_add_right _ _
  · refine String.Pos.Raw.isValid_iff_exists_append.2 ⟨_, _, htext, ?_⟩
    rw [String.rawEndPos_ofList, hposition]

theorem map_eq_error_iff {α β : Type} {x : Except LexError α} {f : α → β} {e : LexError} :
    x.map f = .error e ↔ x = .error e := by
  cases x <;> simp [Except.map]

theorem next_ne_stalled (l : Lexer) (mode : Mode) : l.next.1 ≠ .error (.stalled mode) := by
  intro h
  exact read_ne_stalled _ _ mode (read_of_next_error (Prod.ext h rfl))

/-- Every step of a run takes at least one byte. -/
theorem length_steps_le (l : Lexer) : l.run.steps.length ≤ utf8Len l.rest := by
  fun_induction run l with
  | case1 l lexeme l' h _ rest ih =>
    obtain ⟨mode, outer, move, -, -, hne, hahead, -⟩ := next_eq_some_iff.1 h
    have hle := String.utf8Len_le_of_suffix l.ahead_suffix
    have hpos : utf8Len lexeme.text ≠ 0 := mt utf8Len_eq_zero.1 hne
    rw [hahead, utf8Len_append] at hle
    show rest.steps.length + 1 ≤ utf8Len l.rest
    have hrest : rest.steps.length ≤ utf8Len l'.rest := ih
    omega
  | case2 l l' h => exact Nat.zero_le _
  | case3 l l' e h => exact Nat.zero_le _

end

/-- **A lexer stays in its source.** For every text, each pattern has a result, which is what it
reads by characters; where it reads a token, the number of bytes that it returns is the length of a
text that is not empty and starts the input. So a cursor that adds up these numbers has a result in
every step, stands between two characters of the source after any number of steps, and never comes
to a halt on a token of no length. A source has at most as many tokens as bytes. -/
theorem lexer_stays_in_source :
    (∀ (p : Pattern) (input : String),
      (p.tryMatch input.toList).run = some ((p.scan input.toList).map
        (Option.map fun lexeme => (lexeme.token, (String.ofList lexeme.text).utf8ByteSize))) ∧
      ∀ (t : Token) (n : Nat), (p.tryMatch input.toList).run = some (.ok (some (t, n))) →
        (∃ text rest : String, input = text ++ rest ∧ text ≠ "" ∧ text.utf8ByteSize = n) ∧
          1 ≤ n ∧ n ≤ input.utf8ByteSize ∧ String.Pos.Raw.IsValid input ⟨n⟩) ∧
    (∀ (source : String) (k : Nat), ∃ c result c',
      (Cursor.ofText source).afterSteps k = some c ∧ c.next = some (result, c') ∧
        result = ((ofText source.toList).afterSteps k).next.1.map (Option.map Lexeme.token) ∧
        c.source = source ∧ c.position ≤ source.utf8ByteSize ∧
        String.Pos.Raw.IsValid source ⟨c.position⟩ ∧
        ∀ mode, result ≠ .error (.stalled mode)) ∧
    ∀ source : String, (ofText source.toList).run.steps.length ≤ source.utf8ByteSize ∧
      ∀ ts, tokenize source = .ok ts → ts.length ≤ source.utf8ByteSize := by
  refine ⟨fun p input => ⟨?_, fun t n h => ?_⟩, fun source k => ?_, fun source => ?_⟩
  · rw [tryMatch_eq, run_measured]
    simp only [String.utf8ByteSize_ofList]
  · obtain ⟨text, rest, hcs, hne, hn⟩ := prefix_of_tryMatch h
    have hinput : input = String.ofList text ++ String.ofList rest := by
      rw [← String.ofList_append, ← hcs, String.ofList_toList]
    have hlen : (String.ofList text).utf8ByteSize = n := by rw [String.utf8ByteSize_ofList, hn]
    have hpos : utf8Len text ≠ 0 := mt utf8Len_eq_zero.1 hne
    refine ⟨⟨_, _, hinput, by simpa using hne, hlen⟩, by omega, ?_, ?_⟩
    · rw [hinput, String.utf8ByteSize_append, hlen]
      exact Nat.le_add_right _ _
    · refine String.Pos.Raw.isValid_iff_exists_append.2 ⟨_, _, hinput, ?_⟩
      rw [String.rawEndPos_ofList, hn]
  · obtain ⟨c, hsteps, hsource, hc⟩ := (standsAt_ofText source).afterSteps k
    obtain ⟨c', hnext, -, -⟩ := hc.next
    obtain ⟨hle, hvalid⟩ := hc.isValid
    obtain rfl : c.source = source := hsource
    refine ⟨c, _, c', hsteps, hnext, rfl, rfl, hle, hvalid, fun mode h => ?_⟩
    exact next_ne_stalled _ mode (map_eq_error_iff.1 h)
  · have hsteps := length_steps_le (ofText source.toList)
    have hlen : utf8Len (ofText source.toList).rest = source.utf8ByteSize :=
      String.utf8Len_toList source
    rw [hlen] at hsteps
    refine ⟨hsteps, fun ts h => ?_⟩
    obtain ⟨-, rfl⟩ := tokenize_eq_ok_iff.1 h
    rw [List.length_map]
    exact hsteps

/-- A key of characters of two and four bytes between quotes. -/
theorem lexer_stays_in_source_at_wide_characters :
    (Pattern.quotedSegment.tryMatch "'é😀'=".toList).run =
        some (.ok (some (.segment "é😀", 8))) ∧
      8 ≤ "'é😀'=".utf8ByteSize ∧ String.Pos.Raw.IsValid "'é😀'=" ⟨8⟩ := by
  have h : (Pattern.quotedSegment.tryMatch "'é😀'=".toList).run =
      some (.ok (some (.segment "é😀", 8))) := by rfl
  obtain ⟨-, -, hle, hvalid⟩ := (lexer_stays_in_source.1 .quotedSegment _).2 _ _ h
  exact ⟨h, hle, hvalid⟩

end ConfigLang.Lexer
