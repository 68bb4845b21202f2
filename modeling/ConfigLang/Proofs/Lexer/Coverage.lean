import ConfigLang.Proofs.Lexer.Lexemes

/-!
# Nothing but trivia is dropped

A lexer divides its text into the texts of tokens and what it skips between them. Nothing is lost
and nothing is read twice: put together again the parts are the text.

* `Piece`: a token of a run with the text that is skipped behind it.
* `covers_run`: a run divides its text into pieces, up to where it stops.
* `covers_text`: the statement for whole texts, with what the tokens carry of their texts.
-/

namespace ConfigLang.Lexer

/-- A token of a run, with the modes open after it, and the text skipped before the next one. -/
structure Piece where
  step : Lexeme × List Mode
  gap : List Char

/-- The text of a token and of the gap behind it. -/
def Piece.text (p : Piece) : List Char := p.step.1.text ++ p.gap

/-- How a run divides a text: a gap before the first token, the tokens with the gaps behind them,
and the rest where the lexer stopped. Gaps are trivia, and behind a token that a string goes on
after there is none. Only the last gap may end in a comment that is not closed, with nothing
behind it. -/
structure Covers (source : List Char) (r : Run) (first : List Char) (pieces : List Piece) :
    Prop where
  steps : pieces.map Piece.step = r.steps
  text : source = first ++ (pieces.flatMap Piece.text ++ r.last.rest)
  inString : ∀ p ∈ pieces, InString p.step.2 → p.gap = []
  closed : ∀ gap ∈ (first :: pieces.map Piece.gap).dropLast, IsTrivia gap
  last : ∀ gap ∈ (first :: pieces.map Piece.gap).getLast?,
    IsTrivia gap ∨ IsLastTrivia gap ∧ r.last.rest = []

/-! ## Runs -/

/-- What a lexer skips before the text ahead. -/
theorem exists_gap (l : Lexer) :
    ∃ gap, l.rest = gap ++ l.ahead ∧ (InString l.modes → gap = []) ∧
      (IsTrivia gap ∨ IsLastTrivia gap ∧ l.ahead = []) := by
  by_cases hs : InString l.modes
  · exact ⟨[], (ahead_of_inString hs).symm, fun _ => rfl, .inl .nil⟩
  · obtain ⟨gap, hrest, hgap⟩ := exists_trivia l.rest
    rw [ahead_of_not_inString hs]
    exact ⟨gap, hrest, fun h => absurd h hs, hgap⟩

/-- A lexer that stops has skipped what stands before the text that it stopped at. -/
theorem covers_stop (l : Lexer) (error : Option LexError) :
    ∃ first, Covers l.rest ⟨[], ⟨l.ahead, l.modes⟩, error⟩ first [] ∧
      (InString l.modes → first = []) := by
  obtain ⟨gap, hrest, hstring, hgap⟩ := exists_gap l
  exact ⟨gap, ⟨rfl, hrest, by simp, by simp, by simpa using hgap⟩, hstring⟩

/-- A token before a text that is divided, with the gap before the token. -/
theorem Covers.cons {source text gap first : List Char} {r : Run} {lexeme : Lexeme}
    {modes : List Mode} {pieces : List Piece} (h : Covers source r first pieces)
    (htext : text = gap ++ (lexeme.text ++ source)) (hgap : IsTrivia gap)
    (hstring : InString modes → first = []) :
    Covers text { r with steps := (lexeme, modes) :: r.steps } gap
      (⟨(lexeme, modes), first⟩ :: pieces) where
  steps := by rw [List.map_cons, h.steps]
  text := by
    rw [htext, h.text]
    simp [Piece.text]
  inString := List.forall_mem_cons.2 ⟨hstring, h.inString⟩
  closed := by
    rw [List.map_cons, List.dropLast_cons_cons]
    exact List.forall_mem_cons.2 ⟨hgap, h.closed⟩
  last := by
    rw [List.map_cons, List.getLast?_cons_cons]
    exact h.last

/-- **A run divides its text** into the texts of its tokens and the gaps around them. -/
theorem covers_run (l : Lexer) :
    ∃ first pieces, Covers l.rest l.run first pieces ∧ (InString l.modes → first = []) := by
  fun_induction run l with
  | case1 l lexeme l' h _ rest ih =>
    obtain ⟨first, pieces, hcovers, hstring'⟩ := ih
    obtain ⟨mode, outer, move, -, -, hne, hahead, -⟩ := next_eq_some_iff.1 h
    obtain ⟨gap, hrest, hstring, hgap⟩ := exists_gap l
    have hsome : l.ahead ≠ [] := by
      rw [hahead]
      exact List.append_ne_nil_of_left_ne_nil hne _
    have hclosed : IsTrivia gap := hgap.resolve_right fun hlast => hsome hlast.2
    rw [hahead] at hrest
    exact ⟨gap, _, hcovers.cons hrest hclosed hstring', hstring⟩
  | case2 l l' h =>
    obtain rfl := next_of_not_some h (by simp)
    obtain ⟨first, hcovers, hstring⟩ := covers_stop l none
    exact ⟨first, [], hcovers, hstring⟩
  | case3 l e l' h =>
    obtain rfl := next_of_not_some h (by simp)
    obtain ⟨first, hcovers, hstring⟩ := covers_stop l (some e)
    exact ⟨first, [], hcovers, hstring⟩

/-- A run stops at the end of the text, or where no token can be read. -/
theorem run_last (l : Lexer) :
    (l.run.error = none → l.run.last.rest = []) ∧
      ∀ e, l.run.error = some e → read l.run.last.modes l.run.last.rest = .error e := by
  fun_induction run l with
  | case1 l lexeme l' h _ rest ih => exact ih
  | case2 l l' h =>
    obtain rfl := next_of_not_some h (by simp)
    exact ⟨fun _ => ahead_of_next_none h, by simp⟩
  | case3 l e l' h =>
    obtain rfl := next_of_not_some h (by simp)
    have hread := read_of_next_error h
    exact ⟨by simp, fun e' he' => Option.some.inj he' ▸ hread⟩

theorem denotes_run (l : Lexer) : ∀ step ∈ l.run.steps, Denotes step.1.token step.1.text := by
  fun_induction run l with
  | case1 l lexeme l' h _ rest ih => exact List.forall_mem_cons.2 ⟨denotes_of_next h, ih⟩
  | case2 | case3 => simp

/-! ## Strings -/

/-- Behind some steps of a run another run begins. -/
theorem exists_run_after {l : Lexer} {before after : List (Lexeme × List Mode)}
    {step : Lexeme × List Mode} (h : l.run.steps = before ++ step :: after) :
    ∃ l' : Lexer, l'.modes = step.2 ∧ l'.run.steps = after := by
  induction before generalizing l with
  | nil =>
    rcases l.run_cases with ⟨hnil, -⟩ | ⟨lexeme, l', -, hsteps, -⟩
    · rw [hnil] at h
      cases h
    · rw [hsteps] at h
      obtain ⟨rfl, rfl⟩ := List.cons.inj h
      exact ⟨l', rfl, rfl⟩
  | cons first before ih =>
    rcases l.run_cases with ⟨hnil, -⟩ | ⟨lexeme, l', -, hsteps, -⟩
    · rw [hnil] at h
      cases h
    · rw [hsteps] at h
      exact ih (List.cons.inj h).2

theorem inString_of_run {l : Lexer} {parts after : List (Lexeme × List Mode)}
    (h : l.run.steps = parts ++ after) (hs : InString l.modes)
    (hparts : ∀ part ∈ parts, part.1.token ≠ .symbol .quote) : ∀ part ∈ parts, InString part.2 := by
  induction parts generalizing l with
  | nil => simp
  | cons part parts ih =>
    obtain ⟨hpart, hothers⟩ := List.forall_mem_cons.1 hparts
    rcases l.run_cases with ⟨hnil, -⟩ | ⟨lexeme, l', hnext, hsteps, -⟩
    · rw [hnil] at h
      cases h
    · rw [hsteps] at h
      obtain ⟨rfl, hrest⟩ := List.cons.inj h
      have hs' := inString_of_next hnext hs hpart
      exact List.forall_mem_cons.2 ⟨hs', ih hrest hs' hothers⟩

/-- Between the quotes of a string stand the texts of its parts and nothing else. -/
theorem Covers.string {source first : List Char} {l : Lexer}
    {before parts after : List Piece} {opening closing : Piece}
    (h : Covers source l.run first (before ++ opening :: (parts ++ closing :: after)))
    (hopen : opening.step.1.token = .symbol .quote) (hs : InString opening.step.2)
    (hparts : ∀ p ∈ parts, p.step.1.token ≠ .symbol .quote)
    (hclose : closing.step.1.token = .symbol .quote) :
    source = (first ++ before.flatMap Piece.text) ++ '"' ::
      (parts.flatMap (fun p => p.step.1.text) ++ '"' ::
        (closing.gap ++ (after.flatMap Piece.text ++ l.run.last.rest))) := by
  have hsteps := h.steps
  simp only [List.map_append, List.map_cons] at hsteps
  have hquote : ∀ p ∈ [opening, closing], p.step.1.text = ['"'] := by
    intro p hp
    have hmem : p.step ∈ l.run.steps := by
      rw [← hsteps]
      rcases List.mem_pair.1 hp with rfl | rfl <;> simp
    have hdenotes := denotes_run l _ hmem
    have htoken : p.step.1.token = .symbol .quote := by
      rcases List.mem_pair.1 hp with rfl | rfl
      · exact hopen
      · exact hclose
    rw [htoken] at hdenotes
    exact symbol_text hdenotes
  -- The string is open behind its first quote and behind every part, so there are no gaps.
  obtain ⟨l', hmodes, hrun⟩ := exists_run_after hsteps.symm
  have hstring : ∀ p ∈ parts, InString p.step.2 := by
    intro p hp
    exact inString_of_run hrun (hmodes ▸ hs) (List.forall_mem_map.2 hparts) p.step
      (List.mem_map_of_mem hp)
  have hgap : opening.gap = [] := h.inString opening (by simp) hs
  have hgaps : parts.flatMap Piece.text = parts.flatMap fun p => p.step.1.text := by
    refine List.flatMap_congr fun p hp => ?_
    rw [Piece.text, h.inString p (by simp [hp]) (hstring p hp), List.append_nil]
  obtain ⟨hopening, hclosing⟩ : opening.step.1.text = ['"'] ∧ closing.step.1.text = ['"'] :=
    ⟨hquote opening (by simp), hquote closing (by simp)⟩
  rw [h.text]
  simp [hgaps, Piece.text, hopening, hclosing, hgap]

/-- **Nothing but trivia is dropped.** Every text is the texts of its tokens with gaps of trivia
around them, up to its end if it has tokens, and else up to where no token can be read. Each token
is the one that its text denotes, and the only one of its class. Between the quotes of a string
stand the texts of its parts. -/
theorem text_divided_into_tokens :
    (∀ source : String, ∃ first pieces,
      Covers source.toList (ofText source.toList).run first pieces ∧
        (∀ p ∈ pieces, Denotes p.step.1.token p.step.1.text) ∧
        (∀ ts, tokenize source = .ok ts →
          pieces.map (fun p => p.step.1.token) = ts ∧
            (ofText source.toList).run.last.rest = []) ∧
        (∀ e, tokenize source = .error e →
          read (ofText source.toList).run.last.modes (ofText source.toList).run.last.rest =
            .error e) ∧
        ∀ (before : List Piece) (opening : Piece) (parts : List Piece) (closing : Piece)
          (after : List Piece), pieces = before ++ opening :: (parts ++ closing :: after) →
            opening.step.1.token = .symbol .quote → InString opening.step.2 →
            (∀ p ∈ parts, p.step.1.token ≠ .symbol .quote) →
            closing.step.1.token = .symbol .quote →
            source.toList = (first ++ before.flatMap Piece.text) ++ '"' ::
              (parts.flatMap (fun p => p.step.1.text) ++ '"' ::
                (closing.gap ++
                  (after.flatMap Piece.text ++ (ofText source.toList).run.last.rest)))) ∧
    ∀ (t t' : Token) (text : List Char), Denotes t text → Denotes t' text →
      t.label = t'.label → t = t' := by
  refine ⟨fun source => ?_, fun t t' text => Denotes.eq_of_label⟩
  obtain ⟨first, pieces, hcovers, -⟩ := covers_run (ofText source.toList)
  obtain ⟨hend, hfail⟩ := run_last (ofText source.toList)
  refine ⟨first, pieces, hcovers, ?_, fun ts hts => ?_, fun e he => ?_, ?_⟩
  · have hdenotes := denotes_run (ofText source.toList)
    rw [← hcovers.steps] at hdenotes
    exact List.forall_mem_map.1 hdenotes
  · obtain ⟨herror, htokens⟩ := tokenize_eq_ok_iff.1 hts
    rw [← hcovers.steps, List.map_map] at htokens
    exact ⟨htokens, hend herror⟩
  · refine hfail e ?_
    unfold tokenize Run.tokens at he
    split at he
    · rename_i herror
      cases he
      exact herror
    · cases he
  · rintro before opening parts closing after rfl hopen hs hparts hclose
    exact hcovers.string hopen hs hparts hclose

end ConfigLang.Lexer
