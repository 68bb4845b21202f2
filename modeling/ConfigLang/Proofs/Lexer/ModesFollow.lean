import Mathlib.Tactic.FinCases
import ConfigLang.Compilation
import ConfigLang.Proofs.Document.ReaderExact
import ConfigLang.Proofs.Lexer.Scanning

/-!
# The modes of a lexer follow the document

A lexer knows nothing of documents: it moves a stack of modes by tables. As long as its tokens can
start a document, the stack is the list of the constructs that the document has open.

* `moveOn_of_read`: the mode and the token that was read determine the move.
* `extend_moveOn`: where a draft is continued by a token, the move of its mode on that token leads
  to the modes of the new draft. This is the one place where the tables meet the grammar.
* `modes_follow_document`: the statement for whole runs.
-/

namespace ConfigLang

namespace Lexer

/-! ## Moves -/

/-- Whether a token is of the class that a pattern looks for. -/
def Pattern.makes : Pattern → Token → Bool
  | .symbol s, .symbol s' => decide (s = s')
  | .input, .input _ | .quotedSegment, .segment _ | .segment, .segment _ | .float, .float _
  | .hexInteger, .integer _ | .integer, .integer _ | .escape, .escape _
  | .characters, .characters _ => true
  | _, _ => false

/-- A pattern reads tokens of its class only. -/
theorem makes_of_scan {p : Pattern} {cs : List Char} {lexeme : Lexeme}
    (h : p.scan cs = .ok (some lexeme)) : p.makes lexeme.token := by
  cases p with
  | symbol s =>
    obtain ⟨rest, -, rfl⟩ := scanSymbol_eq_some_iff.1 (Except.ok.inj h)
    simp [Pattern.makes]
  | input =>
    obtain ⟨text, rest, -, -, -, rfl⟩ := scanInput_eq_some_iff.1 (Except.ok.inj h)
    rfl
  | quotedSegment =>
    obtain ⟨body, rest, -, -, rfl⟩ := scanQuotedSegment_eq_ok_iff.1 h
    rfl
  | segment =>
    obtain ⟨text, rest, -, -, -, -, rfl⟩ := scanSegment_eq_some_iff.1 (Except.ok.inj h)
    rfl
  | float =>
    obtain ⟨sign, whole, fraction, exponent, rest, -, -, -, -, -, -, -, rfl⟩ :=
      scanFloat_eq_ok_iff.1 h
    rfl
  | hexInteger =>
    obtain ⟨digits, rest, -, -, -, -, -, rfl⟩ := scanHexInteger_eq_ok_iff.1 h
    rfl
  | integer =>
    obtain ⟨sign, digits, rest, -, -, -, -, -, rfl⟩ := scanInteger_eq_ok_iff.1 h
    rfl
  | escape =>
    obtain ⟨digits, c, rest, -, -, -, rfl⟩ | ⟨c, e, rest, -, -, rfl⟩ := scanEscape_eq_ok_iff.1 h
    · rfl
    · rfl
  | characters =>
    obtain ⟨text, rest, -, -, -, -, rfl⟩ := scanCharacters_eq_some_iff.1 (Except.ok.inj h)
    rfl

/-- What is read is read by the first rule that does not decline. -/
theorem rule_of_firstMatch {rules : List Rule} {cs : List Char} {lexeme : Lexeme} {move : Move}
    (h : firstMatch rules cs = .ok (some (lexeme, move))) :
    ∃ before rule after, rules = before ++ rule :: after ∧
      (∀ r ∈ before, r.pattern.scan cs = .ok none) ∧ rule.pattern.scan cs = .ok (some lexeme) ∧
      rule.move = move := by
  induction rules with
  | nil => cases h
  | cons rule rules ih =>
    rw [firstMatch] at h
    split at h
    · cases h
    · rename_i lexeme' hscan
      cases h
      exact ⟨[], rule, rules, rfl, by simp, hscan, rfl⟩
    · rename_i hnone
      obtain ⟨before, rule', after, rfl, hbefore, hscan, hmove⟩ := ih h
      refine ⟨rule :: before, rule', after, rfl, ?_, hscan, hmove⟩
      intro r hr
      rcases List.mem_cons.1 hr with rfl | hr
      · exact hnone
      · exact hbefore r hr

/-- What is read is read in the innermost mode, from a text that is not empty. -/
theorem read_eq_ok_some {modes : List Mode} {cs : List Char} {lexeme : Lexeme} {move : Move}
    (h : read modes cs = .ok (some (lexeme, move))) :
    ∃ mode outer, modes = mode :: outer ∧ firstMatch mode.rules cs = .ok (some (lexeme, move)) := by
  fun_cases read modes cs <;> simp_all [read]

/-- What a token does to the modes when it is read in a mode. -/
def Mode.moveOn (mode : Mode) (t : Token) : Option Move :=
  (mode.rules.find? fun rule => rule.pattern.makes t).map Rule.move

/-- The rules of a mode that look for one class of tokens make the same move. -/
theorem moveOn_of_mem {mode : Mode} {rule : Rule} {t : Token} (hr : rule ∈ mode.rules)
    (ht : rule.pattern.makes t) : mode.moveOn t = some rule.move := by
  cases t with
  | symbol s =>
    -- No two rules of a mode look for the same symbol and make different moves.
    revert rule
    cases mode <;> cases s <;> decide
  | _ =>
    cases mode <;> fin_cases hr <;> first | rfl | cases ht

/-- The mode and the token that was read determine the move. -/
theorem moveOn_of_firstMatch {mode : Mode} {cs : List Char} {lexeme : Lexeme} {move : Move}
    (h : firstMatch mode.rules cs = .ok (some (lexeme, move))) :
    mode.moveOn lexeme.token = some move := by
  obtain ⟨before, rule, after, hrules, -, hscan, rfl⟩ := rule_of_firstMatch h
  have hmem : rule ∈ mode.rules := by simp [hrules]
  exact moveOn_of_mem hmem (makes_of_scan hscan)

/-- The innermost mode and the token that was read determine the move. -/
theorem moveOn_of_read {modes : List Mode} {cs : List Char} {lexeme : Lexeme} {move : Move}
    (h : read modes cs = .ok (some (lexeme, move))) :
    ∃ mode outer, modes = mode :: outer ∧ mode.moveOn lexeme.token = some move := by
  obtain ⟨mode, outer, rfl, hfirst⟩ := read_eq_ok_some h
  exact ⟨mode, outer, rfl, moveOn_of_firstMatch hfirst⟩

end Lexer

/-! ## Moves and the grammar -/

open Lexer (Mode Move)

theorem owner_modes_eq (owner : Owner) :
    ∃ outer, owner.modes = .object :: outer ∧ ∀ done, (owner.close done).modes = outer := by
  cases owner with
  | body bindings => exact ⟨[.topLevel], rfl, fun _ => rfl⟩
  | expr place => exact ⟨place.modes, rfl, fun done => fill_modes place _⟩

/-- A token that is an expression by itself ends the wait for a value and stays in an array. -/
theorem moveOn_of_exprOfToken? {t : Token} {e : Expr} (h : Expr.ofToken? t = some e) :
    Mode.value.moveOn t = some .pop ∧ Mode.array.moveOn t = some .stay := by
  cases t with
  | symbol s => cases s <;> cases h <;> exact ⟨rfl, rfl⟩
  | float x => exact ⟨rfl, rfl⟩
  | integer n => exact ⟨rfl, rfl⟩
  | input name => exact ⟨rfl, rfl⟩
  | _ => cases h

/-- The first token of a value takes the place of the mode that awaits it. -/
theorem start_moveOn {place : Context} {t : Token} {d : Draft} (h : place.start t = some d) :
    ∃ move, Mode.value.moveOn t = some move ∧ move.apply (.value :: place.modes) = d.modes := by
  unfold Context.start at h
  split at h
  · cases h; exact ⟨.replace .string, rfl, rfl⟩
  · cases h; exact ⟨.replace .object, rfl, rfl⟩
  · cases h; exact ⟨.replace .array, rfl, rfl⟩
  · obtain ⟨e, he, rfl⟩ := Option.map_eq_some_iff.1 h
    refine ⟨.pop, ?_, (fill_modes place e).symm⟩
    exact moveOn_of_exprOfToken? he |>.1

/-- The first token of an item opens its construct inside the array. -/
theorem start_item_moveOn {place : Context} {done : List Item} {t : Token} {d : Draft}
    (h : (Context.item place done).start t = some d) :
    ∃ move, Mode.array.moveOn t = some move ∧ move.apply (.array :: place.modes) = d.modes := by
  unfold Context.start at h
  split at h
  · cases h; exact ⟨.push .string, rfl, rfl⟩
  · cases h; exact ⟨.push .object, rfl, rfl⟩
  · cases h; exact ⟨.push .array, rfl, rfl⟩
  · obtain ⟨e, he, rfl⟩ := Option.map_eq_some_iff.1 h
    refine ⟨.stay, ?_, (fill_modes (.item place done) e).symm⟩
    exact moveOn_of_exprOfToken? he |>.2

theorem part_moveOn {t : Token} {part : Part} (h : Part.ofToken? t = some part) :
    Mode.string.moveOn t = some .stay := by
  unfold Part.ofToken? at h
  split at h <;> cases h <;> rfl

/-- **Tables and grammar agree.** Where a draft goes on with a token, its innermost construct has a
move for that token, and the move leads to the constructs of the new draft. -/
theorem extend_moveOn {d d' : Draft} {t : Token} (h : d.extend t = some d') :
    ∃ mode outer move, d.modes = mode :: outer ∧ mode.moveOn t = some move ∧
      move.apply d.modes = d'.modes := by
  fun_cases Draft.extend d t <;> simp only [Draft.extend, Option.some.injEq, reduceCtorEq] at h
  -- The start of a document and the block of bindings.
  case case1 => subst h; exact ⟨.topLevel, [], .push .bindings, rfl, rfl, rfl⟩
  case case2 | case8 => subst h; exact ⟨.topLevel, [], .push .object, rfl, rfl, rfl⟩
  case case3 | case4 | case5 => subst h; exact ⟨.bindings, [.topLevel], .stay, rfl, rfl, rfl⟩
  case case6 => subst h; exact ⟨.bindings, [.topLevel], .push .value, rfl, rfl, rfl⟩
  case case7 => subst h; exact ⟨.bindings, [.topLevel], .pop, rfl, rfl, rfl⟩
  case case9 place =>
    obtain ⟨move, hmove, happly⟩ := start_moveOn h
    exact ⟨.value, place.modes, move, rfl, hmove, happly⟩
  -- Entries of an object.
  case case10 owner done =>
    obtain ⟨outer, howner, hclose⟩ := owner_modes_eq owner
    subst h
    exact ⟨.object, outer, .pop, howner, rfl, by rw [Draft.modes, howner, hclose]; rfl⟩
  case case11 owner done | case12 owner done _ | case13 owner done _ | case14 owner done _ |
      case16 owner done _ _ =>
    obtain ⟨outer, howner, -⟩ := owner_modes_eq owner
    subst h
    exact ⟨.object, outer, .stay, howner, rfl, rfl⟩
  case case15 owner done path =>
    obtain ⟨outer, howner, -⟩ := owner_modes_eq owner
    subst h
    exact ⟨.object, outer, .push .value, howner, rfl, by simp only [Draft.modes, entry_modes]; rfl⟩
  -- Items of an array.
  case case17 place done =>
    subst h
    exact ⟨.array, place.modes, .pop, rfl, rfl, (fill_modes place _).symm⟩
  case case18 place done | case20 place done _ =>
    subst h
    exact ⟨.array, place.modes, .stay, rfl, rfl, rfl⟩
  case case19 place done _ _ =>
    obtain ⟨move, hmove, happly⟩ := start_item_moveOn h
    exact ⟨.array, place.modes, move, rfl, hmove, happly⟩
  -- Pieces of a string.
  case case21 place done =>
    subst h
    exact ⟨.string, place.modes, .pop, rfl, rfl, (fill_modes place _).symm⟩
  case case22 place done _ =>
    obtain ⟨part, hpart, rfl⟩ := Option.map_eq_some_iff.1 h
    exact ⟨.string, place.modes, .stay, rfl, part_moveOn hpart, rfl⟩

/-! ## Runs -/

namespace Lexer

/-- A step that reads a token makes the move of the innermost mode on it. -/
theorem next_moveOn {l l' : Lexer} {lexeme : Lexeme} (h : l.next = (.ok (some lexeme), l')) :
    ∃ mode outer move, l.modes = mode :: outer ∧ mode.moveOn lexeme.token = some move ∧
      l'.modes = move.apply l.modes := by
  unfold next at h
  split at h
  · cases h
  · cases h
  · rename_i lexeme' move hread
    cases h
    obtain ⟨mode, outer, hmodes, hmove⟩ := moveOn_of_read hread
    exact ⟨mode, outer, move, hmodes, hmove, rfl⟩

/-- Where a lexer and a draft agree on the open constructs and go on with the same token, they
agree again. -/
theorem next_modes {l l' : Lexer} {lexeme : Lexeme} {d d' : Draft}
    (h : l.next = (.ok (some lexeme), l')) (hd : d.extend lexeme.token = some d')
    (hm : l.modes = d.modes) : l'.modes = d'.modes := by
  obtain ⟨mode, outer, move, hmodes, hmove, hl'⟩ := next_moveOn h
  obtain ⟨mode', outer', move', hmodes', hmove', hd'⟩ := extend_moveOn hd
  rw [hm, hmodes'] at hmodes
  cases hmodes
  rw [hmove] at hmove'
  cases hmove'
  rw [hl', hm, hd']

/-- A run is a step and the run of what is left, or ends at once. -/
theorem run_eq (l : Lexer) :
    l.run = match l.next with
      | (.ok (some lexeme), l') => { l'.run with steps := (lexeme, l'.modes) :: l'.run.steps }
      | (.ok none, l') => ⟨[], l', none⟩
      | (.error e, l') => ⟨[], l', some e⟩ := by
  rw [run]
  split <;> rename_i h <;> simp only [h]

/-- A step that reads no token moves past the trivia and nothing else. -/
theorem next_of_not_some {l l' : Lexer} {result : Except LexError (Option Lexeme)}
    (h : l.next = (result, l')) (hr : ∀ lexeme, result ≠ .ok (some lexeme)) :
    l' = ⟨l.ahead, l.modes⟩ := by
  unfold next at h
  split at h
  · cases h; rfl
  · cases h; rfl
  · cases h; exact absurd rfl (hr _)

/-- A run has no steps and keeps the modes, or has a step and goes on from there. -/
theorem run_cases (l : Lexer) :
    (l.run.steps = [] ∧ l.run.last.modes = l.modes) ∨
      ∃ lexeme l', l.next = (.ok (some lexeme), l') ∧
        l.run.steps = (lexeme, l'.modes) :: l'.run.steps ∧ l.run.last = l'.run.last := by
  rw [run_eq]
  split
  · rename_i lexeme l' h
    exact .inr ⟨lexeme, l', h, rfl, rfl⟩
  · rename_i l' h
    obtain rfl := next_of_not_some h (by simp)
    exact .inl ⟨rfl, rfl⟩
  · rename_i l' e h
    obtain rfl := next_of_not_some h (by simp)
    exact .inl ⟨rfl, rfl⟩

/-- As far as the tokens of a lexer are those of a run of drafts, so are the open constructs. -/
theorem run_follows {d d' : Draft} {steps : List (Token × List Mode)} (h : Draft.Traces d steps d')
    {l : Lexer} (hm : l.modes = d.modes) (k : Nat)
    (hk : (l.run.steps.take k).map (fun s => s.1.token) <+: steps.map Prod.fst) :
    (l.run.steps.take k).map (fun s => (s.1.token, s.2)) <+: steps := by
  induction h generalizing l k with
  | nil d =>
    have hnil : l.run.steps.take k = [] := by simpa using hk
    rw [hnil]
    exact List.prefix_rfl
  | @cons d d₁ d' t steps hd rest ih =>
    rcases l.run_cases with ⟨hsteps, -⟩ | ⟨lexeme, l', hnext, hsteps, -⟩
    · rw [hsteps, List.take_nil]
      exact List.nil_prefix
    · cases k with
      | zero => exact List.nil_prefix
      | succ k =>
        simp only [hsteps, List.take_succ_cons, List.map_cons, List.cons_prefix_cons] at hk ⊢
        obtain ⟨rfl, hk⟩ := hk
        have hm' : l'.modes = d₁.modes := next_modes hnext hd hm
        exact ⟨by rw [hm'], ih hm' k hk⟩

/-- A lexer stops with the constructs that were open after its last token. -/
theorem run_last_modes (l : Lexer) :
    l.run.last.modes = (l.run.steps.map Prod.snd).getLast?.getD l.modes := by
  fun_induction run l with
  | case1 l lexeme l' h _ rest ih =>
    rw [ih, List.map_cons, List.getLast?_cons, Option.getD_some]
  | case2 l l' h =>
    obtain rfl := next_of_not_some h (by simp)
    rfl
  | case3 l l' e h =>
    obtain rfl := next_of_not_some h (by simp)
    rfl

end Lexer

theorem tokenize_eq_ok_iff {source : String} {ts : List Token} :
    Lexer.tokenize source = .ok ts ↔
      (Lexer.ofText source.toList).run.error = none ∧
        (Lexer.ofText source.toList).run.steps.map (fun s => s.1.token) = ts := by
  unfold Lexer.tokenize Lexer.Run.tokens
  split <;> simp_all

/-- A text writes a document if it has the tokens of that document, within the nesting limit. -/
theorem documentOf_eq_ok_iff {source : String} {c : Document} :
    documentOf source = .ok c ↔ Lexer.tokenize source = .ok c.tokens ∧ c.depth ≤ nestingLimit := by
  unfold documentOf tokensOf
  cases Lexer.tokenize source with
  | error e => simp [Except.mapError, bind, Except.bind]
  | ok ts =>
    have h : Document.ofTokens ts = .ok c ↔ _ := ofTokens_eq_ok_iff
    cases hp : Document.ofTokens ts <;> simp_all [Except.mapError, bind, Except.bind]

theorem trace_getLast? (c : Document) :
    c.trace.getLast? = some (.symbol .braceClose, [.topLevel]) := by
  rw [Document.trace, Expr.trace, ← List.append_assoc, List.getLast?_concat]

/-- As long as the tokens read so far are the first tokens of a document, the modes after each of
them are the constructs that the document has open there. -/
theorem steps_prefix_trace {source : List Char} {c : Document} (k : Nat)
    (h : ((Lexer.ofText source).run.steps.take k).map (fun s => s.1.token) <+: c.tokens) :
    ((Lexer.ofText source).run.steps.take k).map (fun s => (s.1.token, s.2)) <+: c.trace := by
  rw [← c.trace_map_fst] at h
  exact Lexer.run_follows (traces_document c) rfl k h

/-- The steps of a lexer that reads a document are its trace. -/
theorem steps_eq_trace {source : List Char} {c : Document}
    (h : (Lexer.ofText source).run.steps.map (fun s => s.1.token) = c.tokens) :
    (Lexer.ofText source).run.steps.map (fun s => (s.1.token, s.2)) = c.trace := by
  have hall : ((Lexer.ofText source).run.steps.take (Lexer.ofText source).run.steps.length).map
      (fun s => s.1.token) <+: c.tokens := by
    simp [h]
  have hp := steps_prefix_trace _ hall
  rw [List.take_length] at hp
  refine hp.eq_of_length ?_
  have hlen := congrArg List.length h
  rw [← c.trace_map_fst] at hlen
  simpa using hlen

/-- **The modes follow the document.** As long as the tokens read so far are the first tokens of
some document, the modes after each of them are the constructs that this document has open there.
A lexer that has read a document is back at the top level. -/
theorem modes_follow_document :
    (∀ (source : String) (k : Nat) (c : Document),
      ((Lexer.ofText source.toList).run.steps.take k).map (fun s => s.1.token) <+: c.tokens →
        ((Lexer.ofText source.toList).run.steps.take k).map (fun s => (s.1.token, s.2)) <+:
          c.trace) ∧
    ∀ (source : String) (c : Document), documentOf source = .ok c →
      (Lexer.ofText source.toList).run.last.modes = [.topLevel] := by
  refine ⟨fun source k c h => steps_prefix_trace k h, fun source c h => ?_⟩
  obtain ⟨htokens, -⟩ := documentOf_eq_ok_iff.1 h
  obtain ⟨-, htokens⟩ := tokenize_eq_ok_iff.1 htokens
  have hmodes : (Lexer.ofText source.toList).run.steps.map Prod.snd = c.trace.map Prod.snd := by
    rw [← steps_eq_trace htokens, List.map_map]
    rfl
  rw [Lexer.run_last_modes, hmodes, List.getLast?_map, trace_getLast?]
  rfl

end ConfigLang
