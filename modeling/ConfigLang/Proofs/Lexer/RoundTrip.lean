import ConfigLang.Proofs.Lexer.Spelling
import ConfigLang.Proofs.Lexer.Trivia

/-!
# Written documents are read back

A lexer that stands before the text of a document reads its tokens and nothing else, and so the
document is read back from every text that it can be written as.

* `follows_of_inString`, `follows_of_between`: the text behind a token does not go on with it.
* `Delimited`: texts in which this holds of every token, however they came about.
* `run_of_delimited`: a lexer in step with a draft reads what leads to the complete document.
* `documentOf_of_isWrittenAs`: the statement for whole documents.
-/

namespace ConfigLang

open Lexer

/-! ## White space before a token -/

theorem IsGap.isTrivia {gap : List Char} (h : IsGap gap) : IsTrivia gap := by
  induction gap with
  | nil => exact .nil
  | cons c gap ih =>
    obtain ⟨hc, hgap⟩ := List.forall_mem_cons.1 h
    exact .blank hc (ih hgap)

theorem skipTrivia_of_head {cs : List Char}
    (h : cs.head?.all (fun c => !Text.isBlank c && c != '/') = true) : skipTrivia cs = cs := by
  refine skipTrivia_eq_self_iff.2 ⟨fun c hc => ?_, ?_⟩
  · rw [Option.mem_def.1 hc] at h
    simp only [Option.all_some, Bool.and_eq_true, Bool.not_eq_true'] at h
    exact h.1
  · rintro ⟨rest, rfl⟩
    cases h

theorem skipTrivia_bare {text rest : List Char} (h : IsBareSegment text) (hf : Ends rest) :
    skipTrivia (text ++ rest) = text ++ rest := by
  obtain ⟨hne, hchars, -, hcomment, -⟩ := h
  cases text with
  | nil => exact absurd rfl hne
  | cons c text =>
    refine skipTrivia_eq_self_iff.2 ⟨?_, ?_⟩
    · have hc := hchars c List.mem_cons_self
      simp only [isSegmentChar, Bool.and_eq_true, Bool.not_eq_true'] at hc
      simpa using hc.1.1
    · rintro ⟨tail, htail⟩
      cases text with
      | nil =>
        -- The second slash would be white space.
        simp only [List.cons_append, List.nil_append, List.cons.injEq] at htail
        obtain ⟨-, rfl⟩ := htail
        exact absurd (hf '/' rfl) (by decide)
      | cons d text =>
        simp only [List.cons_append, List.nil_append, List.cons.injEq] at htail
        obtain ⟨rfl, rfl, -⟩ := htail
        exact hcomment ⟨text, rfl⟩

/-- No token outside strings starts with white space or as a comment does. -/
theorem skipTrivia_spelling {t : Token} {text rest : List Char} (hs : Spells t text)
    (ht : t.Lexable) (hfree : t.IsFree) (hf : Follows t text rest) :
    skipTrivia (text ++ rest) = text ++ rest := by
  have hnumber {sign digits : List Char} (hs : IsSign sign) (hd : IsDigits digits)
      (rest : List Char) : skipTrivia (sign ++ digits ++ rest) = sign ++ digits ++ rest := by
    obtain ⟨c, text, htext, hc⟩ := number_start hs hd
    rw [htext]
    refine skipTrivia_of_head ?_
    rcases hc with rfl | hc
    · rfl
    · have hne : c ≠ '/' := by
        rintro rfl
        cases hc
      simp [isBlank_of_isDigit hc, hne]
  cases hs with
  | symbol s =>
    refine skipTrivia_of_head ?_
    rw [List.head?_append_of_ne_nil _ (text_ne_nil s)]
    cases s <;> decide
  | quoted h => exact skipTrivia_of_head rfl
  | bare h => exact skipTrivia_bare h (hf h.head_ne_quote)
  | integer hs hd hn => exact hnumber hs hd rest
  | float hs hw hfr he hx =>
    simp only [List.append_assoc]
    rw [← List.append_assoc]
    exact hnumber hs hw _
  | escape h => exact skipTrivia_of_head rfl
  | codePoint hlen h => exact skipTrivia_of_head rfl
  | characters text => exact hfree.elim
  | input name =>
    obtain ⟨c, cs, htext, -⟩ := isName_iff.1 ht
    rw [htext]
    exact skipTrivia_of_head rfl

/-! ## Drafts in strings -/

theorem not_inString_owner (owner : Owner) : ¬ InString owner.modes := by
  cases owner <;> simp [InString, Owner.modes]

theorem inString_iff {d : Draft} : InString d.modes ↔ ∃ place done, d = .parts place done := by
  constructor
  · intro h
    cases d with
    | parts place done => exact ⟨place, done, rfl⟩
    | entries owner done | entrySpread owner done => exact (not_inString_owner owner h).elim
    | key owner done path | keyDot owner done path => exact (not_inString_owner owner h).elim
    | _ => simp [InString, Draft.modes] at h
  · rintro ⟨place, done, rfl⟩
    rfl

theorem fill_ne_parts (outer : Context) (e : Expr) (place : Context) (done : List Part) :
    outer.fill e ≠ .parts place done := by
  cases outer <;> simp [Context.fill]

theorem start_eq_parts {outer place : Context} {done : List Part} {t : Token}
    (h : outer.start t = some (.parts place done)) : t = .symbol .quote := by
  unfold Context.start at h
  split at h
  · rfl
  · cases h
  · cases h
  · obtain ⟨e, -, he⟩ := Option.map_eq_some_iff.1 h
    exact (fill_ne_parts outer e place done he).elim

/-- A token after which a string goes on starts the string or is a piece of it. -/
theorem extend_eq_parts {d : Draft} {place : Context} {done : List Part} {t : Token}
    (h : d.extend t = some (.parts place done)) :
    t = .symbol .quote ∨ ∃ part, Part.ofToken? t = some part := by
  fun_cases Draft.extend d t <;> simp only [Draft.extend, Option.some.injEq, reduceCtorEq] at h
  case case9 outer => exact .inl (start_eq_parts h)
  case case10 owner entries =>
    cases owner with
    | body bindings => cases h
    | expr outer => exact (fill_ne_parts _ _ _ _ h).elim
  case case17 outer items => exact (fill_ne_parts _ _ _ _ h).elim
  case case19 outer items _ _ => exact .inl (start_eq_parts h)
  case case21 => exact .inl rfl
  case case22 outer parts _ =>
    obtain ⟨part, hpart, -⟩ := Option.map_eq_some_iff.1 h
    exact .inr ⟨part, hpart⟩

theorem extend_characters {d d' : Draft} {text : String}
    (h : d.extend (.characters text) = some d') : InString d'.modes := by
  cases d with
  | parts place done => cases h; rfl
  | _ => cases h

theorem isFree_of_extend {d d' : Draft} {t : Token} (h : d.extend t = some d')
    (hs : ¬ InString d.modes) : t.IsFree := by
  cases t with
  | characters text =>
    cases d with
    | parts place done => exact hs rfl
    | _ => cases h
  | _ => trivial

/-! ## What follows -/

theorem writes_nil {text : List Char} (h : Writes [] text) : text = [] := by
  cases h
  rfl

theorem writes_cons {t : Token} {modes : List Mode} {steps : List (Token × List Mode)}
    {cs : List Char} (h : Writes ((t, modes) :: steps) cs) :
    ∃ text gap rest, cs = text ++ (gap ++ rest) ∧ Spells t text ∧ Writes steps rest ∧
      (InString modes → gap = []) ∧ (¬ InString modes → IsGap gap ∧ (gap = [] → steps = [])) := by
  cases h with
  | inString h hm hr =>
    exact ⟨_, [], _, rfl, h, hr, fun _ => rfl, fun hn => (hn hm).elim⟩
  | between h hm hg hne hr =>
    exact ⟨_, _, _, rfl, h, hr, fun hs => (hm hs).elim, fun _ => ⟨hg, hne⟩⟩

/-- Inside a string, what is not a run of characters starts with a character that has a meaning of
its own. -/
theorem piece_start {place : Context} {done : List Part} {d : Draft} {t : Token} {text : List Char}
    (h : (Draft.parts place done).extend t = some d) (hlex : t.Lexable) (htext : Spells t text) :
    (∃ s, t = .characters s ∧ text = s.toList) ∨
      ∃ c cs, text = c :: cs ∧ isPlainChar c = false ∧ isNameChar c = false := by
  have hbackslash : isPlainChar '\\' = false ∧ isNameChar '\\' = false := by decide
  have hquote : isPlainChar '"' = false ∧ isNameChar '"' = false := by decide
  have hdollar : isPlainChar '$' = false ∧ isNameChar '$' = false := by decide
  cases htext with
  | symbol s =>
    cases s with
    | quote => exact .inr ⟨'"', [], rfl, hquote⟩
    | _ => cases h
  | escape he => exact .inr ⟨_, _, rfl, hbackslash⟩
  | codePoint hlen hc => exact .inr ⟨_, _, rfl, hbackslash⟩
  | characters s => exact .inl ⟨s, rfl, rfl⟩
  | input name =>
    obtain ⟨c, cs, htext, -⟩ := isName_iff.1 hlex
    exact .inr ⟨_, _, htext, hdollar⟩
  | _ => cases h

/-- Inside a string, characters and names end where the next piece starts. -/
theorem follows_of_inString {d d' d'' : Draft} {t t' : Token} {own text rest : List Char}
    (ht : d.extend t = some d') (hs : InString d'.modes) (ht' : d'.extend t' = some d'')
    (hlex : t'.Lexable) (hpre : t.MayPrecede t') (htext : Spells t' text) :
    Follows t own (text ++ rest) := by
  obtain ⟨place, done, rfl⟩ := inString_iff.1 hs
  have hstart := piece_start ht' hlex htext
  rcases extend_eq_parts ht with rfl | ⟨part, hpart⟩
  · exact fun h => by cases h
  · cases t with
    | characters s =>
      rcases hstart with ⟨s', rfl, -⟩ | ⟨c, cs, rfl, hplain, -⟩
      · exact hpre.elim
      · exact stops_cons.2 hplain
    | input name =>
      rcases hstart with ⟨s', rfl, rfl⟩ | ⟨c, cs, rfl, -, hname⟩
      · intro c hc
        rw [List.head?_append_of_ne_nil _ hlex.1] at hc
        exact hpre c hc
      · exact stops_cons.2 hname
    | escape c => trivial
    | _ => cases hpart

/-- Outside strings the white space ends a token. -/
theorem follows_of_between {d d' : Draft} {t : Token} {own rest : List Char}
    (ht : d.extend t = some d') (hs : ¬ InString d'.modes) (hrest : Ends rest) :
    Follows t own rest := by
  cases t with
  | characters text => exact (hs (extend_characters ht)).elim
  | input name => exact hrest.stops_name
  | escape c => trivial
  | symbol s => exact fun _ => hrest
  | segment s => exact fun _ => hrest
  | integer n | float x => exact hrest.closes

theorem ends_append {gap rest : List Char} (hg : IsGap gap) (hne : gap = [] → rest = []) :
    Ends (gap ++ rest) := by
  cases gap with
  | nil =>
    rw [hne rfl]
    intro c hc
    cases hc
  | cons c gap =>
    intro c' hc'
    cases hc'
    exact hg c List.mem_cons_self

/-- The text behind a token of a document does not go on with it. -/
theorem follows_of_writes {d d' : Draft} {c : Document} {t : Token} {own gap rest : List Char}
    {steps : List (Token × List Mode)} (ht : d.extend t = some d')
    (htraces : Draft.Traces d' steps (.complete c)) (hfits : Fits (t :: steps.map Prod.fst))
    (hw : Writes steps rest) (hin : InString d'.modes → gap = [])
    (hout : ¬ InString d'.modes → IsGap gap ∧ (gap = [] → steps = [])) :
    Follows t own (gap ++ rest) := by
  by_cases hs : InString d'.modes
  · rw [hin hs, List.nil_append]
    cases htraces with
    | nil => cases hs
    | @cons _ d'' _ t' steps ht' _ =>
      obtain ⟨text, gap', rest', rfl, htext, -, -, -⟩ := writes_cons hw
      obtain ⟨hlex, hchain⟩ := hfits
      have hpre : t.MayPrecede t' := (List.isChain_cons_cons.1 hchain).1
      exact follows_of_inString ht hs ht' (hlex t' (by simp)) hpre htext
  · obtain ⟨hg, hne⟩ := hout hs
    refine follows_of_between ht hs (ends_append hg fun hgap => ?_)
    rw [hne hgap] at hw
    exact writes_nil hw

/-- Texts of tokens with the constructs open after them, where no text goes on with the token before
it. White space stands between tokens at will, but not in strings. -/
inductive Delimited : List (Token × List Mode) → List Char → Prop
  | nil : Delimited [] []
  | cons {t : Token} {modes : List Mode} {steps : List (Token × List Mode)}
      {text gap rest : List Char} (hs : Spells t text) (ht : t.Lexable)
      (hf : Follows t text (gap ++ rest)) (hin : InString modes → gap = [])
      (hout : ¬ InString modes → IsGap gap) (hr : Delimited steps rest) :
      Delimited ((t, modes) :: steps) (text ++ (gap ++ rest))

theorem delimited_of_writes {d : Draft} {c : Document} {steps : List (Token × List Mode)}
    (h : Draft.Traces d steps (.complete c)) {text : List Char}
    (hfits : Fits (steps.map Prod.fst)) (hw : Writes steps text) : Delimited steps text := by
  generalize hfinal : Draft.complete c = final at h
  induction h generalizing text with
  | nil d =>
    obtain rfl := writes_nil hw
    exact .nil
  | @cons d d' final t steps ht hrest ih =>
    subst hfinal
    obtain ⟨text, gap, rest, rfl, htext, hwrest, hin, hout⟩ := writes_cons hw
    have hfits' : Fits (steps.map Prod.fst) :=
      ⟨fun t' ht' => hfits.1 t' (List.mem_cons_of_mem _ ht'), hfits.2.tail⟩
    exact .cons htext (hfits.1 t (by simp)) (follows_of_writes ht hrest hfits hwrest hin hout) hin
      (fun hs => (hout hs).1) (ih hfits' hwrest rfl)

/-! ## Runs -/

namespace Lexer

theorem ahead_of_gap {modes : List Mode} {gap text rest : List Char} {t : Token}
    (hin : InString modes → gap = []) (hout : ¬ InString modes → IsGap gap ∧ t.IsFree)
    (hs : Spells t text) (ht : t.Lexable) (hf : Follows t text rest) :
    ahead ⟨gap ++ (text ++ rest), modes⟩ = text ++ rest := by
  unfold ahead
  by_cases h : InString modes
  · rw [hin h]
    exact if_pos h
  · obtain ⟨hg, hfree⟩ := hout h
    refine (if_neg h).trans ?_
    rw [skipTrivia_append hg.isTrivia, skipTrivia_spelling hs ht hfree hf]

theorem next_of_read {l : Lexer} {t : Token} {text rest : List Char} {move : Move}
    (hahead : l.ahead = text ++ rest)
    (hread : read l.modes (text ++ rest) = .ok (some (⟨t, text⟩, move))) :
    l.next = (.ok (some ⟨t, text⟩), ⟨rest, move.apply l.modes⟩) := by
  unfold next
  rw [hahead, hread]
  dsimp only
  rw [List.drop_left]

/-- A step reads the token that was written and stops behind it. -/
theorem next_of_spelling {d d' : Draft} {t : Token} {gap text rest : List Char}
    (ht : d.extend t = some d') (hlex : t.Lexable) (hs : Spells t text) (hf : Follows t text rest)
    (hgap : (InString d.modes → gap = []) ∧ (¬ InString d.modes → IsGap gap)) :
    next ⟨gap ++ (text ++ rest), d.modes⟩ = (.ok (some ⟨t, text⟩), ⟨rest, d'.modes⟩) := by
  have hahead : ahead ⟨gap ++ (text ++ rest), d.modes⟩ = text ++ rest :=
    ahead_of_gap hgap.1 (fun h => ⟨hgap.2 h, isFree_of_extend ht h⟩) hs hlex hf
  obtain ⟨mode, outer, move, hmodes, hmove, happly⟩ := extend_moveOn ht
  have hread : read d.modes (text ++ rest) = .ok (some (⟨t, text⟩, move)) := by
    rw [hmodes]
    exact read_spelling hs hlex hmove hf
  have hnext := next_of_read hahead hread
  rw [happly] at hnext
  exact hnext

/-- A lexer in step with a draft reads the tokens that lead to the complete document. -/
theorem run_of_delimited {d : Draft} {c : Document} {steps : List (Token × List Mode)}
    (h : Draft.Traces d steps (.complete c)) {gap text : List Char} (hd : Delimited steps text)
    (hgap : (InString d.modes → gap = []) ∧ (¬ InString d.modes → IsGap gap)) :
    (run ⟨gap ++ text, d.modes⟩).error = none ∧
      (run ⟨gap ++ text, d.modes⟩).steps.map (fun s => s.1.token) = steps.map Prod.fst := by
  generalize hfinal : Draft.complete c = final at h
  induction h generalizing gap text with
  | nil d =>
    subst hfinal
    cases hd
    have hg : IsGap gap := hgap.2 (by simp [InString, Draft.modes])
    have hahead : ahead ⟨gap ++ [], (Draft.complete c).modes⟩ = [] :=
      skipTrivia_append hg.isTrivia []
    have hnext : next ⟨gap ++ [], (Draft.complete c).modes⟩ =
        (.ok none, ⟨[], (Draft.complete c).modes⟩) := by
      unfold next
      rw [hahead]
      rfl
    rw [run_eq, hnext]
    exact ⟨rfl, rfl⟩
  | @cons d d' final t steps ht hrest ih =>
    subst hfinal
    cases hd with
    | cons htext hlex hf hin hout hdrest =>
      have hnext := next_of_spelling ht hlex htext hf hgap
      obtain ⟨herror, hsteps⟩ := ih hdrest ⟨hin, hout⟩ rfl
      rw [run_eq, hnext]
      refine ⟨herror, ?_⟩
      rw [List.map_cons, List.map_cons, hsteps]

end Lexer

/-- A document within the nesting limit is read back from texts that keep its tokens apart. -/
theorem documentOf_of_delimited {c : Document} {gap text : List Char} (hg : IsGap gap)
    (hd : Delimited c.trace text) (hdepth : c.depth ≤ nestingLimit) :
    documentOf (String.ofList (gap ++ text)) = .ok c := by
  have hout : ¬ InString Draft.start.modes := by simp [InString, Draft.modes]
  have hrun := Lexer.run_of_delimited (traces_document c) hd
    ⟨fun h => (hout h).elim, fun _ => hg⟩
  rw [c.trace_map_fst] at hrun
  refine documentOf_eq_ok_iff.2 ⟨tokenize_eq_ok_iff.2 ?_, hdepth⟩
  rw [String.toList_ofList]
  exact hrun

/-- **A document is read back from every text that it can be written as.** -/
theorem documentOf_of_isWrittenAs {c : Document} {text : List Char} (hc : c.Lexable)
    (h : c.IsWrittenAs text) : documentOf (String.ofList text) = .ok c := by
  obtain ⟨gap, rest, rfl, hg, hw⟩ := h
  obtain ⟨hfits, hdepth⟩ := (lexable_iff_fits c).1 hc
  rw [← c.trace_map_fst] at hfits
  exact documentOf_of_delimited hg (delimited_of_writes (traces_document c) hfits hw) hdepth

end ConfigLang
