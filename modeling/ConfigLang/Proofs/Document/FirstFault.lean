import ConfigLang.Proofs.Document.Viability

/-!
# Errors stand at the first fault

Where tokens are no document, the error is about the first of them that no document has there: the
tokens before it begin a document, and with it they no longer do, whatever follows.

* `Draft.Refuses`: why a draft does not go on, read off the grammar and not off the reader.
* `ofTokens_eq_error_iff`: the reader reports what the first draft that does not go on refuses.
* `expected_possible`: what a message offers as an alternative is one.
* `leavesOpen_iff`, `opensLevel_iff`: how many objects and arrays tokens leave open, and the level
  that a bracket opens, are the nesting of a draft.
* `error_at_first_fault`: the statement for whole sequences of tokens.
-/

namespace ConfigLang

open Lexer (Mode)

/-! ## Levels -/

/-- Whether a construct counts towards the nesting limit. -/
def Lexer.Mode.nests : Mode → Bool
  | .object | .array => true
  | .topLevel | .bindings | .value | .string => false

/-- After the tokens `before` the bracket `t` opens an object or array, in documents of any depth,
and with it `level` of them are open. -/
def OpensLevel (level : Nat) (before : List Token) (t : Token) : Prop :=
  (t = .symbol .braceOpen ∨ t = .symbol .bracketOpen) ∧
    ∃ (c : Document) (start : List (Token × List Mode)) (modes : List Mode),
      start.map Prod.fst = before ∧ start ++ [(t, modes)] <+: c.trace ∧
        modes.countP Mode.nests = level

/-- After the tokens `before`, documents of any depth have `n` objects and arrays open. -/
def LeavesOpen (before : List Token) (n : Nat) : Prop :=
  ∃ (c : Document) (steps : List (Token × List Mode)), steps <+: c.trace ∧
    steps.map Prod.fst = before ∧
      ((steps.map Prod.snd).getLast?.getD [.topLevel]).countP Mode.nests = n

theorem Context.depth_eq (place : Context) : place.depth = place.modes.countP Mode.nests := by
  induction place with
  | binding | bodyEntry => rfl
  | entry outer _ _ ih | item outer _ ih =>
    rw [Context.depth, ih, Context.modes, List.countP_cons]
    rfl

theorem Owner.depth_eq (owner : Owner) : owner.depth = owner.modes.countP Mode.nests := by
  cases owner with
  | body => rfl
  | expr outer =>
    rw [Owner.depth, outer.depth_eq, Owner.modes, List.countP_cons]
    rfl

/-- The nesting of a draft is the number of objects and arrays among its open constructs. -/
theorem Draft.depth_eq (d : Draft) : d.depth = d.modes.countP Mode.nests := by
  cases d with
  | value place | parts place =>
    rw [Draft.depth, place.depth_eq, Draft.modes, List.countP_cons]
    rfl
  | entries owner | entrySpread owner | key owner | keyDot owner => exact owner.depth_eq
  | items place | itemSpread place =>
    rw [Draft.depth, place.depth_eq, Draft.modes, List.countP_cons]
    rfl
  | _ => rfl

theorem start_depth {place : Context} {t : Token} {d : Draft} (h : place.start t = some d) :
    d.depth ≤ place.depth ∨ d.depth = place.depth + 1 ∧
      (t = .symbol .braceOpen ∨ t = .symbol .bracketOpen) := by
  unfold Context.start at h
  split at h
  · cases h; exact .inl (Nat.le_refl _)
  · cases h; exact .inr ⟨rfl, .inl rfl⟩
  · cases h; exact .inr ⟨rfl, .inr rfl⟩
  · obtain ⟨e, -, rfl⟩ := Option.map_eq_some_iff.1 h
    exact .inl (Nat.le_of_eq (fill_depth place e))

/-- Only brackets nest deeper, and only by one. -/
theorem extend_depth {d d' : Draft} {t : Token} (h : d.extend t = some d') :
    d'.depth ≤ d.depth ∨ d'.depth = d.depth + 1 ∧
      (t = .symbol .braceOpen ∨ t = .symbol .bracketOpen) := by
  fun_cases Draft.extend d t <;> simp only [Draft.extend, Option.some.injEq, reduceCtorEq] at h
  case case9 place => exact start_depth h
  case case10 owner done => subst h; exact .inl (close_depth_le owner done)
  case case15 owner done path =>
    subst h
    cases owner <;> exact .inl (Nat.le_refl _)
  case case17 place done =>
    subst h
    exact .inl (Nat.le_trans (Nat.le_of_eq (fill_depth place _)) (Nat.le_succ _))
  case case19 place done _ _ => exact start_depth h
  case case21 place done => subst h; exact .inl (Nat.le_of_eq (fill_depth place _))
  case case22 place done _ =>
    obtain ⟨part, -, rfl⟩ := Option.map_eq_some_iff.1 h
    exact .inl (Nat.le_refl _)
  all_goals subst h
  case case2 | case8 => exact .inr ⟨rfl, .inl rfl⟩
  all_goals exact .inl (Nat.le_refl _)

/-- The number of objects and arrays that tokens leave open is the nesting of their draft. -/
theorem leavesOpen_iff {before : List Token} {n : Nat} :
    LeavesOpen before n ↔ ∃ d, Draft.start.extendAll before = some d ∧ d.depth = n := by
  constructor
  · rintro ⟨c, steps, ⟨rest, hrest⟩, rfl, rfl⟩
    have htraces := traces_document c
    rw [← hrest] at htraces
    obtain ⟨d, hsteps, -⟩ := htraces.split
    refine ⟨d, hsteps.extendAll, ?_⟩
    rw [d.depth_eq, ← hsteps.last_modes]
    rfl
  · rintro ⟨d, hd, rfl⟩
    -- Some document has these tokens; its trace says what is open after them.
    obtain ⟨rest, c, hrest, -⟩ := d.completable
    have htokens : before ++ rest = c.trace.map Prod.fst := by
      rw [c.trace_map_fst, ← extendAll_start_iff, extendAll_append, hd]
      exact hrest
    obtain ⟨steps, rest', htrace, rfl, -⟩ := List.append_eq_map_iff.1 htokens
    have htraces := traces_document c
    rw [htrace] at htraces
    obtain ⟨e, hsteps, -⟩ := htraces.split
    cases hd.symm.trans hsteps.extendAll
    refine ⟨c, steps, ⟨rest', htrace.symm⟩, rfl, ?_⟩
    rw [d.depth_eq, ← hsteps.last_modes]
    rfl

theorem opensLevel_iff_leavesOpen {before : List Token} {t : Token} {level : Nat} :
    OpensLevel level before t ↔
      (t = .symbol .braceOpen ∨ t = .symbol .bracketOpen) ∧ LeavesOpen (before ++ [t]) level := by
  refine and_congr_right fun _ => ⟨?_, ?_⟩
  · rintro ⟨c, start, modes, rfl, hprefix, rfl⟩
    exact ⟨c, start ++ [(t, modes)], hprefix, by simp, by simp⟩
  · rintro ⟨c, steps, hprefix, hsteps, rfl⟩
    obtain ⟨start, last, rfl, hstart, hlast⟩ := List.map_eq_append_iff.1 hsteps
    obtain ⟨⟨t', modes⟩, rfl, rfl⟩ := List.map_eq_singleton_iff.1 hlast
    exact ⟨c, start, modes, hstart, hprefix, by simp⟩

/-- The level that a bracket opens is how deep the draft after it is nested. -/
theorem opensLevel_iff {d : Draft} {before : List Token} {t : Token} {level : Nat}
    (hd : Draft.start.extendAll before = some d) :
    OpensLevel level before t ↔
      (t = .symbol .braceOpen ∨ t = .symbol .bracketOpen) ∧
        ∃ d', d.extend t = some d' ∧ d'.depth = level := by
  rw [opensLevel_iff_leavesOpen, leavesOpen_iff]
  refine and_congr_right fun _ => exists_congr fun d' => and_congr_left fun _ => ?_
  rw [extendAll_append, hd]
  simp [Draft.extendAll]

/-! ## Refusals -/

/-- Why a draft does not go on with the tokens ahead. -/
inductive Draft.Refuses (d : Draft) : List Token → ParseError → Prop
  | atEnd (h : ∀ c, d ≠ .complete c) : Refuses d [] (d.unexpected none)
  | unexpected {t : Token} {ts : List Token} (h : d.extend t = none) :
    Refuses d (t :: ts) (d.unexpected (some t))
  | tooDeep {t : Token} {ts : List Token} {d' : Draft} (h : d.extend t = some d')
    (hlevel : d'.depth = nestingLimit + 1) : Refuses d (t :: ts) (.nestingTooDeep nestingLimit)

/-- The tokens that a reader has left when a draft refuses `after`: a bracket is taken first. -/
def ParseError.left (after : List Token) : ParseError → List Token
  | .unexpectedToken .. => after
  | .nestingTooDeep _ => after.tail

theorem feed_eq_error_iff {d : Draft} {t : Token} {e : ParseError} (ts : List Token)
    (hd : d.height ≤ nestingLimit) : d.feed 0 t = .error e ↔ d.Refuses (t :: ts) e := by
  have hle := d.depth_le_height
  constructor
  · intro h
    unfold Draft.feed at h
    split at h
    · rename_i hnone
      cases h
      exact .unexpected hnone
    · rename_i d' hsome
      split at h
      · rename_i hdeep
        cases h
        have hdepth := extend_depth hsome
        exact .tooDeep hsome (by omega)
      · cases h
  · rintro (_ | hnone | ⟨hsome, hlevel⟩)
    · simp [Draft.feed, hnone]
    · have hdeep : d.depth < nestingLimit + 1 := by omega
      simp [Draft.feed, hsome, hlevel, hdeep]

/-- A reader follows a run of drafts that stays within the limit. -/
theorem finish_append {d d' : Draft} {before : List Token} (after : List Token)
    (h : d.extendAll before = some d') (hd' : d'.height ≤ nestingLimit) :
    Reader.finish 0 d (before ++ after) = Reader.finish 0 d' after := by
  induction before generalizing d with
  | nil =>
    cases h
    rfl
  | cons t before ih =>
    obtain ⟨d₁, h₁, hrest⟩ := Option.bind_eq_some_iff.1 h
    have hle₁ : d₁.height ≤ nestingLimit := Nat.le_trans (extendAll_height_le hrest) hd'
    have hle : d.height ≤ nestingLimit := by
      have hh := extend_height h₁
      omega
    have hfeed : d.feed 0 t = .ok d₁ := (feed_eq_ok_iff (by omega)).2 ⟨h₁, by omega⟩
    rw [List.cons_append, Reader.finish, hfeed]
    exact ih hrest

theorem finish_of_refuses {d : Draft} {after : List Token} {e : ParseError}
    (hd : d.height ≤ nestingLimit) (h : d.Refuses after e) :
    ∃ depth, Reader.finish 0 d after = (.error e, ⟨e.left after, depth⟩) := by
  cases after with
  | nil =>
    cases h with
    | atEnd h =>
      cases d with
      | complete c => exact absurd rfl (h c)
      | _ => exact ⟨_, rfl⟩
  | cons t ts =>
    have hfeed := (feed_eq_error_iff ts hd).2 h
    rw [Reader.finish, hfeed]
    cases e <;> exact ⟨_, rfl⟩

/-- A reader that fails has come to a draft that refuses what is ahead. -/
theorem refuses_of_finish {d : Draft} {ts : List Token} {e : ParseError}
    (hd : d.height ≤ nestingLimit) (h : (Reader.finish 0 d ts).1 = .error e) :
    ∃ before after d', ts = before ++ after ∧ d.extendAll before = some d' ∧
      d'.height ≤ nestingLimit ∧ d'.Refuses after e := by
  induction ts generalizing d with
  | nil =>
    have hnot : ∀ c, d ≠ .complete c := by
      rintro c rfl
      cases h
    have he : e = d.unexpected none := by
      cases d with
      | complete c => exact absurd rfl (hnot c)
      | _ => cases h; rfl
    subst he
    exact ⟨[], [], d, rfl, rfl, hd, .atEnd hnot⟩
  | cons t ts ih =>
    rw [Reader.finish] at h
    cases hfeed : d.feed 0 t with
    | ok d₁ =>
      rw [hfeed] at h
      obtain ⟨h₁, hd₁⟩ := (feed_eq_ok_iff (by omega)).1 hfeed
      obtain ⟨before, after, d', rfl, hbefore, hd', hrefuses⟩ := ih (by omega) h
      exact ⟨t :: before, after, d', rfl, by simp [Draft.extendAll, h₁, hbefore], hd', hrefuses⟩
    | error e' =>
      rw [hfeed] at h
      obtain rfl : e' = e := by cases e' <;> exact Except.error.inj h
      exact ⟨[], t :: ts, d, rfl, rfl, hd, (feed_eq_error_iff ts hd).1 hfeed⟩

/-- **What the reader reports** is what the first draft that does not go on refuses. -/
theorem ofTokens_eq_error_iff {ts : List Token} {e : ParseError} :
    Document.ofTokens ts = .error e ↔
      ∃ before after d, ts = before ++ after ∧ Draft.start.extendAll before = some d ∧
        d.height ≤ nestingLimit ∧ d.Refuses after e := by
  constructor
  · exact refuses_of_finish (by decide)
  · rintro ⟨before, after, d, rfl, hbefore, hd, hrefuses⟩
    obtain ⟨depth, hfinish⟩ := finish_of_refuses hd hrefuses
    have h := (finish_append after hbefore hd).trans hfinish
    exact congrArg Prod.fst h

/-- How many tokens come before the one that the error is about, or how many there are. -/
def faultIndex (ts : List Token) : Nat :=
  match (Reader.ofTokens ts).read with
  | (.error (.nestingTooDeep _), r) => ts.length - r.rest.length - 1
  | (_, r) => ts.length - r.rest.length

theorem faultIndex_of_refuses {before after : List Token} {d : Draft} {e : ParseError}
    (hbefore : Draft.start.extendAll before = some d) (hd : d.height ≤ nestingLimit)
    (h : d.Refuses after e) : faultIndex (before ++ after) = before.length := by
  obtain ⟨depth, hfinish⟩ := finish_of_refuses hd h
  have hread : (Reader.ofTokens (before ++ after)).read = _ :=
    (finish_append after hbefore hd).trans hfinish
  rw [faultIndex, hread]
  cases h with
  | atEnd | unexpected => simp [Draft.unexpected, ParseError.left]
  | @tooDeep t ts =>
    simp only [ParseError.left, List.tail_cons, List.length_append, List.length_cons]
    omega

/-! ## Alternatives -/

/-- The tokens that begin a value and open no object or array. -/
inductive Token.StartsScalar : Token → Prop
  | quote : StartsScalar (.symbol .quote)
  | trueWord : StartsScalar (.symbol .trueWord)
  | falseWord : StartsScalar (.symbol .falseWord)
  | nullWord : StartsScalar (.symbol .nullWord)
  | float (x : Binary64) : StartsScalar (.float x)
  | integer (n : Int32) : StartsScalar (.integer n)
  | input (name : String) : StartsScalar (.input name)

/-- What an alternative in a message promises after the tokens `before`: that they are a document,
that every scalar may come, or that some token with this label may. -/
inductive Possible (before : List Token) : String → Prop
  | theEnd (h : IsDocument before) : Possible before Token.endLabel
  | value (h : ∀ t : Token, t.StartsScalar → StartsDocument (before ++ [t])) :
    Possible before "<value>"
  | token {t : Token} (h : StartsDocument (before ++ [t])) : Possible before t.label

theorem start_of_startsScalar {t : Token} (place : Context) (h : t.StartsScalar) :
    ∃ d, place.start t = some d ∧ d.depth = place.depth := by
  cases h with
  | quote => exact ⟨_, rfl, rfl⟩
  | _ => exact ⟨_, rfl, fill_depth place _⟩

section

variable {before : List Token} {d : Draft} (hbefore : Draft.start.extendAll before = some d)
  (hd : d.height ≤ nestingLimit)

include hbefore hd

/-- A token that nests no deeper keeps a beginning of a document one. -/
theorem startsDocument_concat {d' : Draft} {t : Token} (h : d.extend t = some d')
    (hdepth : d'.depth ≤ max d.depth 1) : StartsDocument (before ++ [t]) := by
  refine startsDocument_iff.2 ⟨d', extendAll_concat_eq_some_iff.2 ⟨d, hbefore, h⟩, ?_⟩
  have hle := d.depth_le_height
  have hone : 1 ≤ nestingLimit := by decide
  rw [extend_height h]
  omega

theorem possible_token {d' : Draft} (t : Token) (h : d.extend t = some d')
    (hdepth : d'.depth ≤ max d.depth 1) : Possible before t.label :=
  .token (startsDocument_concat hbefore hd h hdepth)

/-- What a message offers as an alternative is one. -/
theorem expected_possible {label : String} (hlabel : label ∈ d.expected) :
    Possible before label := by
  have hle : d.depth ≤ max d.depth 1 := Nat.le_max_left ..
  cases d <;> simp only [Draft.expected, List.mem_cons, List.not_mem_nil, or_false] at hlabel
  case start | body =>
    subst hlabel
    exact possible_token hbefore hd (.symbol .braceOpen) rfl (Nat.le_refl 1)
  case block =>
    subst hlabel
    exact possible_token hbefore hd (.symbol .braceOpen) rfl hle
  case bindings | entrySpread | itemSpread =>
    subst hlabel
    exact possible_token hbefore hd (.input "$a") rfl hle
  case bindingName =>
    subst hlabel
    exact possible_token hbefore hd (.symbol .equals) rfl hle
  case key owner done path =>
    subst hlabel
    refine possible_token hbefore hd (.symbol .equals) rfl ?_
    cases owner <;> exact hle
  case blockEnd =>
    subst hlabel
    exact possible_token hbefore hd (.symbol .inWord) rfl hle
  case value place =>
    subst hlabel
    refine .value fun t ht => ?_
    obtain ⟨d', hd', hdepth⟩ := start_of_startsScalar place ht
    exact startsDocument_concat hbefore hd hd' (hdepth ▸ hle)
  case items place done =>
    subst hlabel
    refine .value fun t ht => ?_
    obtain ⟨d', hd', hdepth⟩ := start_of_startsScalar (.item place done) ht
    exact startsDocument_concat hbefore hd (extend_items hd') (hdepth ▸ hle)
  case entries =>
    rcases hlabel with rfl | rfl
    · exact possible_token hbefore hd (.symbol .spread) rfl hle
    · exact possible_token hbefore hd (.segment "a") rfl hle
  case keyDot =>
    subst hlabel
    exact possible_token hbefore hd (.segment "a") rfl hle
  case parts =>
    rcases hlabel with rfl | rfl | rfl
    · exact possible_token hbefore hd (.characters "a") rfl hle
    · exact possible_token hbefore hd (.escape 'a') rfl hle
    · exact possible_token hbefore hd (.input "$a") rfl hle
  case complete c =>
    subst hlabel
    exact .theEnd (isDocument_iff.2 ⟨c, hbefore, hd⟩)

end

/-! ## The first fault -/

/-- Only the first token ahead decides what a draft refuses. -/
theorem Draft.Refuses.of_head {d : Draft} {t : Token} {ts : List Token} {e : ParseError}
    (h : d.Refuses (t :: ts) e) (ts' : List Token) : d.Refuses (t :: ts') e := by
  cases h with
  | unexpected h => exact .unexpected h
  | tooDeep h hlevel => exact .tooDeep h hlevel

/-- What follows a refused token changes nothing. -/
theorem ofTokens_after_refused {before after : List Token} {t : Token} {d : Draft} {e : ParseError}
    (hbefore : Draft.start.extendAll before = some d) (hd : d.height ≤ nestingLimit)
    (h : d.Refuses (t :: after) e) (rest : List Token) :
    Document.ofTokens ((before ++ [t]) ++ rest) = .error e :=
  ofTokens_eq_error_iff.2 ⟨before, t :: rest, d, by simp, hbefore, hd, h.of_head rest⟩

theorem not_startsDocument_of_refuses {before after : List Token} {t : Token} {d : Draft}
    {e : ParseError} (hbefore : Draft.start.extendAll before = some d)
    (hd : d.height ≤ nestingLimit) (h : d.Refuses (t :: after) e) :
    ¬ StartsDocument (before ++ [t]) := by
  rintro ⟨rest, c, hc⟩
  rw [ofTokens_after_refused hbefore hd h rest] at hc
  cases hc

/-- The nesting is too deep exactly where a bracket, after tokens that begin a document, opens one
level more than the limit. -/
theorem tooDeep_iff {ts : List Token} {p : Nat} :
    (Document.ofTokens ts = .error (.nestingTooDeep nestingLimit) ∧ faultIndex ts = p) ↔
      ∃ t, ts[p]? = some t ∧ StartsDocument (ts.take p) ∧
        OpensLevel (nestingLimit + 1) (ts.take p) t := by
  constructor
  · rintro ⟨he, rfl⟩
    obtain ⟨before, after, d, rfl, hbefore, hd, hrefuses⟩ := ofTokens_eq_error_iff.1 he
    rw [faultIndex_of_refuses hbefore hd hrefuses, List.take_left]
    cases hrefuses with
    | @tooDeep t ts d' h hlevel =>
      refine ⟨t, by simp, startsDocument_iff.2 ⟨d, hbefore, hd⟩, (opensLevel_iff hbefore).2 ?_⟩
      have hle := d.depth_le_height
      rcases extend_depth h with hdepth | ⟨-, hbracket⟩
      · omega
      · exact ⟨hbracket, d', h, hlevel⟩
  · rintro ⟨t, ht, hstarts, hopens⟩
    obtain ⟨d, hbefore, hd⟩ := startsDocument_iff.1 hstarts
    obtain ⟨-, d', h, hlevel⟩ := (opensLevel_iff hbefore).1 hopens
    obtain ⟨hp, rfl⟩ := List.getElem?_eq_some_iff.1 ht
    have hsplit : ts = ts.take p ++ ts[p] :: ts.drop (p + 1) := by simp
    have hrefuses : d.Refuses (ts[p] :: ts.drop (p + 1)) _ := .tooDeep h hlevel
    refine ⟨ofTokens_eq_error_iff.2 ⟨_, _, d, hsplit, hbefore, hd, hrefuses⟩, ?_⟩
    have hindex := faultIndex_of_refuses hbefore hd hrefuses
    rw [← hsplit, List.length_take] at hindex
    omega

/-- **Errors stand at the first fault.** The tokens before the one that an error is about begin a
document. With that token they begin none, and whatever follows it the error is the same. An
unexpected token is named by its label, or the end by its own, and each alternative that the message
offers is one. The nesting is too deep exactly where a bracket, after tokens that begin a document,
opens one level more than the limit. -/
theorem error_at_first_fault :
    (∀ (ts : List Token) (e : ParseError), Document.ofTokens ts = .error e →
      faultIndex ts ≤ ts.length ∧ StartsDocument (ts.take (faultIndex ts)) ∧
        (faultIndex ts < ts.length →
          ¬ StartsDocument (ts.take (faultIndex ts + 1)) ∧
            ∀ rest, Document.ofTokens (ts.take (faultIndex ts + 1) ++ rest) = .error e) ∧
        match e with
        | .unexpectedToken expected found =>
          found = Token.labelOf ts[faultIndex ts]? ∧
            ∀ label ∈ expected, Possible (ts.take (faultIndex ts)) label
        | .nestingTooDeep limit => limit = nestingLimit) ∧
    ∀ (ts : List Token) (p : Nat),
      (Document.ofTokens ts = .error (.nestingTooDeep nestingLimit) ∧ faultIndex ts = p) ↔
        ∃ t, ts[p]? = some t ∧ StartsDocument (ts.take p) ∧
          OpensLevel (nestingLimit + 1) (ts.take p) t := by
  refine ⟨fun ts e he => ?_, fun ts p => tooDeep_iff⟩
  obtain ⟨before, after, d, rfl, hbefore, hd, hrefuses⟩ := ofTokens_eq_error_iff.1 he
  have hstarts : StartsDocument before := startsDocument_iff.2 ⟨d, hbefore, hd⟩
  rw [faultIndex_of_refuses hbefore hd hrefuses, List.take_left]
  refine ⟨by simp, hstarts, fun hlt => ?_, ?_⟩
  · obtain ⟨t, after, rfl⟩ : ∃ t ts, after = t :: ts := by
      cases after with
      | nil => simp at hlt
      | cons t ts => exact ⟨t, ts, rfl⟩
    rw [List.take_length_add_append, List.take_succ_cons, List.take_zero]
    exact ⟨not_startsDocument_of_refuses hbefore hd hrefuses,
      ofTokens_after_refused hbefore hd hrefuses⟩
  · have hnext : (before ++ after)[before.length]? = after.head? := by
      simp [List.getElem?_append_right, List.head?_eq_getElem?]
    rw [hnext]
    cases hrefuses with
    | atEnd | unexpected => exact ⟨rfl, fun label => expected_possible hbefore hd⟩
    | tooDeep => rfl

/-- A key without a value is refused at the brace. -/
example :
    let ts : List Token := [.symbol .braceOpen, .segment "a", .symbol .braceClose]
    Document.ofTokens ts = .error (.unexpectedToken ["="] "\x7d") ∧ faultIndex ts = 2 :=
  ⟨rfl, rfl⟩

end ConfigLang
