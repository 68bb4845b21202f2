import ConfigLang.Document.Descent
import ConfigLang.Proofs.Document.DraftRun

/-!
# Rules for recursive descent

What a function of a reading does is said by two drafts: the one at which it starts and, for each
result, the one that it reaches. Rules for the steps of such functions say so of whole functions.
With the drafts they carry the index and the counter along.

* `Draft.Admits`: what a draft can go on with, read off the grammar (`admits_of_extend`).
* `Steady`: the bounds of index and counter at every act.
* `Follows`: a function goes from draft to draft, and comes to its end.
* `Follows.bind`, `follows_peek`, `follows_expect`, ...: the rules for steps.
* `follows_open`, `follows_close`: brackets and the counter.
* `follows_rounds`: a loop whose rounds take tokens does not come to its bound.
-/

namespace ConfigLang

/-! ## Where drafts stop -/

/-- The tokens that a draft can go on with; for a complete document it is the end. -/
def Draft.Admits : Draft → Option Token → Prop
  | .start, found => found = some (.symbol .letWord) ∨ found = some (.symbol .braceOpen)
  | .block, found | .body _, found => found = some (.symbol .braceOpen)
  | .bindings _, found => found = some (.symbol .braceClose) ∨ ∃ name, found = some (.input name)
  | .bindingName .., found => found = some (.symbol .equals)
  | .blockEnd _, found => found = some (.symbol .inWord)
  | .value _, found =>
    found = some (.symbol .quote) ∨ found = some (.symbol .braceOpen) ∨
      found = some (.symbol .bracketOpen) ∨ found.bind Expr.ofToken? ≠ none
  | .entries .., found =>
    found = some (.symbol .braceClose) ∨ found = some (.symbol .spread) ∨
      ∃ text, found = some (.segment text)
  | .entrySpread .., found | .itemSpread .., found => ∃ name, found = some (.input name)
  | .key .., found => found = some (.symbol .dot) ∨ found = some (.symbol .equals)
  | .keyDot .., found => ∃ text, found = some (.segment text)
  | .items .., found =>
    found = some (.symbol .bracketClose) ∨ found = some (.symbol .spread) ∨
      found = some (.symbol .quote) ∨ found = some (.symbol .braceOpen) ∨
      found = some (.symbol .bracketOpen) ∨ found.bind Expr.ofToken? ≠ none
  | .parts .., found => found = some (.symbol .quote) ∨ found.bind Part.ofToken? ≠ none
  | .complete _, found => found = none

/-- A draft that does not go on, and the alternatives that messages list. -/
structure Draft.StopsAt (d : Draft) (found : Option Token) (expected : List String) : Prop where
  expected : d.expected = expected
  refuses : ¬ d.Admits found

theorem admits_of_start {place : Context} {t : Token} {d : Draft} (h : place.start t = some d) :
    (Draft.value place).Admits (some t) := by
  unfold Context.start at h
  split at h
  · exact .inl rfl
  · exact .inr (.inl rfl)
  · exact .inr (.inr (.inl rfl))
  · obtain ⟨e, he, -⟩ := Option.map_eq_some_iff.1 h
    refine .inr (.inr (.inr ?_))
    simp [he]

theorem admits_of_extend {d d' : Draft} {t : Token} (h : d.extend t = some d') :
    d.Admits (some t) := by
  fun_cases Draft.extend d t <;> simp only [Draft.extend, reduceCtorEq] at h
  case case9 place => exact admits_of_start h
  case case19 place done _ _ => exact .inr (.inr (admits_of_start h))
  case case22 place done _ =>
    obtain ⟨part, hpart, -⟩ := Option.map_eq_some_iff.1 h
    refine .inr ?_
    simp [hpart]
  all_goals simp [Draft.Admits]

namespace Descent

/-! ## Places -/

/-- The tokens that have not been read. -/
def ahead (p : Descent) : List Token := p.tokens.drop p.position

/-- The reader with the same tokens ahead and as much nesting. -/
def reader (p : Descent) : Reader := ⟨p.ahead, p.depth⟩

theorem ahead_of_current_none {p : Descent} (h : p.current = none) : p.ahead = [] :=
  List.drop_eq_nil_of_le (List.getElem?_eq_none_iff.1 h)

theorem apply_advance {p : Descent} {t : Token} (h : p.current = some t) :
    Act.advance.apply p = { p with position := p.position + 1 } := by
  obtain ⟨hlt, -⟩ := List.getElem?_eq_some_iff.1 h
  have hend : p.isAtEnd = false := by simpa [isAtEnd] using hlt
  simp [Act.apply, hend]

theorem ahead_of_current_some {p : Descent} {t : Token} (h : p.current = some t) :
    p.ahead = t :: (Act.advance.apply p).ahead := by
  obtain ⟨hlt, ht⟩ := List.getElem?_eq_some_iff.1 h
  rw [apply_advance h, ahead, ahead, List.drop_eq_getElem_cons hlt, ht]

theorem length_ahead_lt (p : Descent) : p.ahead.length < p.tokens.length + 1 := by
  rw [ahead, List.length_drop]
  omega

theorem apply_tokens (act : Act) (p : Descent) : (act.apply p).tokens = p.tokens := by
  cases act with
  | advance =>
    rw [Act.apply]
    split <;> rfl
  | enter | leave => rfl

theorem replay_tokens (p : Descent) (acts : List Act) : (replay p acts).tokens = p.tokens := by
  induction acts generalizing p with
  | nil => rfl
  | cons act acts ih => exact (ih _).trans (apply_tokens act p)

/-! ## Bounds -/

/-- The counter is not ahead of the index, nor the index of the tokens. -/
structure InBounds (p : Descent) : Prop where
  depth : p.depth ≤ p.position
  position : p.position ≤ p.tokens.length

/-- The bounds hold before and after each act, no act moves the index back, and the counter goes
down only from one or more. -/
def Steady (p : Descent) : List Act → Prop
  | [] => p.InBounds
  | act :: acts =>
    p.InBounds ∧ p.position ≤ (act.apply p).position ∧ (act = .leave → 1 ≤ p.depth) ∧
      Steady (act.apply p) acts

theorem Steady.inBounds {p : Descent} {acts : List Act} (h : Steady p acts) :
    (replay p acts).InBounds := by
  induction acts generalizing p with
  | nil => exact h
  | cons first acts ih => exact ih h.2.2.2

theorem Steady.concat {p : Descent} {acts : List Act} {act : Act} (h : Steady p acts)
    (hact : Steady (replay p acts) [act]) : Steady p (acts ++ [act]) := by
  induction acts generalizing p with
  | nil => exact hact
  | cons first acts ih =>
    obtain ⟨hp, hforward, hleave, hrest⟩ := h
    exact ⟨hp, hforward, hleave, ih hrest hact⟩

theorem steady_advance {p : Descent} {t : Token} (hp : p.InBounds) (h : p.current = some t) :
    Steady p [.advance] := by
  obtain ⟨hlt, -⟩ := List.getElem?_eq_some_iff.1 h
  have hdepth := hp.depth
  rw [Steady, Steady, apply_advance h]
  exact ⟨hp, Nat.le_succ _, nofun, ⟨Nat.le_succ_of_le hdepth, hlt⟩⟩

/-- A journal that continues another: acts lead from the place of that one to its own, steadily, and
every round since has taken a token. -/
structure Journal.Continues (j origin : Journal) : Prop where
  acts : ∃ acts, j.acts = origin.acts ++ acts ∧ replay origin.now acts = j.now ∧
    Steady origin.now acts
  rounds : ∃ rounds, j.rounds = origin.rounds ++ rounds ∧ ∀ r ∈ rounds, r.start < r.stop

namespace Journal.Continues
variable {origin j : Journal}

theorem refl (h : j.now.InBounds) : j.Continues j :=
  ⟨⟨[], (List.append_nil _).symm, rfl, h⟩, ⟨[], (List.append_nil _).symm, nofun⟩⟩

theorem tokens_eq (h : j.Continues origin) : j.now.tokens = origin.now.tokens := by
  obtain ⟨acts, -, hnow, -⟩ := h.acts
  rw [← hnow, replay_tokens]

theorem inBounds (h : j.Continues origin) : j.now.InBounds := by
  obtain ⟨acts, -, hnow, hsteady⟩ := h.acts
  exact hnow ▸ hsteady.inBounds

theorem perform {act : Act} (h : j.Continues origin) (hact : Steady j.now [act]) :
    (j.perform act).Continues origin := by
  obtain ⟨acts, hacts, hnow, hsteady⟩ := h.acts
  refine ⟨⟨acts ++ [act], ?_, ?_, hsteady.concat (hnow ▸ hact)⟩, h.rounds⟩
  · rw [Journal.perform, hacts, List.append_assoc]
  · rw [replay, List.foldl_append]
    exact congrArg act.apply hnow

theorem note {loop : Loop} {start : Nat} (h : j.Continues origin)
    (hstart : start < j.now.position) : (j.note loop start).Continues origin := by
  obtain ⟨rounds, hrounds, htake⟩ := h.rounds
  refine ⟨h.acts, rounds ++ [⟨loop, start, j.now.position⟩], ?_, ?_⟩
  · rw [Journal.note, hrounds, List.append_assoc]
  · intro r hr
    rcases List.mem_append.1 hr with hr | hr
    · exact htake r hr
    · obtain rfl := List.mem_singleton.1 hr
      exact hstart

end Journal.Continues

/-! ## Readings that come to an end -/

/-- A reading from a journal comes to an end, with a result and a journal as `post` says. -/
def Ends {α : Type} (m : Parsing α) (j : Journal) (post : Except ParseError α → Journal → Prop) :
    Prop :=
  ∃ r j', m.run.run j = some (r, j') ∧ post r j'

theorem Ends.mono {α : Type} {m : Parsing α} {j : Journal}
    {post post' : Except ParseError α → Journal → Prop} (h : Ends m j post)
    (himp : ∀ r j', post r j' → post' r j') : Ends m j post' := by
  obtain ⟨r, j', hm, hpost⟩ := h
  exact ⟨r, j', hm, himp r j' hpost⟩

theorem Ends.bind {α β : Type} {m : Parsing α} {f : α → Parsing β} {j : Journal}
    {post : Except ParseError β → Journal → Prop}
    (h : Ends m j fun
      | .ok a, j' => Ends (f a) j' post
      | .error e, j' => post (.error e) j') : Ends (m >>= f) j post := by
  obtain ⟨r, j', hm, hpost⟩ := h
  cases r with
  | ok a =>
    obtain ⟨r, j'', hf, hpost⟩ := hpost
    refine ⟨r, j'', ?_, hpost⟩
    rw [ExceptT.run_bind, StateT.run_bind, hm]
    exact hf
  | error e =>
    refine ⟨.error e, j', ?_, hpost⟩
    rw [ExceptT.run_bind, StateT.run_bind, hm]
    rfl

/-! ## Readings that follow drafts -/

/-- A draft, with what is known of the next token. -/
structure Stand where
  draft : Draft
  next : Option Token → Prop

end Descent

/-- A draft before any token. -/
def Draft.stand (d : Draft) : Descent.Stand := ⟨d, fun _ => True⟩

/-- A draft before a given token. -/
def Draft.facing (d : Draft) (t : Token) : Descent.Stand := ⟨d, fun found => found = some t⟩

/-- A draft before the end or any token but one symbol. -/
def Draft.notFacing (d : Draft) (s : Symbol) : Descent.Stand :=
  ⟨d, fun found => found ≠ some (.symbol s)⟩

namespace Descent

/-- A journal that continues `origin` and stands at a draft; nesting is counted from `base`. -/
structure StandsAt (origin : Journal) (base : Nat) (s : Stand) (j : Journal) : Prop where
  continues : j.Continues origin
  depth : j.now.depth = base + s.draft.depth
  next : s.next j.now.current

/-- What a reading does that starts at `s` with at most `n` tokens ahead. Where it ends well it has
taken `least` tokens or more and has reached the draft for its result; where it fails, it fails as a
reader does. -/
def Follows {α : Type} (origin : Journal) (base n least : Nat) (s : Stand) (m : Parsing α)
    (reach : α → Stand) : Prop :=
  ∀ j, StandsAt origin base s j → j.now.ahead.length ≤ n → Ends m j fun
    | .ok a, j' => StandsAt origin base (reach a) j' ∧ j.now.position + least ≤ j'.now.position ∧
        Reader.finish base s.draft j.now.ahead =
          Reader.finish base (reach a).draft j'.now.ahead
    | .error e, j' => j'.Continues origin ∧
        Reader.finish base s.draft j.now.ahead = (.error e, j'.now.reader)

variable {origin : Journal} {base n k l : Nat} {α β γ : Type} {s : Stand} {d d' : Draft}

theorem length_ahead_add_le {j j' : Journal} (hj : j.Continues origin) (hj' : j'.Continues origin)
    (h : j.now.position + k ≤ j'.now.position) (hn : j.now.ahead.length ≤ n) :
    j'.now.ahead.length + k ≤ n := by
  have hle := hj'.inBounds.position
  simp only [ahead, List.length_drop, hj.tokens_eq, hj'.tokens_eq] at hn hle ⊢
  omega

/-! ### Sequences -/

theorem follows_pure {reach : α → Stand} (a : α) (hdraft : (reach a).draft = s.draft)
    (hnext : ∀ found, s.next found → (reach a).next found) :
    Follows origin base n 0 s (pure a) reach := by
  intro j hj hn
  refine ⟨.ok a, j, rfl, ⟨hj.continues, ?_, hnext _ hj.next⟩, Nat.le_refl _, ?_⟩
  · rw [hj.depth, hdraft]
  · rw [hdraft]

/-- Tokens that were taken are no longer ahead of what follows. -/
theorem Follows.bind {m : Parsing α} {f : α → Parsing β} {mid : α → Stand} {reach : β → Stand}
    (hm : Follows origin base n k s m mid)
    (hf : ∀ a n', n' + k ≤ n → Follows origin base n' l (mid a) (f a) reach) :
    Follows origin base n (k + l) s (m >>= f) reach := by
  intro j hj hn
  refine Ends.bind ((hm j hj hn).mono ?_)
  rintro (e | a) j₁ hr
  · exact hr
  · obtain ⟨hj₁, hposition, hfinish⟩ := hr
    have hlength := length_ahead_add_le hj.continues hj₁.continues hposition hn
    refine (hf a _ hlength j₁ hj₁ (Nat.le_refl _)).mono ?_
    rintro (e | b) j₂ hr
    · exact ⟨hr.1, hfinish.trans hr.2⟩
    · exact ⟨hr.1, by omega, hfinish.trans hr.2.2⟩

/-- A result made of the last one takes no token. -/
theorem Follows.returns {m : Parsing α} {mid : α → Stand} {reach : β → Stand} (f : α → β)
    (hm : Follows origin base n k s m mid) (h : ∀ a, mid a = reach (f a)) :
    Follows origin base n k s (m >>= fun a => pure (f a)) reach := by
  refine hm.bind (l := 0) fun a _ _ => ?_
  rw [h]
  exact follows_pure (f a) rfl fun _ => id

theorem Follows.assoc {m : Parsing α} {f : α → Parsing β} {g : β → Parsing γ}
    {reach : γ → Stand} (h : Follows origin base n k s (m >>= f >>= g) reach) :
    Follows origin base n k s (m >>= fun a => f a >>= g) reach := by
  rwa [bind_assoc] at h

/-- More may be known of the next token, fewer tokens be ahead, and more be taken than is asked. -/
theorem Follows.weaken {m : Parsing α} {reach : α → Stand} {s' : Stand} {n' : Nat}
    (h : Follows origin base n k s m reach) (hdraft : s'.draft = s.draft)
    (hnext : ∀ found, s'.next found → s.next found) (hn : n' ≤ n) (hk : l ≤ k) :
    Follows origin base n' l s' m reach := by
  intro j hj hlen
  have hstands : StandsAt origin base s j := ⟨hj.continues, hdraft ▸ hj.depth, hnext _ hj.next⟩
  rw [hdraft]
  refine (h j hstands (Nat.le_trans hlen hn)).mono ?_
  rintro (e | a) j' hr
  · exact hr
  · exact ⟨hr.1, Nat.le_trans (Nat.add_le_add_left hk _) hr.2.1, hr.2.2⟩

/-- Fewer tokens are taken than could be said. -/
theorem Follows.least {m : Parsing α} {reach : α → Stand}
    (h : Follows origin base n k s m reach) (hk : l ≤ k) : Follows origin base n l s m reach :=
  h.weaken rfl (fun _ => id) (Nat.le_refl _) hk

/-! ### Single tokens -/

/-- The next token is looked at, and the reading goes on by cases. -/
theorem follows_peek {f : Option Token → Parsing α} {reach : α → Stand}
    (h : ∀ found, s.next found → Follows origin base n l ⟨s.draft, (· = found)⟩ (f found) reach) :
    Follows origin base n l s (peek >>= f) reach := by
  intro j hj hn
  exact Ends.bind ⟨_, j, rfl, h _ hj.next j ⟨hj.continues, hj.depth, rfl⟩ hn⟩

theorem follows_check {f : Bool → Parsing α} {reach : α → Stand} {symbol : Symbol}
    (htrue : Follows origin base n l (s.draft.facing (.symbol symbol)) (f true) reach)
    (hfalse : Follows origin base n l
      ⟨s.draft, fun found => s.next found ∧ found ≠ some (.symbol symbol)⟩ (f false) reach) :
    Follows origin base n l s (check symbol >>= f) reach := by
  intro j hj hn
  refine Ends.bind ⟨.ok (decide (j.now.current = some (.symbol symbol))), j, rfl, ?_⟩
  by_cases h : j.now.current = some (.symbol symbol)
  · rw [decide_eq_true h]
    exact htrue j ⟨hj.continues, hj.depth, h⟩ hn
  · rw [decide_eq_false h]
    exact hfalse j ⟨hj.continues, hj.depth, hj.next, h⟩ hn

theorem finish_of_stopsAt {p : Descent} {expected : List String}
    (h : d.StopsAt p.current expected) :
    Reader.finish base d p.ahead =
      (.error (.unexpectedToken expected (Token.labelOf p.current)),
        ⟨p.ahead, base + d.depth⟩) := by
  obtain ⟨rfl, h⟩ := h
  cases hcurrent : p.current with
  | none =>
    rw [hcurrent] at h
    rw [ahead_of_current_none hcurrent]
    cases d with
    | complete c => exact absurd rfl h
    | _ => rfl
  | some t =>
    rw [hcurrent] at h
    have hnone : d.extend t = none := by
      cases hextend : d.extend t with
      | none => rfl
      | some d' => exact absurd (admits_of_extend hextend) h
    rw [ahead_of_current_some hcurrent, Reader.finish, Draft.feed, hnone]
    rfl

theorem follows_unexpected {expected : List String} {reach : α → Stand}
    (h : ∀ found, s.next found → s.draft.StopsAt found expected) :
    Follows origin base n l s (unexpected expected) reach := by
  intro j hj hn
  refine ⟨_, j, rfl, hj.continues, ?_⟩
  rw [finish_of_stopsAt (h _ hj.next), reader, hj.depth]

theorem finish_of_extend {t : Token} (ts : List Token) (h : d.extend t = some d')
    (hdepth : d'.depth ≤ d.depth) : Reader.finish base d (t :: ts) = Reader.finish base d' ts := by
  have hnot : ¬ (d.depth < d'.depth ∧ nestingLimit < base + d'.depth) := by omega
  rw [Reader.finish, Draft.feed, h]
  simp only [if_neg hnot]

theorem follows_advance {t : Token} (h : d.extend t = some d') (hdepth : d'.depth = d.depth) :
    Follows origin base n 1 (d.facing t) (perform .advance) fun _ => d'.stand := by
  intro j hj hn
  have ht : j.now.current = some t := hj.next
  refine ⟨.ok (), j.perform .advance, rfl, ⟨?_, ?_, trivial⟩, ?_, ?_⟩
  · exact hj.continues.perform (steady_advance hj.continues.inBounds ht)
  · show (Act.advance.apply j.now).depth = base + d'.depth
    rw [apply_advance ht, hdepth]
    exact hj.depth
  · exact Nat.le_of_eq (congrArg Descent.position (apply_advance ht)).symm
  · rw [ahead_of_current_some ht]
    exact finish_of_extend _ h (Nat.le_of_eq hdepth)

theorem follows_expect {symbol : Symbol} (h : s.draft.extend (.symbol symbol) = some d')
    (hdepth : d'.depth = s.draft.depth)
    (hstop : ∀ found, s.next found → found ≠ some (.symbol symbol) →
      s.draft.StopsAt found [symbol.text]) :
    Follows origin base n 1 s (expect symbol) fun _ => d'.stand :=
  follows_check (follows_advance h hdepth)
    (follows_unexpected fun found hfound => hstop found hfound.1 hfound.2)

/-- Where the symbol is known to be next, it is taken. -/
theorem follows_expect_facing {symbol : Symbol} (h : d.extend (.symbol symbol) = some d')
    (hdepth : d'.depth = d.depth) :
    Follows origin base n 1 (d.facing (.symbol symbol)) (expect symbol) fun _ => d'.stand :=
  follows_expect h hdepth fun _ hfound hnot => absurd hfound hnot

theorem follows_expectInput {reach : String → Draft}
    (h : ∀ name, s.draft.extend (.input name) = some (reach name))
    (hdepth : ∀ name, (reach name).depth = s.draft.depth)
    (hstop : ∀ found, s.next found → (¬ ∃ name, found = some (.input name)) →
      s.draft.StopsAt found ["<input>"]) :
    Follows origin base n 1 s expectInput fun name => (reach name).stand := by
  refine follows_peek fun found hfound => ?_
  split
  · rename_i name
    exact (follows_advance (h name) (hdepth name)).returns (fun _ => name) fun _ => rfl
  · rename_i hnot
    refine follows_unexpected ?_
    rintro _ rfl
    exact hstop _ hfound fun ⟨name, hname⟩ => hnot name hname

theorem follows_expectSegment {reach : String → Draft}
    (h : ∀ text, s.draft.extend (.segment text) = some (reach text))
    (hdepth : ∀ text, (reach text).depth = s.draft.depth)
    (hstop : ∀ found, s.next found → (¬ ∃ text, found = some (.segment text)) →
      s.draft.StopsAt found ["<path_seg>"]) :
    Follows origin base n 1 s expectSegment fun text => (reach text).stand := by
  refine follows_peek fun found hfound => ?_
  split
  · rename_i text
    exact (follows_advance (h text) (hdepth text)).returns (fun _ => text) fun _ => rfl
  · rename_i hnot
    refine follows_unexpected ?_
    rintro _ rfl
    exact hstop _ hfound fun ⟨text, htext⟩ => hnot text htext

/-! ### Brackets -/

theorem ends_expect {j : Journal} {symbol : Symbol}
    (h : j.now.current = some (.symbol symbol)) :
    Ends (expect symbol) j fun r j' => r = .ok () ∧ j' = j.perform .advance := by
  refine Ends.bind ⟨.ok (decide (j.now.current = some (.symbol symbol))), j, rfl, ?_⟩
  rw [decide_eq_true h]
  exact ⟨_, _, rfl, rfl, rfl⟩

theorem ends_expect_of_ne {j : Journal} {symbol : Symbol}
    (h : j.now.current ≠ some (.symbol symbol)) :
    Ends (expect symbol) j fun r j' =>
      r = .error (.unexpectedToken [symbol.text] (Token.labelOf j.now.current)) ∧ j' = j := by
  refine Ends.bind ⟨.ok (decide (j.now.current = some (.symbol symbol))), j, rfl, ?_⟩
  rw [decide_eq_false h]
  exact ⟨_, _, rfl, rfl, rfl⟩

theorem ends_enter (j : Journal) :
    Ends enter j fun r j' => j' = j.perform .enter ∧
      r = if nestingLimit < j.now.depth + 1 then .error (.nestingTooDeep nestingLimit)
        else .ok () := by
  refine Ends.bind ⟨.ok (), j.perform .enter, rfl, Ends.bind ⟨.ok (j.perform .enter), _, rfl, ?_⟩⟩
  have hdepth : (j.perform .enter).now.depth = j.now.depth + 1 := rfl
  dsimp only
  rw [hdepth]
  split <;> exact ⟨_, _, rfl, rfl, rfl⟩

theorem finish_of_open {t : Token} (ts : List Token) (h : d.extend t = some d')
    (hdepth : d'.depth = d.depth + 1) :
    Reader.finish base d (t :: ts) =
      if nestingLimit < base + d'.depth then
        (.error (.nestingTooDeep nestingLimit), ⟨ts, base + d'.depth⟩)
      else Reader.finish base d' ts := by
  have hdeeper : d.depth < d'.depth := by omega
  by_cases hdeep : nestingLimit < base + d'.depth
  · rw [if_pos hdeep, Reader.finish, Draft.feed, h]
    simp only [if_pos (And.intro hdeeper hdeep)]
    rw [hdepth, Nat.add_assoc]
  · rw [if_neg hdeep, Reader.finish, Draft.feed, h]
    simp only [if_neg fun both : d.depth < d'.depth ∧ _ => hdeep both.2]

/-- The journal behind an opening bracket, also one that is refused. -/
def Journal.opened (j : Journal) : Journal := (j.perform .advance).perform .enter

theorem opened_now {j : Journal} {t : Token} (h : j.now.current = some t) :
    j.opened.now = ⟨j.now.tokens, j.now.position + 1, j.now.depth + 1⟩ := by
  show Act.enter.apply (Act.advance.apply j.now) = _
  rw [apply_advance h]
  rfl

/-- The index moves first, so that there is room for the counter below it. -/
theorem Journal.Continues.opened {j : Journal} {t : Token} (h : j.Continues origin)
    (ht : j.now.current = some t) : j.opened.Continues origin := by
  have hbounds := h.inBounds
  have hadvanced := h.perform (steady_advance hbounds ht)
  have hnow : (j.perform .advance).now = { j.now with position := j.now.position + 1 } :=
    apply_advance ht
  have hdepth := hbounds.depth
  have hposition := hadvanced.inBounds.position
  refine hadvanced.perform ?_
  rw [hnow] at hposition ⊢
  exact ⟨⟨Nat.le_succ_of_le hdepth, hposition⟩, Nat.le_refl _, nofun,
    ⟨Nat.succ_le_succ hdepth, hposition⟩⟩

/-- Where the object or array is refused, its bracket has been taken and counted all the same. -/
theorem follows_open {symbol : Symbol} (h : s.draft.extend (.symbol symbol) = some d')
    (hdepth : d'.depth = s.draft.depth + 1)
    (hstop : ∀ found, s.next found → found ≠ some (.symbol symbol) →
      s.draft.StopsAt found [symbol.text]) :
    Follows origin base n 1 s (expect symbol >>= fun _ => enter) fun _ => d'.stand := by
  intro j hj hn
  by_cases hcurrent : j.now.current = some (.symbol symbol)
  · have hnow := opened_now hcurrent
    have hopened := hj.continues.opened hcurrent
    have hcount : j.now.depth + 1 = base + d'.depth := by rw [hj.depth, hdepth, Nat.add_assoc]
    have hdepth₁ : (j.perform .advance).now.depth + 1 = base + d'.depth :=
      (congrArg Descent.depth hnow).trans hcount
    have hfinish : Reader.finish base s.draft (.symbol symbol :: _) = _ :=
      finish_of_open (Act.advance.apply j.now).ahead h hdepth
    rw [← ahead_of_current_some hcurrent] at hfinish
    refine Ends.bind ((ends_expect hcurrent).mono ?_)
    rintro _ _ ⟨rfl, rfl⟩
    refine (ends_enter _).mono ?_
    rintro _ _ ⟨rfl, rfl⟩
    rw [hdepth₁]
    by_cases hdeep : nestingLimit < base + d'.depth
    · rw [if_pos hdeep] at hfinish ⊢
      refine ⟨hopened, ?_⟩
      rw [hfinish, ← hdepth₁]
      rfl
    · rw [if_neg hdeep] at hfinish ⊢
      refine ⟨⟨hopened, hdepth₁, trivial⟩, ?_, hfinish⟩
      exact Nat.le_of_eq (congrArg Descent.position hnow).symm
  · refine Ends.bind ((ends_expect_of_ne hcurrent).mono ?_)
    rintro _ _ ⟨rfl, rfl⟩
    refine ⟨hj.continues, ?_⟩
    rw [finish_of_stopsAt (hstop _ hj.next hcurrent), reader, hj.depth]

/-- The counter is raised for an object or array that is open, so it can go down. -/
theorem follows_close {symbol : Symbol} (h : d.extend (.symbol symbol) = some d')
    (hdepth : d'.depth + 1 = d.depth) :
    Follows origin base n 1 (d.facing (.symbol symbol)) (expect symbol >>= fun _ => leave)
      fun _ => d'.stand := by
  intro j hj hn
  have hcurrent : j.now.current = some (.symbol symbol) := hj.next
  have hadvanced := hj.continues.perform (steady_advance hj.continues.inBounds hcurrent)
  have hnow : (j.perform .advance).now = { j.now with position := j.now.position + 1 } :=
    apply_advance hcurrent
  have hcount : j.now.depth = base + d'.depth + 1 := by rw [hj.depth, Nat.add_assoc, hdepth]; rfl
  have hsteady : Steady (j.perform .advance).now [.leave] := by
    have hbounds := hadvanced.inBounds
    have hdepth₁ := hbounds.depth
    have hposition := hbounds.position
    rw [hnow] at hbounds hdepth₁ hposition ⊢
    refine ⟨hbounds, Nat.le_refl _, fun _ => ?_, ⟨?_, hposition⟩⟩
    · exact hcount ▸ Nat.le_add_left ..
    · exact Nat.le_trans (Nat.sub_le ..) hdepth₁
  refine Ends.bind ((ends_expect hcurrent).mono ?_)
  rintro _ _ ⟨rfl, rfl⟩
  refine ⟨.ok (), _, rfl, ⟨hadvanced.perform hsteady, ?_, trivial⟩, ?_, ?_⟩
  · show (j.perform .advance).now.depth - 1 = base + d'.depth
    rw [hnow]
    exact hcount ▸ rfl
  · exact Nat.le_of_eq (congrArg Descent.position hnow).symm
  · rw [ahead_of_current_some hcurrent]
    exact finish_of_extend _ h (Nat.le_of_succ_le (Nat.le_of_eq hdepth))

/-! ### Loops -/

/-- A round that takes a token is noted as one that does. -/
theorem follows_round {loop : Loop} {body : Parsing α} {f : α → Parsing β} {mid : α → Stand}
    {reach : β → Stand} (hbody : Follows origin base n 1 s body mid)
    (hf : ∀ a n', n' + 1 ≤ n → Follows origin base n' l (mid a) (f a) reach) :
    Follows origin base n (1 + l) s
      (index >>= fun start => body >>= fun a => endRound loop start >>= fun _ => f a) reach := by
  intro j hj hn
  refine Ends.bind ⟨.ok j.now.position, j, rfl, Ends.bind ((hbody j hj hn).mono ?_)⟩
  rintro (e | a) j₁ hr
  · exact hr
  · obtain ⟨hj₁, hposition, hfinish⟩ := hr
    have hlength := length_ahead_add_le hj.continues hj₁.continues hposition hn
    have hnoted : StandsAt origin base (mid a) (j₁.note loop j.now.position) :=
      ⟨hj₁.continues.note hposition, hj₁.depth, hj₁.next⟩
    refine Ends.bind ⟨.ok (), j₁.note loop j.now.position, rfl, ?_⟩
    refine (hf a _ hlength _ hnoted (Nat.le_refl _)).mono ?_
    rintro (e | b) j₂ hr
    · exact ⟨hr.1, hfinish.trans hr.2⟩
    · have hmoved : j₁.now.position + l ≤ j₂.now.position := hr.2.1
      exact ⟨hr.1, by omega, hfinish.trans hr.2.2⟩

/-- A loop, by induction on its bound: every round takes a token, so the tokens ahead run out before
the bound is reached. -/
theorem follows_rounds {loop : Loop} {goesOn : Option Token → Bool} {round : Parsing α}
    (place : List α → Draft)
    (hround : ∀ done, Follows origin base n 1 ⟨place done, fun found => goesOn found = true⟩ round
      fun a => (place (a :: done)).stand)
    {bound : Nat} (hbound : n < bound) (done : List α) :
    Follows origin base n 0 (place done).stand (rounds loop goesOn round bound done)
      fun as => ⟨place as.reverse, fun found => goesOn found = false⟩ := by
  induction bound generalizing n done with
  | zero => exact absurd hbound (Nat.not_lt_zero n)
  | succ bound ih =>
    refine follows_peek fun found _ => ?_
    split
    · rename_i hgoesOn
      refine Follows.weaken (k := 1 + 0) (follows_round (hround done) fun a n' hn' => ?_) rfl
        (fun _ hnext => hnext ▸ hgoesOn) (Nat.le_refl _) (Nat.zero_le _)
      have hround' (done : List α) := (hround done).weaken rfl (fun _ => id) (Nat.le_of_lt hn')
        (Nat.le_refl _)
      exact ih hround' (by omega) (a :: done)
    · rename_i hgoesOn
      refine follows_pure _ ?_ fun _ hnext => hnext ▸ eq_false_of_ne_true hgoesOn
      rw [List.reverse_reverse]
      rfl

theorem follows_roundsWhile {loop : Loop} {goesOn : Option Token → Bool} {round : Parsing α}
    (place : List α → Draft)
    (hround : ∀ done, Follows origin base n 1 ⟨place done, fun found => goesOn found = true⟩ round
      fun a => (place (a :: done)).stand) :
    Follows origin base n 0 (place []).stand (roundsWhile loop goesOn round)
      fun as => ⟨place as.reverse, fun found => goesOn found = false⟩ := by
  intro j hj hn
  have hround' (done : List α) := (hround done).weaken rfl (fun _ => id) hn (Nat.le_refl _)
  exact Ends.bind ⟨.ok j, j, rfl, follows_rounds place hround' (length_ahead_lt j.now) [] j hj
    (Nat.le_refl _)⟩

theorem follows_roundsUntil {loop : Loop} {symbol : Symbol} {round : Parsing α}
    (place : List α → Draft)
    (hround : ∀ done, Follows origin base n 1 ((place done).notFacing symbol) round
      fun a => (place (a :: done)).stand) :
    Follows origin base n 0 (place []).stand (roundsUntil loop symbol round)
      fun as => (place as.reverse).facing (.symbol symbol) := by
  have hrounds : Follows origin base n 0 (place []).stand (roundsUntil loop symbol round) fun as =>
      ⟨place as.reverse, fun found => decide (found ≠ some (.symbol symbol)) = false⟩ :=
    follows_roundsWhile place fun done => (hround done).weaken rfl (fun _ => of_decide_eq_true)
      (Nat.le_refl _) (Nat.le_refl _)
  simp only [decide_eq_false_iff_not, Classical.not_not] at hrounds
  exact hrounds

end Descent

end ConfigLang
