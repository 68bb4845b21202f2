import ConfigLang.Proofs.Document.DescentRules

/-!
# Descents go through drafts

Each function of a reading by recursive descent goes from one draft to another, as the rules say it
of its steps. From top to bottom this gives the agreement with the reader.

* `follows_parsePath`, `follows_parseString`, `follows_parseSpread`: constructs with no nesting.
* `followsValues`: values, by induction on the tokens ahead; objects and arrays nest in them.
* `follows_parseBlock`, `follows_body`, `follows_parseDocument`: documents.
* `ends_parseDocument`: a reading of a document comes to its end, with the result of the reader and
  at its place.
-/

namespace ConfigLang.Descent

variable {origin : Journal} {base n k : Nat} {α : Type} {d d' : Draft} {s : Stand}

/-! ## Keys, strings and spreads -/

theorem follows_parseSegment (owner : Owner) (done : List Entry) (path : Path) :
    Follows origin base n 1 ((Draft.key owner done path).facing (.symbol .dot)) parseSegment
      fun s => (Draft.key owner done (path.push s)).stand := by
  have hdot : (Draft.key owner done path).extend (.symbol .dot) = some (.keyDot owner done path) :=
    rfl
  have hsegment (n : Nat) : Follows origin base n 1 (Draft.keyDot owner done path).stand
      expectSegment fun s => (Draft.key owner done (path.push s)).stand :=
    follows_expectSegment (fun _ => rfl) (fun _ => rfl) fun _ _ hnot => ⟨rfl, hnot⟩
  exact ((follows_advance hdot rfl).bind fun _ n _ => hsegment n).least (by decide)

theorem follows_segments (owner : Owner) (done : List Entry) (first : String) :
    Follows origin base n 0 (Draft.key owner done ⟨first, []⟩).stand
      (roundsWhile .segments (fun found => decide (found = some (.symbol .dot))) parseSegment)
      fun rest => (Draft.key owner done ⟨first, rest⟩).notFacing .dot := by
  have hround (rest : List String) : Follows origin base n 1
      ⟨.key owner done ⟨first, rest.reverse⟩,
        fun found => decide (found = some (.symbol .dot)) = true⟩ parseSegment
      fun s => (Draft.key owner done ⟨first, (s :: rest).reverse⟩).stand := by
    simp only [decide_eq_true_eq, List.reverse_cons]
    exact follows_parseSegment owner done ⟨first, rest.reverse⟩
  have hrounds : Follows origin base n 0 _ (roundsWhile .segments _ parseSegment) _ :=
    follows_roundsWhile (fun rest => Draft.key owner done ⟨first, rest.reverse⟩) hround
  simp only [List.reverse_reverse, decide_eq_false_iff_not] at hrounds
  exact hrounds

theorem follows_parsePath (owner : Owner) (done : List Entry) (text : String) :
    Follows origin base n 1 ((Draft.entries owner done).facing (.segment text)) parsePath
      fun path => (Draft.key owner done path).notFacing .dot := by
  have hfirst : Follows origin base n 1 ((Draft.entries owner done).facing (.segment text))
      expectSegment fun first => (Draft.key owner done ⟨first, []⟩).stand :=
    follows_expectSegment (fun _ => rfl) (fun _ => rfl) fun _ hfound hnot =>
      absurd ⟨text, hfound⟩ hnot
  exact hfirst.bind fun first _ _ =>
    (follows_segments owner done first).returns (Path.mk first) fun _ => rfl

theorem extend_parts {place : Context} {done : List Part} {t : Token} {part : Part}
    (h : Part.ofToken? t = some part) :
    (Draft.parts place done).extend t = some (.parts place (part :: done)) := by
  cases t <;> cases h <;> rfl

theorem follows_parsePart (place : Context) (done : List Part) :
    Follows origin base n 1 ((Draft.parts place done).notFacing .quote) parsePart
      fun part => (Draft.parts place (part :: done)).stand := by
  refine follows_peek fun found hfound => ?_
  split
  · rename_i part hpart
    obtain ⟨t, rfl, ht⟩ := Option.bind_eq_some_iff.1 hpart
    exact (follows_advance (extend_parts ht) rfl).returns (fun _ => part) fun _ => rfl
  · rename_i hnone
    refine follows_unexpected ?_
    rintro _ rfl
    exact ⟨rfl, not_or.2 ⟨hfound, not_not_intro hnone⟩⟩

theorem follows_parseString {place : Context}
    (h : d.extend (.symbol .quote) = some (.parts place [])) (hdepth : place.depth = d.depth) :
    Follows origin base n 1 (d.facing (.symbol .quote)) parseString
      fun parts => (place.fill (.string parts)).stand := by
  have hparts (n : Nat) : Follows origin base n 0 (Draft.parts place []).stand
      (roundsUntil .parts .quote parsePart)
      fun parts => (Draft.parts place parts.reverse).facing (.symbol .quote) :=
    follows_roundsUntil (Draft.parts place) (follows_parsePart place)
  have hclose (parts : List Part) : (Draft.parts place parts.reverse).extend (.symbol .quote) =
      some (place.fill (.string parts)) := by
    simp [Draft.extend]
  refine Follows.least (k := 1 + (0 + 1)) ?_ (by decide)
  exact (follows_expect_facing h hdepth).bind fun _ n _ => (hparts n).bind fun parts _ _ =>
    (follows_expect_facing (hclose parts) (fill_depth place _)).returns (fun _ => parts)
      fun _ => rfl

theorem follows_parseSpread {reach : String → Draft}
    (h : d.extend (.symbol .spread) = some d') (hdepth : d'.depth = d.depth)
    (hname : ∀ name, d'.extend (.input name) = some (reach name))
    (hreach : ∀ name, (reach name).depth = d'.depth)
    (hstop : ∀ found, (¬ ∃ name, found = some (.input name)) → d'.StopsAt found ["<input>"]) :
    Follows origin base n 1 (d.facing (.symbol .spread)) parseSpread
      fun name => (reach name).stand := by
  have hinput (n : Nat) : Follows origin base n 1 d'.stand expectInput
      fun name => (reach name).stand :=
    follows_expectInput hname hreach fun found _ => hstop found
  exact ((follows_expect_facing h hdepth).bind fun _ n _ => hinput n).least (by decide)

/-! ## Expressions -/

/-- Before a token that neither ends the array nor spreads an input, an item is a value. -/
theorem follows_items {m : Parsing α} {reach : α → Stand} {place : Context} {done : List Item}
    (h : Follows origin base n k (Draft.value (.item place done)).stand m reach) :
    Follows origin base n k
      ⟨.items place done, fun found =>
        found ≠ some (.symbol .bracketClose) ∧ found ≠ some (.symbol .spread)⟩ m reach := by
  intro j hj hn
  have hfinish : Reader.finish base (.items place done) j.now.ahead =
      Reader.finish base (.value (.item place done)) j.now.ahead := by
    obtain ⟨hclose, hspread⟩ := hj.next
    cases hcurrent : j.now.current with
    | none =>
      rw [ahead_of_current_none hcurrent]
      rfl
    | some t =>
      have hextend : (Draft.items place done).extend t =
          (Draft.value (.item place done)).extend t := by
        rw [hcurrent] at hclose hspread
        cases t with
        | symbol symbol => cases symbol <;> simp_all [Draft.extend]
        | _ => rfl
      rw [ahead_of_current_some hcurrent, Reader.finish, Reader.finish, Draft.feed, Draft.feed,
        hextend]
      rfl
  refine (h j ⟨hj.continues, hj.depth, trivial⟩ hn).mono ?_
  rintro (e | a) j' hr
  · exact ⟨hr.1, hfinish.trans hr.2⟩
  · exact ⟨hr.1, hr.2.1, hfinish.trans hr.2.2⟩

/-- What is asked of the values inside an object or array: one with at most `n` tokens ahead fills
its place. -/
def FollowsValues (origin : Journal) (base n : Nat) (value : Parsing Expr) : Prop :=
  ∀ place, Follows origin base n 1 (Draft.value place).stand value fun e => (place.fill e).stand

theorem follows_parseItem {value : Parsing Expr} (hvalue : FollowsValues origin base n value)
    (place : Context) (done : List Item) :
    Follows origin base n 1 ((Draft.items place done).notFacing .bracketClose) (parseItem value)
      fun item => (Draft.items place (item :: done)).stand := by
  rw [parseItem]
  refine follows_check ?_ ?_
  · have hspread : Follows origin base n 1 ((Draft.items place done).facing (.symbol .spread))
        parseSpread fun name => (Draft.items place (.spread name :: done)).stand :=
      follows_parseSpread rfl rfl (fun _ => rfl) (fun _ => rfl) fun _ hnot => ⟨rfl, hnot⟩
    exact hspread.returns Item.spread fun _ => rfl
  · exact (follows_items (hvalue (.item place done))).returns Item.value fun _ => rfl

section
variable {value : Parsing Expr} (hvalue : ∀ n' < n, FollowsValues origin base n' value)
include hvalue

theorem follows_parseEntry (owner : Owner) (done : List Entry) :
    Follows origin base n 1 ((Draft.entries owner done).notFacing .braceClose) (parseEntry value)
      fun entry => (Draft.entries owner (entry :: done)).stand := by
  rw [parseEntry]
  refine follows_peek fun found hfound => ?_
  split
  · have hspread : Follows origin base n 1 ((Draft.entries owner done).facing (.symbol .spread))
        parseSpread fun name => (Draft.entries owner (.spread name :: done)).stand :=
      follows_parseSpread rfl rfl (fun _ => rfl) (fun _ => rfl) fun _ hnot => ⟨rfl, hnot⟩
    exact hspread.returns Entry.spread fun _ => rfl
  · rename_i text
    refine Follows.least (k := 1 + (1 + 1)) ?_ (by decide)
    refine (follows_parsePath owner done text).bind fun path n₁ h₁ => ?_
    have hdepth : (Draft.value (owner.entry done path)).depth = owner.depth := by
      cases owner <;> rfl
    have hfill (e : Expr) : (owner.entry done path).fill e =
        .entries owner (.pair path e :: done) := by
      cases owner <;> rfl
    have hequals : Follows origin base n₁ 1 ((Draft.key owner done path).notFacing .dot)
        (expect .equals) fun _ => (Draft.value (owner.entry done path)).stand :=
      follows_expect rfl hdepth fun _ hdot hnot => ⟨rfl, not_or.2 ⟨hdot, hnot⟩⟩
    exact hequals.bind fun _ n₂ h₂ => (hvalue n₂ (by omega) (owner.entry done path)).returns
      (Entry.pair path) fun e => congrArg Draft.stand (hfill e)
  · rename_i hspread hsegment
    refine follows_unexpected ?_
    rintro _ rfl
    exact ⟨rfl, not_or.2 ⟨hfound, not_or.2 ⟨hspread, not_exists.2 hsegment⟩⟩⟩

theorem follows_parseObject {owner : Owner}
    (h : s.draft.extend (.symbol .braceOpen) = some (.entries owner []))
    (hdepth : owner.depth = s.draft.depth + 1)
    (hstop : ∀ found, s.next found → found ≠ some (.symbol .braceOpen) →
      s.draft.StopsAt found [Symbol.braceOpen.text]) :
    Follows origin base n 1 s (parseObject value)
      fun entries => (owner.close entries.reverse).stand := by
  have hentries (n' : Nat) (hn' : n' + 1 ≤ n) :
      Follows origin base n' 0 (Draft.entries owner []).stand
        (roundsUntil .entries .braceClose (parseEntry value))
        fun entries => (Draft.entries owner entries.reverse).facing (.symbol .braceClose) :=
    follows_roundsUntil (Draft.entries owner)
      (follows_parseEntry (fun n'' hn'' => hvalue n'' (by omega)) owner)
  rw [parseObject]
  refine Follows.least (k := 1 + (0 + 1)) ?_ (by decide)
  refine Follows.assoc ((follows_open h hdepth hstop).bind fun _ n₁ h₁ => ?_)
  refine (hentries n₁ h₁).bind fun entries n₂ h₂ => Follows.assoc ?_
  exact (follows_close rfl (close_depth owner _)).returns (fun _ => entries) fun _ => rfl

theorem follows_parseArray {place : Context}
    (h : d.extend (.symbol .bracketOpen) = some (.items place []))
    (hdepth : place.depth = d.depth) :
    Follows origin base n 1 (d.facing (.symbol .bracketOpen)) (parseArray value)
      fun items => (place.fill (.array items)).stand := by
  have hitems (n' : Nat) (hn' : n' + 1 ≤ n) :
      Follows origin base n' 0 (Draft.items place []).stand
        (roundsUntil .items .bracketClose (parseItem value))
        fun items => (Draft.items place items.reverse).facing (.symbol .bracketClose) :=
    follows_roundsUntil (Draft.items place) (follows_parseItem (hvalue n' hn') place)
  have hclose (items : List Item) : (Draft.items place items.reverse).extend
      (.symbol .bracketClose) = some (place.fill (.array items)) := by
    simp [Draft.extend]
  have hopen : Follows origin base n 1 (d.facing (.symbol .bracketOpen))
      (expect .bracketOpen >>= fun _ => enter) fun _ => (Draft.items place []).stand :=
    follows_open h (congrArg Nat.succ hdepth) fun _ hfound hnot => absurd hfound hnot
  rw [parseArray]
  refine Follows.least (k := 1 + (0 + 1)) ?_ (by decide)
  refine Follows.assoc (hopen.bind fun _ n₁ h₁ => ?_)
  refine (hitems n₁ h₁).bind fun items n₂ h₂ => Follows.assoc ?_
  exact (follows_close (hclose items) (congrArg Nat.succ (fill_depth place _))).returns
    (fun _ => items) fun _ => rfl

end

theorem extend_value {place : Context} {t : Token} {e : Expr} (h : Expr.ofToken? t = some e) :
    (Draft.value place).extend t = some (place.fill e) := by
  cases t with
  | symbol symbol => cases symbol <;> cases h <;> rfl
  | _ => cases h <;> rfl

/-- A value with enough levels, by induction on these: a value inside has fewer tokens ahead. -/
theorem followsValues {levels : Nat} (hlevels : n < levels) :
    FollowsValues origin base n (parseValue levels) := by
  induction levels generalizing n with
  | zero => exact absurd hlevels (Nat.not_lt_zero n)
  | succ levels ih =>
    intro place
    have hvalue (n' : Nat) (hn' : n' < n) : FollowsValues origin base n' (parseValue levels) :=
      ih (by omega)
    refine follows_peek fun found _ => ?_
    split
    · exact (follows_parseString (d := .value place) rfl rfl).returns Expr.string fun _ => rfl
    · have hobject : Follows origin base n 1 ((Draft.value place).facing (.symbol .braceOpen))
          (parseObject (parseValue levels))
          fun entries => ((Owner.expr place).close entries.reverse).stand :=
        follows_parseObject hvalue rfl rfl fun _ hfound hnot => absurd hfound hnot
      refine hobject.returns Expr.object fun entries => ?_
      rw [Owner.close, List.reverse_reverse]
    · exact (follows_parseArray (d := .value place) hvalue rfl rfl).returns Expr.array
        fun _ => rfl
    · rename_i hquote hbrace hbracket
      split
      · rename_i e he
        obtain ⟨t, rfl, ht⟩ := Option.bind_eq_some_iff.1 he
        exact (follows_advance (extend_value ht) (fill_depth place e)).returns (fun _ => e)
          fun _ => rfl
      · rename_i hnone
        refine follows_unexpected ?_
        rintro _ rfl
        exact ⟨rfl, not_or.2 ⟨hquote, not_or.2 ⟨hbrace, not_or.2 ⟨hbracket, not_not_intro hnone⟩⟩⟩⟩

/-! ## Documents -/

theorem follows_end (c : Document) :
    Follows origin base n 0 (Draft.complete c).stand
      (do if (← get).now.isAtEnd then return c else unexpected [Token.endLabel])
      fun c => ⟨.complete c, (· = none)⟩ := by
  intro j hj hn
  refine Ends.bind ⟨.ok j, j, rfl, ?_⟩
  have hsame : StandsAt origin base ⟨.complete c, (· = j.now.current)⟩ j :=
    ⟨hj.continues, hj.depth, rfl⟩
  dsimp only
  by_cases hend : j.now.isAtEnd
  · have hcurrent : j.now.current = none := List.getElem?_eq_none (by simpa [isAtEnd] using hend)
    have hpure : Follows origin base n 0 ⟨.complete c, (· = j.now.current)⟩ (pure c)
        fun c => ⟨.complete c, (· = none)⟩ :=
      follows_pure c rfl fun _ hfound => hfound.trans hcurrent
    rw [if_pos hend]
    exact hpure j hsame hn
  · have hlt : j.now.position < j.now.tokens.length := by simpa [isAtEnd] using hend
    have hstop : Follows origin base n 0 ⟨.complete c, (· = j.now.current)⟩
        (unexpected [Token.endLabel]) fun c => ⟨.complete c, (· = none)⟩ := by
      refine follows_unexpected ?_
      rintro _ rfl
      rw [Descent.current, List.getElem?_eq_getElem hlt]
      exact ⟨rfl, Option.some_ne_none _⟩
    rw [if_neg hend]
    exact hstop j hsame hn

section
variable {value : Parsing Expr} (hvalue : ∀ n' < n, FollowsValues origin base n' value)
include hvalue

theorem follows_parseBinding (done : List Binding) :
    Follows origin base n 1 ((Draft.bindings done).notFacing .braceClose) (parseBinding value)
      fun b => (Draft.bindings (b :: done)).stand := by
  have hinput : Follows origin base n 1 ((Draft.bindings done).notFacing .braceClose) expectInput
      fun name => (Draft.bindingName done name).stand :=
    follows_expectInput (fun _ => rfl) (fun _ => rfl) fun _ hclose hnot =>
      ⟨rfl, not_or.2 ⟨hclose, hnot⟩⟩
  have hequals (n : Nat) (name : String) : Follows origin base n 1
      (Draft.bindingName done name).stand (expect .equals)
      fun _ => (Draft.value (.binding done name)).stand :=
    follows_expect rfl rfl fun _ _ hnot => ⟨rfl, hnot⟩
  refine Follows.least (k := 1 + (1 + 1)) ?_ (by decide)
  exact hinput.bind fun name n₁ _ => (hequals n₁ name).bind fun _ n₂ _ =>
    (hvalue n₂ (by omega) (.binding done name)).returns (Binding.mk name) fun _ => rfl

theorem follows_parseBlock :
    Follows origin base n 1 (Draft.start.facing (.symbol .letWord)) (parseBlock value)
      fun bs => (Draft.body bs).stand := by
  have hlet : Follows origin base n 1 (Draft.start.facing (.symbol .letWord)) (expect .letWord)
      fun _ => Draft.block.stand :=
    follows_expect_facing rfl rfl
  have hopen (n : Nat) : Follows origin base n 1 Draft.block.stand (expect .braceOpen)
      fun _ => (Draft.bindings []).stand :=
    follows_expect rfl rfl fun _ _ hnot => ⟨rfl, hnot⟩
  have hbindings (n' : Nat) (hn' : n' ≤ n) : Follows origin base n' 0 (Draft.bindings []).stand
      (roundsUntil .bindings .braceClose (parseBinding value))
      fun bs => (Draft.bindings bs.reverse).facing (.symbol .braceClose) :=
    follows_roundsUntil Draft.bindings
      (follows_parseBinding fun n'' hn'' => hvalue n'' (Nat.lt_of_lt_of_le hn'' hn'))
  have hclose (n : Nat) (bs : List Binding) : Follows origin base n 1
      ((Draft.bindings bs.reverse).facing (.symbol .braceClose)) (expect .braceClose)
      fun _ => (Draft.blockEnd bs.reverse).stand :=
    follows_expect_facing rfl rfl
  have hin (n : Nat) (bs : List Binding) : Follows origin base n 1
      (Draft.blockEnd bs.reverse).stand (expect .inWord) fun _ => (Draft.body bs).stand :=
    follows_expect (by simp [Draft.stand, Draft.extend]) rfl fun _ _ hnot => ⟨rfl, hnot⟩
  refine Follows.least (k := 1 + (1 + (0 + (1 + 1)))) ?_ (by decide)
  exact hlet.bind fun _ n₁ _ => (hopen n₁).bind fun _ n₂ _ =>
    (hbindings n₂ (by omega)).bind fun bs n₃ _ => (hclose n₃ bs).bind fun _ n₄ _ =>
      (hin n₄ bs).returns (fun _ => bs) fun _ => rfl

/-- The stand behind the block of bindings, or where there is none. -/
def bodyStand : Option (List Binding) → Stand
  | none => Draft.start.notFacing .letWord
  | some bs => (Draft.body bs).stand

theorem follows_parseBlock? :
    Follows origin base n 0 Draft.start.stand (parseBlock? value) bodyStand := by
  refine follows_check ?_ ?_
  · exact ((follows_parseBlock hvalue).returns some fun _ => rfl).least (Nat.zero_le _)
  · exact follows_pure none rfl fun _ hfound => hfound.2

theorem follows_body (bindings : Option (List Binding)) :
    Follows origin base n 1 (bodyStand bindings) (parseObject value)
      fun entries => (Draft.complete ⟨bindings, entries⟩).stand := by
  have hobject : Follows origin base n 1 (bodyStand bindings) (parseObject value)
      fun entries => ((Owner.body bindings).close entries.reverse).stand := by
    refine follows_parseObject hvalue ?_ ?_ ?_
    · cases bindings <;> rfl
    · cases bindings <;> rfl
    · cases bindings with
      | none => exact fun _ hlet hnot => ⟨rfl, not_or.2 ⟨hlet, hnot⟩⟩
      | some bs => exact fun _ _ hnot => ⟨rfl, hnot⟩
  simpa [Owner.close] using hobject

theorem follows_parseDocumentWith :
    Follows origin base n 0 Draft.start.stand (parseDocumentWith value)
      fun c => ⟨.complete c, (· = none)⟩ := by
  have hrest (n' : Nat) (hn' : n' ≤ n) (bindings : Option (List Binding)) :
      Follows origin base n' 1 (bodyStand bindings) (do
        let body ← parseObject value
        if (← get).now.isAtEnd then return ⟨bindings, body⟩ else unexpected [Token.endLabel])
        fun c => ⟨.complete c, (· = none)⟩ :=
    (follows_body (fun n'' hn'' => hvalue n'' (by omega)) bindings).bind fun body _ _ =>
      follows_end ⟨bindings, body⟩
  exact ((follows_parseBlock? hvalue).bind fun bindings n' hn' =>
    hrest n' hn' bindings).least (Nat.zero_le _)

end

/-- A reading of a document does what a reader does from the same place. -/
theorem ends_parseDocument {j : Journal} (hj : j.Continues origin) :
    Ends parseDocument j fun r j' =>
      j'.Continues origin ∧ j.now.reader.read = (r, j'.now.reader) := by
  have hstands : StandsAt origin j.now.depth Draft.start.stand j := ⟨hj, rfl, trivial⟩
  have hvalue (n : Nat) (hn : n < j.now.ahead.length) :
      FollowsValues origin j.now.depth n (parseValue (j.now.tokens.length + 1)) :=
    followsValues (Nat.lt_trans hn (length_ahead_lt j.now))
  refine Ends.bind ⟨.ok j, j, rfl, ?_⟩
  refine (follows_parseDocumentWith hvalue j hstands (Nat.le_refl _)).mono ?_
  rintro (e | c) j' hr
  · exact hr
  · obtain ⟨⟨hcontinues, hdepth, hnext⟩, -, hfinish⟩ := hr
    have hreader : j'.now.reader = ⟨[], j.now.depth⟩ := by
      rw [reader, ahead_of_current_none hnext, hdepth]
      rfl
    refine ⟨hcontinues, ?_⟩
    rw [hreader]
    rw [ahead_of_current_none hnext] at hfinish
    exact hfinish

end ConfigLang.Descent
