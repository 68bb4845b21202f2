import ConfigLang.Proofs.Document.DraftDescent
import ConfigLang.Proofs.Document.FirstFault

/-!
# The counter of a descent balances

However many documents are read, one behind the other, the counter of open objects and arrays stays
within the index. A document leaves it as it was. A failure leaves it higher by the objects and
arrays that the tokens taken leave open, also by one that is refused for being nested too deep.

* `Draft.Leaves`: what a reader takes from a draft on, and how many levels it leaves.
* `Steady.balance`: the counter is the difference of two numbers of acts.
* `Descent.Settles`: the same for a reading by recursive descent, in terms of documents.
* `descent_keeps_count`: the statement for any number of readings.
-/

namespace ConfigLang

/-! ## What a reader leaves -/

/-- A token is refused, opens an object or array that nests too deep, or continues the draft. -/
theorem feed_cases (base : Nat) (d : Draft) (t : Token) :
    d.feed base t = .error (d.unexpected (some t)) ∨
    (∃ d', d.extend t = some d' ∧ d'.depth = d.depth + 1 ∧ nestingLimit < base + d'.depth ∧
      (t = .symbol .braceOpen ∨ t = .symbol .bracketOpen) ∧
      d.feed base t = .error (.nestingTooDeep nestingLimit)) ∨
    ∃ d', d.extend t = some d' ∧ d.feed base t = .ok d' := by
  unfold Draft.feed
  cases hextend : d.extend t with
  | none => exact .inl rfl
  | some d' =>
    dsimp only
    split
    · rename_i hdeep
      obtain ⟨hone, ht⟩ := (extend_depth hextend).resolve_left (Nat.not_le_of_lt hdeep.1)
      exact .inr (.inl ⟨d', rfl, hone, hdeep.2, ht, rfl⟩)
    · exact .inr (.inr ⟨d', rfl, rfl⟩)

/-- How a reader ends that goes on from a draft: with the draft behind the tokens that it has taken,
and with the nesting of that draft. -/
inductive Draft.Leaves (base : Nat) (d : Draft) (ts : List Token) :
    Except ParseError Document → Reader → Prop
  | complete {c : Document} (taken : d.extendAll ts = some (.complete c)) :
    Leaves base d ts (.ok c) ⟨[], base⟩
  | unexpected {expected : List String} {found : String} {taken rest : List Token} {d' : Draft}
    (tokens : ts = taken ++ rest) (draft : d.extendAll taken = some d') :
    Leaves base d ts (.error (.unexpectedToken expected found)) ⟨rest, base + d'.depth⟩
  | tooDeep {before rest : List Token} {bracket : Token} {d' : Draft}
    (tokens : ts = before ++ bracket :: rest) (draft : d.extendAll (before ++ [bracket]) = some d')
    (opens : bracket = .symbol .braceOpen ∨ bracket = .symbol .bracketOpen)
    (limit : nestingLimit < base + d'.depth) :
    Leaves base d ts (.error (.nestingTooDeep nestingLimit)) ⟨rest, base + d'.depth⟩

theorem Draft.Leaves.cons {base : Nat} {d d' : Draft} {t : Token} {ts : List Token}
    {result : Except ParseError Document} {r : Reader} (h : d.extend t = some d')
    (hrest : d'.Leaves base ts result r) : d.Leaves base (t :: ts) result r := by
  have hextend (taken : List Token) : d.extendAll (t :: taken) = d'.extendAll taken := by
    rw [extendAll, h]
    rfl
  cases hrest with
  | complete taken => exact .complete ((hextend ts).trans taken)
  | unexpected tokens draft =>
    exact .unexpected (congrArg (t :: ·) tokens) ((hextend _).trans draft)
  | @tooDeep before rest bracket _ tokens draft opens limit =>
    have htokens : t :: ts = (t :: before) ++ bracket :: rest := congrArg (t :: ·) tokens
    exact .tooDeep htokens ((hextend _).trans draft) opens limit

/-- A reader ends so from any draft, by induction on the tokens ahead. -/
theorem leaves_finish (base : Nat) (d : Draft) (ts : List Token) :
    d.Leaves base ts (Reader.finish base d ts).1 (Reader.finish base d ts).2 := by
  induction ts generalizing d with
  | nil =>
    cases d with
    | complete c => exact .complete rfl
    | _ => exact .unexpected (List.append_nil []).symm rfl
  | cons t ts ih =>
    rw [Reader.finish]
    rcases feed_cases base d t with hfeed | ⟨d', hextend, hdepth, hlimit, ht, hfeed⟩ |
      ⟨d', hextend, hfeed⟩
    · rw [hfeed]
      exact .unexpected (List.nil_append _).symm rfl
    · have htokens : t :: ts = [] ++ t :: ts := rfl
      have hdraft : d.extendAll ([] ++ [t]) = some d' := by simp [Draft.extendAll, hextend]
      have hleaves := Draft.Leaves.tooDeep htokens hdraft ht hlimit
      rw [hfeed, Nat.add_assoc, ← hdepth]
      exact hleaves
    · rw [hfeed]
      exact (ih d').cons hextend

theorem leavesOpen_iff_eq {taken : List Token} {d : Draft}
    (h : Draft.start.extendAll taken = some d) (n : Nat) : LeavesOpen taken n ↔ n = d.depth := by
  rw [leavesOpen_iff, h]
  simp [eq_comm]

/-- The reader after a number of readings, each of which goes on where the one before stopped. -/
def Reader.afterReads (r : Reader) : Nat → Reader
  | 0 => r
  | k + 1 => (r.afterReads k).read.2

/-- Behind a brace that was left open a document is read, and the brace stays open. -/
example :
    let ts : List Token := [.symbol .braceOpen, .symbol .braceOpen, .symbol .braceClose]
    (Reader.ofTokens ts).afterReads 1 = ⟨[.symbol .braceOpen, .symbol .braceClose], 1⟩ ∧
      ((Reader.ofTokens ts).afterReads 1).read = (.ok ⟨none, []⟩, ⟨[], 1⟩) :=
  ⟨rfl, rfl⟩

namespace Descent

/-! ## Counts of acts -/

/-- What has been entered and not been left is what the counter has gone up by. -/
theorem Steady.balance {p : Descent} {acts : List Act} (h : Steady p acts) :
    (replay p acts).depth + acts.count .leave = p.depth + acts.count .enter := by
  induction acts generalizing p with
  | nil => rfl
  | cons act acts ih =>
    obtain ⟨-, -, hleave, hrest⟩ := h
    have hbalance : (replay p (act :: acts)).depth + acts.count .leave =
        (act.apply p).depth + acts.count .enter := ih hrest
    cases act with
    | advance =>
      have hdepth : (Act.advance.apply p).depth = p.depth := by
        rw [Act.apply]
        split <;> rfl
      rw [hdepth] at hbalance
      rw [List.count_cons_of_ne (by decide), List.count_cons_of_ne (by decide)]
      exact hbalance
    | enter =>
      have hdepth : (Act.enter.apply p).depth = p.depth + 1 := rfl
      rw [List.count_cons_of_ne (by decide), List.count_cons_self]
      omega
    | leave =>
      have hdepth : (Act.leave.apply p).depth = p.depth - 1 := rfl
      have hone : 1 ≤ p.depth := hleave rfl
      rw [List.count_cons_self, List.count_cons_of_ne (by decide)]
      omega

/-! ## How readings end -/

/-- How a reading from `p` ends at `p'`. A document takes all tokens and leaves the counter as it
was. A failure leaves the counter higher by as many objects and arrays as the tokens taken leave
open, and a bracket that nests too deep is one of these tokens. -/
inductive Settles (p p' : Descent) : Except ParseError Document → Prop
  | complete {c : Document} (tokens : p.ahead = c.tokens)
    (position : p'.position = p'.tokens.length) (depth : p'.depth = p.depth) : Settles p p' (.ok c)
  | unexpected {expected : List String} {found : String} {taken : List Token} {unclosed : Nat}
    (tokens : p.ahead = taken ++ p'.ahead) (leaves : ∀ n, LeavesOpen taken n ↔ n = unclosed)
    (depth : p'.depth = p.depth + unclosed) :
    Settles p p' (.error (.unexpectedToken expected found))
  | tooDeep {before : List Token} {bracket : Token} {unclosed : Nat}
    (tokens : p.ahead = before ++ bracket :: p'.ahead)
    (opens : bracket = .symbol .braceOpen ∨ bracket = .symbol .bracketOpen)
    (leaves : ∀ n, LeavesOpen (before ++ [bracket]) n ↔ n = unclosed)
    (depth : p'.depth = p.depth + unclosed) (limit : nestingLimit < p'.depth) :
    Settles p p' (.error (.nestingTooDeep nestingLimit))

theorem settles_of_read {p p' : Descent} {result : Except ParseError Document}
    (hp' : p'.InBounds) (h : p.reader.read = (result, p'.reader)) : Settles p p' result := by
  have hleaves := leaves_finish p.depth .start p.ahead
  have hread : Reader.finish p.depth .start p.ahead = (result, p'.reader) := h
  rw [hread] at hleaves
  dsimp only at hleaves
  generalize hreader : p'.reader = r at hleaves
  have hahead : p'.ahead = r.rest := congrArg Reader.rest hreader
  have hdepth : p'.depth = r.depth := congrArg Reader.depth hreader
  cases hleaves with
  | complete taken =>
    have hposition : p'.tokens.length ≤ p'.position := List.drop_eq_nil_iff.1 hahead
    exact .complete (extendAll_start_iff.1 taken) (Nat.le_antisymm hp'.position hposition) hdepth
  | unexpected tokens draft =>
    exact .unexpected (hahead ▸ tokens) (leavesOpen_iff_eq draft) hdepth
  | tooDeep tokens draft opens limit =>
    exact .tooDeep (hahead ▸ tokens) opens (leavesOpen_iff_eq draft) hdepth (hdepth ▸ limit)

/-! ## Readings one behind the other -/

/-- Each reading keeps the bounds, and stays at the place of the reader. -/
theorem exists_afterReadings (tokens : List Token) (k : Nat) :
    ∃ j, (Journal.ofTokens tokens).afterReadings k = some j ∧ j.Continues (.ofTokens tokens) ∧
      (Reader.ofTokens tokens).afterReads k = j.now.reader := by
  induction k with
  | zero => exact ⟨_, rfl, .refl ⟨Nat.le_refl _, Nat.zero_le _⟩, rfl⟩
  | succ k ih =>
    obtain ⟨j, hj, hcontinues, hreader⟩ := ih
    obtain ⟨result, j', hrun, hcontinues', hread⟩ := ends_parseDocument hcontinues
    refine ⟨j', ?_, hcontinues', ?_⟩
    · rw [Journal.afterReadings, hj, Option.bind_eq_bind, Option.bind_some, hrun]
      rfl
    · rw [Reader.afterReads, hreader, hread]

/-- **The counter balances.** Any number of readings come to their ends, where the reader does. In
all of them no act leaves the bounds of index and counter, moves the index back or takes the counter
below zero, and each round of a loop takes a token. One more reading raises the counter by the
objects and arrays that it enters and does not leave, and settles as documents say. -/
theorem descent_keeps_count (tokens : List Token) (k : Nat) :
    ∃ j result j', (Journal.ofTokens tokens).afterReadings k = some j ∧
      parseDocument.run.run j = some (result, j') ∧
      (Reader.ofTokens tokens).afterReads k = j.now.reader ∧
      j.now.reader.read = (result, j'.now.reader) ∧
      j'.now.tokens = tokens ∧ j'.Continues (.ofTokens tokens) ∧
      (∃ acts, j'.acts = j.acts ++ acts ∧
        j'.now.depth + acts.count .leave = j.now.depth + acts.count .enter) ∧
      Settles j.now j'.now result := by
  obtain ⟨j, hj, hcontinues, hreader⟩ := exists_afterReadings tokens k
  -- The reading continues its own beginning, and with it all that came before.
  obtain ⟨result, j', hrun, hown, hread⟩ := ends_parseDocument (.refl hcontinues.inBounds)
  obtain ⟨_, _, hrun', hcontinues', -⟩ := ends_parseDocument hcontinues
  cases hrun.symm.trans hrun'
  refine ⟨j, result, j', hj, hrun, hreader, hread, hcontinues'.tokens_eq, hcontinues', ?_, ?_⟩
  · obtain ⟨acts, hacts, hnow, hsteady⟩ := hown.acts
    have hbalance := hsteady.balance
    rw [hnow] at hbalance
    exact ⟨acts, hacts, hbalance⟩
  · exact settles_of_read hcontinues'.inBounds hread

/-- The rounds of a reading are noted where they end, the inner ones first. -/
example :
    let ts : List Token := [.symbol .braceOpen, .segment "a", .symbol .dot, .segment "b",
      .symbol .equals, .symbol .bracketOpen, .symbol .nullWord, .symbol .bracketClose,
      .symbol .braceClose]
    ((Journal.ofTokens ts).afterReadings 1).map Journal.rounds =
      some [⟨.segments, 2, 4⟩, ⟨.items, 6, 7⟩, ⟨.entries, 1, 8⟩] :=
  rfl

end Descent

end ConfigLang
