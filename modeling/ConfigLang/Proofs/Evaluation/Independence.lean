import ConfigLang.Proofs.Evaluation.LastWrite
import Mathlib.Tactic.Choose

/-!
# Independent entries commute

Entries whose keys are apart, none leading to another or above it, cannot stand in each other's way,
and every order of them describes the same tree, but for the order of its keys.

* `exists_writeAll`: such writes succeed.
* `getPath?_of_mem`: at its key and below, each of them decides alone.
* `writeAll_alike`: what two orders of them have built.
* `independent_entries_commute`: the statement for the entries of an object.
-/

namespace ConfigLang

open Value

/-! ## Keys apart, values alike -/

/-- Neither of two keys leads to the other, or to something above it. -/
def Path.Apart (p q : Path) : Prop := ¬ p.Covers q.segments ∧ ¬ q.Covers p.segments

/-- Two values that differ in the order of keys at most: at every path they hold the same, or both
an object, with the same keys. -/
def Value.Alike (v w : Value) : Prop :=
  ∀ q, v.getPath? q = w.getPath? q ∨
    ∃ o o', v.getPath? q = some (.object o) ∧ w.getPath? q = some (.object o') ∧
      ∀ key, key ∈ Assoc.keys o ↔ key ∈ Assoc.keys o'

theorem Path.Apart.symm {p q : Path} (h : p.Apart q) : q.Apart p := ⟨h.2, h.1⟩

/-- Of two keys that are apart at most one covers a path. -/
theorem Path.Apart.not_covers {p p' : Path} (h : p.Apart p') {q : List String} (hq : p.Covers q) :
    ¬ p'.Covers q := by
  intro hq'
  rcases List.prefix_or_prefix_of_prefix hq hq' with hp | hp
  · exact h.1 hp
  · exact h.2 hp

/-- A key does not go below what another, apart from it, covers. -/
theorem Path.Apart.not_extends {p p' : Path} (h : p.Apart p') {q : List String}
    (hq : p.Covers q) : ¬ p'.Extends q := fun hq' => h.1 (hq.trans hq'.1)

/-- An object has a key if it holds something there. -/
theorem mem_keys_iff {v : Value} {q : List String} {o : Assoc Value}
    (h : v.getPath? q = some (.object o)) (key : String) :
    key ∈ Assoc.keys o ↔ v.getPath? (q ++ [key]) ≠ none := by
  rw [getPath?_append, h, Option.bind_some, getPath?_object]
  cases hget : o.get? key with
  | none => simp [Assoc.get?_eq_none_iff.1 hget]
  | some w =>
    have hmem : key ∈ Assoc.keys o := by
      by_contra hkey
      rw [Assoc.get?_eq_none_iff.2 hkey] at hget
      cases hget
    simp [hmem]

/-- Where two values hold the same at every path, or objects both, the objects have the same
keys. -/
theorem alike_of_paths {v w : Value}
    (h : ∀ q, v.getPath? q = w.getPath? q ∨
      ∃ o o', v.getPath? q = some (.object o) ∧ w.getPath? q = some (.object o')) :
    v.Alike w := by
  intro q
  refine (h q).imp_right fun hobjects => ?_
  obtain ⟨o, o', ho, ho'⟩ := hobjects
  refine ⟨o, o', ho, ho', fun key => ?_⟩
  rw [mem_keys_iff ho, mem_keys_iff ho']
  rcases h (q ++ [key]) with heq | ⟨c, c', hc, hc'⟩
  · rw [heq]
  · rw [hc, hc']
    simp

/-! ## Writes at keys apart -/

/-- Writes of which no two stand in each other's way. -/
def Independent (ws : List Write) : Prop := ws.Pairwise fun w w' => w.path.Apart w'.path

theorem Independent.perm {ws ws' : List Write} (h : Independent ws) (hperm : ws'.Perm ws) :
    Independent ws' :=
  (hperm.pairwise_iff Path.Apart.symm).2 h

section
variable {ws : List Write} (hapart : Independent ws)
include hapart

/-- No write makes an obstacle for another. -/
theorem exists_writeAll : ∃ built, writeAll [] ws = .ok built := by
  cases h : writeAll [] ws with
  | ok built => exact ⟨built, rfl⟩
  | error e =>
    obtain ⟨before, w, after, built, parents, last, found, rfl, hbefore, ⟨hobstacle, -⟩, -⟩ :=
      writeAll_eq_error_iff.1 h
    obtain ⟨⟨hne, hinside, -⟩, hholds, hkind⟩ := hobstacle
    have hcovers : ∀ w' ∈ before, ¬ w'.path.Covers (parents ++ [last]) := by
      intro w' hw' hcover
      exact ((List.pairwise_append.1 hapart).2.2 w' hw' w List.mem_cons_self).1
        (hcover.trans hinside)
    obtain ⟨hkeep, hobject⟩ := writeAll_answers hbefore hne hcovers
    rw [hholds, getPath?_empty hne] at hkeep
    rw [hholds] at hobject
    by_cases hbelow : ∃ w' ∈ before, w'.path.Extends (parents ++ [last])
    · obtain ⟨o, ho⟩ := hobject hbelow
      cases ho
      exact absurd rfl hkind
    · have hnone := hkeep fun w' hw' he => hbelow ⟨w', hw', he⟩
      cases hnone

/-- At its key and below, each write decides alone. -/
theorem getPath?_of_mem {built : Assoc Value} (h : writeAll [] ws = .ok built) {w : Write}
    (hw : w ∈ ws) (rest : List String) :
    getPath? (.object built) (w.path.segments ++ rest) = w.value.getPath? rest := by
  obtain ⟨before, after, rfl⟩ := List.append_of_mem hw
  have hcover : w.path.Covers (w.path.segments ++ rest) := List.prefix_append _ _
  have hafter : ∀ w' ∈ after, w.path.Apart w'.path :=
    (List.pairwise_cons.1 (List.pairwise_append.1 hapart).2.1).1
  have hanswers := writeAll_answers_last h fun w' hw' => (hafter w' hw').not_covers hcover
  exact hanswers.1 fun w' hw' => (hafter w' hw').not_extends hcover

/-- Every order of the writes builds the same, but for the order of keys. -/
theorem writeAll_alike {ws' : List Write} (hperm : ws'.Perm ws) {built built' : Assoc Value}
    (h : writeAll [] ws = .ok built) (h' : writeAll [] ws' = .ok built') :
    (Value.object built).Alike (.object built') := by
  have hapart' := hapart.perm hperm
  refine alike_of_paths fun q => ?_
  by_cases hcovered : ∃ w ∈ ws, w.path.Covers q
  · obtain ⟨w, hw, rest, rfl⟩ := hcovered
    left
    rw [getPath?_of_mem hapart h hw, getPath?_of_mem hapart' h' (hperm.mem_iff.2 hw)]
  · have hcovers : ∀ w ∈ ws, ¬ w.path.Covers q := fun w hw he => hcovered ⟨w, hw, he⟩
    cases q with
    | nil => exact .inr ⟨built, built', by simp, by simp⟩
    | cons s q =>
      have hne : s :: q ≠ [] := List.cons_ne_nil s q
      obtain ⟨hkeep, hobject⟩ := writeAll_answers h hne hcovers
      obtain ⟨hkeep', hobject'⟩ := writeAll_answers h' hne
        fun w hw => hcovers w (hperm.mem_iff.1 hw)
      by_cases hbelow : ∃ w ∈ ws, w.path.Extends (s :: q)
      · obtain ⟨w, hw, he⟩ := hbelow
        obtain ⟨o, ho⟩ := hobject ⟨w, hw, he⟩
        obtain ⟨o', ho'⟩ := hobject' ⟨w, hperm.mem_iff.2 hw, he⟩
        exact .inr ⟨o, o', ho, ho'⟩
      · left
        rw [hkeep fun w hw he => hbelow ⟨w, hw, he⟩,
          hkeep' fun w hw he => hbelow ⟨w, hperm.mem_iff.1 hw, he⟩]

end

/-! ## Entries -/

/-- The entries of an object that has no spreads: a key and an expression each. -/
def pairEntries (pairs : List (Path × Expr)) : List Entry := pairs.map fun p => .pair p.1 p.2

/-- Pairs come to one write each. -/
theorem writesOf_pairEntries {env : Environment} {scope : Scope} {pairs : List (Path × Expr)}
    {value : Path × Expr → Value} (h : ∀ p ∈ pairs, p.2.eval env scope = .ok (value p)) :
    writesOf env scope (pairEntries pairs) = .ok (pairs.map fun p => ⟨p.1, value p⟩) := by
  induction pairs with
  | nil => rfl
  | cons p pairs ih =>
    obtain ⟨hp, hpairs⟩ := List.forall_mem_cons.1 h
    have hown : Entry.writes env scope (.pair p.1 p.2) = .ok [⟨p.1, value p⟩] :=
      bind_eq_ok.2 ⟨value p, hp, rfl⟩
    exact bind_eq_ok.2 ⟨_, hown, bind_eq_ok.2 ⟨_, ih hpairs, rfl⟩⟩

/-- **Independent entries commute.** Pairs whose keys are apart and whose expressions have values
make an object in whatever order they stand, and all these objects are alike: at every path they
hold the same, or objects with the same keys. -/
theorem independent_entries_commute {env : Environment} {scope : Scope}
    {pairs : List (Path × Expr)} (hapart : pairs.Pairwise fun p p' => p.1.Apart p'.1)
    (hvalues : ∀ p ∈ pairs, ∃ v, p.2.eval env scope = .ok v) :
    ∃ built, evalEntries env scope [] (pairEntries pairs) = .ok built ∧
      ∀ pairs' : List (Path × Expr), pairs'.Perm pairs →
        ∃ built', evalEntries env scope [] (pairEntries pairs') = .ok built' ∧
          (Value.object built).Alike (.object built') := by
  choose! value hvalue using hvalues
  have hwrites : Independent (pairs.map fun p => ⟨p.1, value p⟩) := List.pairwise_map.2 hapart
  obtain ⟨built, hbuilt⟩ := exists_writeAll hwrites
  refine ⟨built, ?_, fun pairs' hperm => ?_⟩
  · rw [evalEntries_eq_writeAll (writesOf_pairEntries hvalue), hbuilt]
  · have hvalue' : ∀ p ∈ pairs', p.2.eval env scope = .ok (value p) :=
      fun p hp => hvalue p (hperm.mem_iff.1 hp)
    have hperm' := hperm.map fun p => Write.mk p.1 (value p)
    obtain ⟨built', hbuilt'⟩ := exists_writeAll (hwrites.perm hperm')
    refine ⟨built', ?_, writeAll_alike hwrites hperm' hbuilt hbuilt'⟩
    rw [evalEntries_eq_writeAll (writesOf_pairEntries hvalue'), hbuilt']

/-- The key that comes second finds the object made for the first, whichever that is. -/
theorem independent_entries_commute_of_siblings :
    let pairs : List (Path × Expr) := [(⟨"a", ["b"]⟩, .integer 1), (⟨"a", ["c"]⟩, .integer 2)]
    evalEntries (fun _ => none) [] [] (pairEntries pairs) =
        .ok [("a", .object [("b", .integer 1), ("c", .integer 2)])] ∧
      evalEntries (fun _ => none) [] [] (pairEntries pairs.reverse) =
        .ok [("a", .object [("c", .integer 2), ("b", .integer 1)])] ∧
      (Value.object [("a", .object [("b", .integer 1), ("c", .integer 2)])]).Alike
        (.object [("a", .object [("c", .integer 2), ("b", .integer 1)])]) := by
  intro pairs
  have hapart : pairs.Pairwise fun p p' => p.1.Apart p'.1 := by
    refine List.pairwise_pair.2 ⟨?_, ?_⟩ <;> simp [Path.Covers, Path.segments]
  have hvalues : ∀ p ∈ pairs, ∃ v, p.2.eval (fun _ => none) [] = .ok v := by
    intro p hp
    rcases List.mem_pair.1 hp with rfl | rfl
    · exact ⟨.integer 1, rfl⟩
    · exact ⟨.integer 2, rfl⟩
  obtain ⟨built, hbuilt, hall⟩ := independent_entries_commute hapart hvalues
  obtain ⟨built', hbuilt', halike⟩ := hall pairs.reverse (List.reverse_perm pairs)
  cases Except.ok.inj hbuilt
  cases Except.ok.inj hbuilt'
  exact ⟨hbuilt, hbuilt', halike⟩

end ConfigLang
