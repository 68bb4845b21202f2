import ConfigLang.Proofs.Evaluation.PathWrites

/-!
# The last write wins

The entries of an object come to a list of writes. What a path holds in the end is what the last
write at it or above it has put there, unless a later one goes below it: then it holds an object.

* `evalEntries_eq_writeAll`: entries are evaluated by making their writes in order.
* `writeAll_eq_error_iff`: the first write that meets an obstacle ends in its error.
* `writeAll_answers`: what a path holds after all writes.
* `object_last_write_wins`: the statement for the entries of an object.
-/

namespace ConfigLang

open Value

/-! ## Writes -/

/-- A value and the key that it is written at. -/
structure Write where
  path : Path
  value : Value

/-- The fields after further writes. -/
def writeAll (fields : Assoc Value) : List Write → Except EvalError (Assoc Value)
  | [] => .ok fields
  | w :: ws => do writeAll (← w.path.insert fields w.value) ws

/-- The writes of an entry: one for a key with a value, one for each field of a spread object. -/
def Entry.writes (env : Environment) (scope : Scope) : Entry → Except EvalError (List Write)
  | .pair path e => do return [⟨path, ← e.eval env scope⟩]
  | .spread name => do
    return (← resolveFields env scope name).map fun field => ⟨⟨field.1, []⟩, field.2⟩

/-- The writes of the entries of an object. -/
def writesOf (env : Environment) (scope : Scope) : List Entry → Except EvalError (List Write)
  | [] => .ok []
  | entry :: entries => do return (← entry.writes env scope) ++ (← writesOf env scope entries)

theorem writeAll_cons (fields : Assoc Value) (w : Write) (ws : List Write) :
    writeAll fields (w :: ws) = w.path.insert fields w.value >>= (writeAll · ws) := rfl

theorem writeAll_append (fields : Assoc Value) (before after : List Write) :
    writeAll fields (before ++ after) = writeAll fields before >>= (writeAll · after) := by
  induction before generalizing fields with
  | nil => rfl
  | cons w before ih =>
    rw [List.cons_append, writeAll_cons, writeAll_cons, bind_assoc]
    exact bind_congr fun fields' => ih fields'

/-! ## Entries as writes -/

/-- The fields of a spread object are written one by one. -/
theorem writeAll_fields (fields : Assoc Value) (source : List (String × Value)) :
    writeAll fields (source.map fun field => ⟨⟨field.1, []⟩, field.2⟩) =
      .ok (fields.insertAll source) := by
  induction source generalizing fields with
  | nil => rfl
  | cons field source ih => exact ih (fields.insert field.1 field.2)

theorem Entry.eval_eq_writeAll {env : Environment} {scope : Scope} {entry : Entry}
    {ws : List Write} (h : entry.writes env scope = .ok ws) (fields : Assoc Value) :
    entry.eval env scope fields = writeAll fields ws := by
  cases entry with
  | pair path e =>
    obtain ⟨v, hv, hws⟩ := bind_eq_ok.1 h
    obtain rfl : [⟨path, v⟩] = ws := Except.ok.inj hws
    rw [Entry.eval, hv, writeAll_cons]
    exact (bind_pure (path.insert fields v)).symm
  | spread name =>
    obtain ⟨source, hsource, hws⟩ := bind_eq_ok.1 h
    obtain rfl := Except.ok.inj hws
    rw [Entry.eval, hsource, writeAll_fields]
    rfl

theorem evalEntries_eq_writeAll {env : Environment} {scope : Scope} {entries : List Entry}
    {ws : List Write} (h : writesOf env scope entries = .ok ws) (fields : Assoc Value) :
    evalEntries env scope fields entries = writeAll fields ws := by
  induction entries generalizing fields ws with
  | nil =>
    obtain rfl : [] = ws := Except.ok.inj h
    rfl
  | cons entry entries ih =>
    obtain ⟨own, hown, h⟩ := bind_eq_ok.1 h
    obtain ⟨others, hothers, h⟩ := bind_eq_ok.1 h
    obtain rfl : own ++ others = ws := Except.ok.inj h
    rw [evalEntries, Entry.eval_eq_writeAll hown, writeAll_append]
    exact bind_congr fun fields' => ih hothers fields'

/-- The entries of an object come to writes where every value has a value and every spread input is
an object. -/
theorem exists_writesOf {env : Environment} {scope : Scope} {entries : List Entry}
    (hpairs : ∀ path e, Entry.pair path e ∈ entries → ∃ v, e.eval env scope = .ok v)
    (hspreads : ∀ name, Entry.spread name ∈ entries →
      ∃ fields, Scope.resolve? env scope name = some (.object fields)) :
    ∃ ws, writesOf env scope entries = .ok ws := by
  induction entries with
  | nil => exact ⟨[], rfl⟩
  | cons entry entries ih =>
    obtain ⟨others, hothers⟩ := ih
      (fun path e he => hpairs path e (List.mem_cons_of_mem _ he))
      (fun name he => hspreads name (List.mem_cons_of_mem _ he))
    have hown : ∃ own, entry.writes env scope = .ok own := by
      cases entry with
      | pair path e =>
        obtain ⟨v, hv⟩ := hpairs path e List.mem_cons_self
        exact ⟨[⟨path, v⟩], bind_eq_ok.2 ⟨v, hv, rfl⟩⟩
      | spread name =>
        obtain ⟨source, hsource⟩ := hspreads name List.mem_cons_self
        have hfields : resolveFields env scope name = .ok source := by
          simp [resolveFields, resolve, hsource, bind, Except.bind, pure, Except.pure]
        exact ⟨_, bind_eq_ok.2 ⟨source, hfields, rfl⟩⟩
    obtain ⟨own, hown⟩ := hown
    exact ⟨own ++ others, bind_eq_ok.2 ⟨own, hown, bind_eq_ok.2 ⟨others, hothers, rfl⟩⟩⟩

/-! ## Failure -/

theorem writeAll_eq_error_split {fields : Assoc Value} {ws : List Write} {e : EvalError} :
    writeAll fields ws = .error e ↔
      ∃ before w after built, ws = before ++ w :: after ∧ writeAll fields before = .ok built ∧
        w.path.insert built w.value = .error e := by
  constructor
  · intro h
    induction ws generalizing fields with
    | nil => cases h
    | cons w ws ih =>
      rcases bind_eq_error.1 h with h | ⟨fields', hw, h⟩
      · exact ⟨[], w, ws, fields, rfl, rfl, h⟩
      · obtain ⟨before, w', after, built, rfl, hbefore, hfail⟩ := ih h
        exact ⟨w :: before, w', after, built, rfl, bind_eq_ok.2 ⟨fields', hw, hbefore⟩, hfail⟩
  · rintro ⟨before, w, after, built, rfl, hbefore, hfail⟩
    rw [writeAll_append, bind_eq_error]
    exact .inr ⟨built, hbefore, bind_eq_error.2 (.inl hfail)⟩

/-- The writes fail at the first one that meets an obstacle in what those before it have built. -/
theorem writeAll_eq_error_iff {fields : Assoc Value} {ws : List Write} {e : EvalError} :
    writeAll fields ws = .error e ↔
      ∃ before w after built parents last found,
        ws = before ++ w :: after ∧ writeAll fields before = .ok built ∧
          FirstObstacle built w.path.segments (parents ++ [last]) found ∧
          e = .chainedNonObject last found.kind := by
  simp only [writeAll_eq_error_split, Path.insert_eq_error_iff]
  constructor
  · rintro ⟨before, w, after, built, hws, hbefore, parents, last, found, hfail⟩
    exact ⟨before, w, after, built, parents, last, found, hws, hbefore, hfail⟩
  · rintro ⟨before, w, after, built, parents, last, found, hws, hbefore, hfail⟩
    exact ⟨before, w, after, built, hws, hbefore, parents, last, found, hfail⟩

/-! ## What a path holds -/

/-- What a path holds if none of the writes covers it: an object if one of them goes below it, and
else what it held before. -/
def Answers (ws : List Write) (q : List String) (before after : Option Value) : Prop :=
  ((∀ w ∈ ws, ¬ w.path.Extends q) → after = before) ∧
    ((∃ w ∈ ws, w.path.Extends q) → ∃ o, after = some (.object o))

theorem answers_nil {q : List String} {held : Option Value} : Answers [] q held held :=
  ⟨fun _ => rfl, fun ⟨_, hw, _⟩ => absurd hw List.not_mem_nil⟩

/-- One write below a path makes it an object, and those after it leave it one. -/
theorem Answers.cons {w : Write} {ws : List Write} {q : List String}
    {before between after : Option Value}
    (hbelow : w.path.Extends q → ∃ o, between = some (.object o))
    (hapart : ¬ w.path.Extends q → between = before) (h : Answers ws q between after) :
    Answers (w :: ws) q before after := by
  obtain ⟨hkeep, hobject⟩ := h
  refine ⟨fun hnone => ?_, ?_⟩
  · obtain ⟨hw, hws⟩ := List.forall_mem_cons.1 hnone
    rw [hkeep hws, hapart hw]
  · rintro ⟨w', hmem, hw'⟩
    by_cases hws : ∃ w ∈ ws, w.path.Extends q
    · exact hobject hws
    · have hnone : ∀ w ∈ ws, ¬ w.path.Extends q := fun w hw he => hws ⟨w, hw, he⟩
      rcases List.mem_cons.1 hmem with rfl | hmem
      · rw [hkeep hnone]
        exact hbelow hw'
      · exact absurd hw' (hnone w' hmem)

theorem writeAll_answers {fields built : Assoc Value} {ws : List Write} {q : List String}
    (h : writeAll fields ws = .ok built) (hq : q ≠ []) (hcovers : ∀ w ∈ ws, ¬ w.path.Covers q) :
    Answers ws q (getPath? (.object fields) q) (getPath? (.object built) q) := by
  induction ws generalizing fields with
  | nil =>
    obtain rfl : fields = built := Except.ok.inj h
    exact answers_nil
  | cons w ws ih =>
    obtain ⟨fields', hw, h⟩ := bind_eq_ok.1 h
    obtain ⟨hcover, hcovers⟩ := List.forall_mem_cons.1 hcovers
    exact .cons (Path.getPath?_of_extends hw hq) (Path.getPath?_of_apart hw hcover)
      (ih h hcovers)

/-- What a path holds is decided by the last write that covers it and those after it. -/
theorem writeAll_answers_last {fields built : Assoc Value} {before after : List Write} {w : Write}
    {rest : List String} (h : writeAll fields (before ++ w :: after) = .ok built)
    (hcovers : ∀ w' ∈ after, ¬ w'.path.Covers (w.path.segments ++ rest)) :
    Answers after (w.path.segments ++ rest) (w.value.getPath? rest)
      (getPath? (.object built) (w.path.segments ++ rest)) := by
  rw [writeAll_append] at h
  obtain ⟨fields', -, h⟩ := bind_eq_ok.1 h
  obtain ⟨fields'', hw, h⟩ := bind_eq_ok.1 h
  have hne : w.path.segments ++ rest ≠ [] := by simp [Path.segments]
  rw [← Path.getPath?_of_covers hw rest]
  exact writeAll_answers h hne hcovers

/-- **The last write wins.** Where every value of the entries has a value and every spread input is
an object, the entries come to writes, in order. They fail exactly where a write meets an obstacle
in what those before it have built, with the error of the first such write and of the first such
obstacle. Otherwise a path holds what the last write that covers it has put there, or nothing if
there is none, unless a later write goes below it: then it holds an object. -/
theorem object_last_write_wins {env : Environment} {scope : Scope} {entries : List Entry}
    (hpairs : ∀ path e, Entry.pair path e ∈ entries → ∃ v, e.eval env scope = .ok v)
    (hspreads : ∀ name, Entry.spread name ∈ entries →
      ∃ fields, Scope.resolve? env scope name = some (.object fields)) :
    ∃ ws, writesOf env scope entries = .ok ws ∧
      (∀ e, evalEntries env scope [] entries = .error e ↔
        ∃ before w after built parents last found,
          ws = before ++ w :: after ∧ writeAll [] before = .ok built ∧
            FirstObstacle built w.path.segments (parents ++ [last]) found ∧
            e = .chainedNonObject last found.kind) ∧
      ∀ built, evalEntries env scope [] entries = .ok built →
        (∀ before w after rest, ws = before ++ w :: after →
          (∀ w' ∈ after, ¬ w'.path.Covers (w.path.segments ++ rest)) →
          Answers after (w.path.segments ++ rest) (w.value.getPath? rest)
            (getPath? (.object built) (w.path.segments ++ rest))) ∧
        ∀ q ≠ [], (∀ w ∈ ws, ¬ w.path.Covers q) →
          Answers ws q none (getPath? (.object built) q) := by
  obtain ⟨ws, hws⟩ := exists_writesOf hpairs hspreads
  refine ⟨ws, hws, fun e => ?_, fun built hbuilt => ⟨?_, fun q hq hcovers => ?_⟩⟩
  · rw [evalEntries_eq_writeAll hws, writeAll_eq_error_iff]
  · rintro before w after rest rfl hcovers
    rw [evalEntries_eq_writeAll hws] at hbuilt
    exact writeAll_answers_last hbuilt hcovers
  · rw [evalEntries_eq_writeAll hws] at hbuilt
    have h := writeAll_answers hbuilt hq hcovers
    rwa [getPath?_empty hq] at h

/-- A spread takes the place of an object, and a later key goes through what it has put there. -/
theorem object_last_write_wins_over_spread :
    evalEntries (fun _ => none) [("$x", .object [("a", .integer 1)])] []
      [.pair ⟨"a", ["b"]⟩ .null, .spread "$x", .pair ⟨"a", ["b", "c"]⟩ .null] =
        .error (.chainedNonObject "a" .integer) := by
  obtain ⟨ws, hws, hfails, -⟩ := @object_last_write_wins (fun _ => none)
    [("$x", .object [("a", .integer 1)])]
    [.pair ⟨"a", ["b"]⟩ .null, .spread "$x", .pair ⟨"a", ["b", "c"]⟩ .null]
    (by
      intro path e he
      rcases (by simpa using he) with ⟨-, rfl⟩ | ⟨-, rfl⟩
      · exact ⟨.null, rfl⟩
      · exact ⟨.null, rfl⟩)
    (by
      intro name hname
      obtain rfl : name = "$x" := by simpa using hname
      exact ⟨[("a", .integer 1)], rfl⟩)
  obtain rfl := Except.ok.inj hws
  have hfirst : FirstObstacle [("a", .integer 1)] ["a", "b", "c"] ["a"] (.integer 1) := by
    refine ⟨⟨by decide, rfl, by decide⟩, ?_⟩
    intro q' found' hq'
    exact List.length_pos_iff.2 hq'.inside.1
  exact (hfails _).2 ⟨[_, _], _, [], _, [], "a", .integer 1, rfl, rfl, hfirst, rfl⟩

end ConfigLang
