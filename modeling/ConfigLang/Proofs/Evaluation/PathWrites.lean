import ConfigLang.Proofs.Evaluation.Evaluating
import ConfigLang.Value.Access
import Mathlib.Data.List.Infix

/-!
# What a write leaves behind

A write at a key of several segments touches the objects on its way and nothing else. What a path
holds after the write depends only on how the path lies to the key:

* `getPath?_of_covers`: at the key and below it stands the new value.
* `getPath?_of_extends`: on the way to the key stand objects.
* `getPath?_of_apart`: elsewhere nothing has changed.

The write fails exactly where something other than an object stands on the way
(`Path.insert_eq_error_iff`).
-/

namespace ConfigLang

open Value

/-! ## What a path holds after a write -/

section
variable {fields fields' : Assoc Value} {segment : String} {rest : List String} {value : Value}

theorem getPath?_insertAt_below (h : insertAt fields segment rest value = .ok fields')
    (q : List String) :
    getPath? (.object fields') (segment :: rest ++ q) = value.getPath? q := by
  induction rest generalizing fields fields' segment with
  | nil =>
    obtain rfl : fields.insert segment value = fields' := Except.ok.inj h
    rw [List.cons_append, getPath?_object, Assoc.get?_insert_self, Option.bind_some,
      List.nil_append]
  | cons next rest ih =>
    obtain ⟨child, child', -, hchild, rfl⟩ := insertAt_cons_eq_ok h
    rw [List.cons_append, getPath?_object, Assoc.get?_insert_self, Option.bind_some, ih hchild]

theorem getPath?_insertAt_above (h : insertAt fields segment rest value = .ok fields')
    {q : List String} (hq : q <+: rest) (hne : q ≠ rest) :
    ∃ o, getPath? (.object fields') (segment :: q) = some (.object o) := by
  induction rest generalizing fields fields' segment q with
  | nil => exact absurd (List.prefix_nil.1 hq) hne
  | cons next rest ih =>
    obtain ⟨child, child', -, hchild, rfl⟩ := insertAt_cons_eq_ok h
    rw [getPath?_object, Assoc.get?_insert_self, Option.bind_some]
    cases q with
    | nil => exact ⟨child', by simp⟩
    | cons key q =>
      obtain ⟨rfl, htail⟩ := List.cons_prefix_cons.1 hq
      exact ih hchild htail fun he => hne (he ▸ rfl)

theorem getPath?_insertAt_apart (h : insertAt fields segment rest value = .ok fields')
    {q : List String} (hq : ¬ q <+: segment :: rest) (hp : ¬ segment :: rest <+: q) :
    getPath? (.object fields') q = getPath? (.object fields) q := by
  induction rest generalizing fields fields' segment q with
  | nil =>
    obtain rfl : fields.insert segment value = fields' := Except.ok.inj h
    cases q with
    | nil => exact absurd List.nil_prefix hq
    | cons key q =>
      have hkey : segment ≠ key := by
        rintro rfl
        exact hp (List.cons_prefix_cons.2 ⟨rfl, List.nil_prefix⟩)
      rw [getPath?_object, getPath?_object, Assoc.get?_insert_of_ne _ _ hkey]
  | cons next rest ih =>
    obtain ⟨child, child', hget, hchild, rfl⟩ := insertAt_cons_eq_ok h
    cases q with
    | nil => exact absurd List.nil_prefix hq
    | cons key q =>
      rw [getPath?_object, getPath?_object]
      by_cases hkey : segment = key
      · subst hkey
        have hq' : ¬ q <+: next :: rest := fun hq' => hq (List.cons_prefix_cons.2 ⟨rfl, hq'⟩)
        have hp' : ¬ next :: rest <+: q := fun hp' => hp (List.cons_prefix_cons.2 ⟨rfl, hp'⟩)
        rw [Assoc.get?_insert_self, Option.bind_some, ih hchild hq' hp']
        rcases hget with hget | ⟨hget, rfl⟩
        · rw [hget, Option.bind_some]
        · have hne : q ≠ [] := fun he => hq' (he ▸ List.nil_prefix)
          rw [hget, Option.bind_none, getPath?_empty hne]
      · rw [Assoc.get?_insert_of_ne _ _ hkey]

end

/-! ## Order of keys -/

/-- A write at a key leaves the keys of the object in place; a new one goes to the end. -/
theorem keys_insertAt {fields fields' : Assoc Value} {segment : String} {rest : List String}
    {value : Value} (h : insertAt fields segment rest value = .ok fields') :
    Assoc.keys fields' =
      if segment ∈ Assoc.keys fields then Assoc.keys fields else Assoc.keys fields ++ [segment] := by
  cases rest with
  | nil =>
    obtain rfl : fields.insert segment value = fields' := Except.ok.inj h
    exact Assoc.keys_insert fields segment value
  | cons next rest =>
    obtain ⟨child, child', -, -, rfl⟩ := insertAt_cons_eq_ok h
    exact Assoc.keys_insert fields segment (.object child')

/-! ## Obstacles -/

/-- Something other than an object stands on the way to a key, at the end of `q`. -/
structure Obstacle (fields : Assoc Value) (key q : List String) (found : Value) : Prop where
  inside : q ≠ [] ∧ q <+: key ∧ q ≠ key
  holds : getPath? (.object fields) q = some found
  kind : found.kind ≠ .object

/-- The obstacle that a walk along a key meets first. -/
def FirstObstacle (fields : Assoc Value) (key q : List String) (found : Value) : Prop :=
  Obstacle fields key q found ∧
    ∀ q' found', Obstacle fields key q' found' → q.length ≤ q'.length

theorem FirstObstacle.unique {fields : Assoc Value} {key q q' : List String} {found found' : Value}
    (h : FirstObstacle fields key q found) (h' : FirstObstacle fields key q' found') :
    q = q' ∧ found = found' := by
  have hlen : q.length = q'.length := Nat.le_antisymm (h.2 _ _ h'.1) (h'.2 _ _ h.1)
  obtain rfl : q = q' :=
    (List.prefix_of_prefix_length_le h.1.inside.2.1 h'.1.inside.2.1 hlen.le).eq_of_length hlen
  have hfound := h.1.holds
  rw [h'.1.holds] at hfound
  exact ⟨rfl, (Option.some.inj hfound).symm⟩

/-- Below a segment that holds an object, or nothing, the obstacles are those of what it holds. -/
theorem obstacle_cons_iff {fields child : Assoc Value} {segment : String} {key q : List String}
    {found : Value}
    (hget : Enters fields segment child) :
    Obstacle fields (segment :: key) q found ↔
      ∃ q', q = segment :: q' ∧ Obstacle child key q' found := by
  have hread {q' : List String} (hq' : q' ≠ []) :
      getPath? (.object fields) (segment :: q') = getPath? (.object child) q' := by
    rw [getPath?_object]
    rcases hget with hget | ⟨hget, rfl⟩
    · rw [hget, Option.bind_some]
    · rw [hget, Option.bind_none, getPath?_empty hq']
  constructor
  · rintro ⟨⟨hne, hq, hqne⟩, hholds, hkind⟩
    cases q with
    | nil => exact absurd rfl hne
    | cons s q' =>
      obtain ⟨rfl, hq'⟩ := List.cons_prefix_cons.1 hq
      have hne' : q' ≠ [] := by
        rintro rfl
        rw [getPath?_object] at hholds
        rcases hget with hget | ⟨hget, -⟩
        · rw [hget] at hholds
          obtain rfl : Value.object child = found := by simpa using hholds
          exact hkind rfl
        · rw [hget] at hholds
          cases hholds
      rw [hread hne'] at hholds
      exact ⟨q', rfl, ⟨hne', hq', fun he => hqne (he ▸ rfl)⟩, hholds, hkind⟩
  · rintro ⟨q', rfl, ⟨hne', hq', hqne⟩, hholds, hkind⟩
    refine ⟨⟨by simp, List.cons_prefix_cons.2 ⟨rfl, hq'⟩, ?_⟩, ?_, hkind⟩
    · exact fun he => hqne (List.cons.inj he).2
    · rw [hread hne', hholds]

theorem not_obstacle_of_insertAt {fields fields' : Assoc Value} {segment : String}
    {rest : List String} {value : Value} (h : insertAt fields segment rest value = .ok fields')
    {q : List String} {found : Value} : ¬ Obstacle fields (segment :: rest) q found := by
  induction rest generalizing fields fields' segment q with
  | nil =>
    rintro ⟨⟨hne, hq, hqne⟩, -, -⟩
    cases q with
    | nil => exact hne rfl
    | cons s q =>
      obtain ⟨rfl, htail⟩ := List.cons_prefix_cons.1 hq
      exact hqne (List.prefix_nil.1 htail ▸ rfl)
  | cons next rest ih =>
    obtain ⟨child, child', hget, hchild, -⟩ := insertAt_cons_eq_ok h
    rw [obstacle_cons_iff hget]
    rintro ⟨q', -, hq'⟩
    exact ih hchild hq'

theorem firstObstacle_of_insertAt {fields : Assoc Value} {segment : String} {rest : List String}
    {value : Value} {e : EvalError} (h : insertAt fields segment rest value = .error e) :
    ∃ parents last found, FirstObstacle fields (segment :: rest) (parents ++ [last]) found ∧
      e = .chainedNonObject last found.kind := by
  induction rest generalizing fields segment with
  | nil => cases h
  | cons next rest ih =>
    rcases insertAt_cons_eq_error h with ⟨v, hget, hkind, rfl⟩ | ⟨child, hget, hchild⟩
    · refine ⟨[], segment, v, ⟨⟨⟨by simp, by simp, by simp⟩, ?_, hkind⟩, ?_⟩, rfl⟩
      · rw [List.nil_append, getPath?_object, hget, Option.bind_some, getPath?_nil]
      · intro q' found' hq'
        exact List.length_pos_iff.2 hq'.inside.1
    · obtain ⟨parents, last, found, ⟨hobstacle, hfirst⟩, rfl⟩ := ih hchild
      refine ⟨segment :: parents, last, found, ⟨?_, ?_⟩, rfl⟩
      · exact (obstacle_cons_iff hget).2 ⟨_, rfl, hobstacle⟩
      · intro q' found' hq'
        obtain ⟨tail, rfl, htail⟩ := (obstacle_cons_iff hget).1 hq'
        exact Nat.succ_le_succ (hfirst _ _ htail)

/-! ## Keys -/

section
variable {path : Path} {fields fields' : Assoc Value} {value : Value}

/-- The key leads to `q` or to something above it. -/
def Path.Covers (path : Path) (q : List String) : Prop := path.segments <+: q

/-- The key leads below `q`. -/
def Path.Extends (path : Path) (q : List String) : Prop :=
  q <+: path.segments ∧ q ≠ path.segments

theorem Path.getPath?_of_covers (h : path.insert fields value = .ok fields') (q : List String) :
    getPath? (.object fields') (path.segments ++ q) = value.getPath? q :=
  getPath?_insertAt_below h q

theorem Path.getPath?_of_extends (h : path.insert fields value = .ok fields') {q : List String}
    (hne : q ≠ []) (hq : path.Extends q) :
    ∃ o, getPath? (.object fields') q = some (.object o) := by
  obtain ⟨hq, hqne⟩ := hq
  cases q with
  | nil => exact absurd rfl hne
  | cons s q =>
    obtain ⟨rfl, htail⟩ := List.cons_prefix_cons.1 hq
    exact getPath?_insertAt_above h htail fun he => hqne (he ▸ rfl)

theorem Path.getPath?_of_apart (h : path.insert fields value = .ok fields') {q : List String}
    (hc : ¬ path.Covers q) (he : ¬ path.Extends q) :
    getPath? (.object fields') q = getPath? (.object fields) q := by
  refine getPath?_insertAt_apart h (fun hq => ?_) hc
  by_cases heq : q = path.segments
  · exact hc (heq ▸ List.prefix_rfl)
  · exact he ⟨hq, heq⟩

/-- **When a write fails**: something other than an object stands on the way to its key, and the
error names what the way meets first. -/
theorem Path.insert_eq_error_iff {e : EvalError} :
    path.insert fields value = .error e ↔
      ∃ parents last found, FirstObstacle fields path.segments (parents ++ [last]) found ∧
        e = .chainedNonObject last found.kind := by
  constructor
  · exact firstObstacle_of_insertAt
  · rintro ⟨parents, last, found, hfirst, rfl⟩
    cases h : path.insert fields value with
    | ok fields' => exact (not_obstacle_of_insertAt h hfirst.1).elim
    | error e =>
      obtain ⟨parents', last', found', hfirst', rfl⟩ := firstObstacle_of_insertAt h
      obtain ⟨hq, rfl⟩ := hfirst.unique hfirst'
      obtain ⟨-, rfl⟩ := List.append_inj' hq rfl |>.imp_right fun h => (List.cons.inj h).1
      rfl

end

end ConfigLang
