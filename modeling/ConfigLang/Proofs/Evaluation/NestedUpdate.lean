import ConfigLang.Proofs.Evaluation.PathWrites

/-!
# A write is all or nothing

A write at a key can be carried out in place: a walk down the key that makes a slot for each segment
before it looks at what the slot holds. Such a walk has made nothing yet when it fails, since
nothing stands in its way below what it has made. So it leaves what `Path.insert` computes, or
leaves the fields as they were.

* `insertInPlace_eq`: the walk and the computation agree, on failure too.
* `keys_at_insertAt`: what becomes of the keys of the objects on the way.
* `write_lawful`: failure, contents and order of keys after a write.
-/

namespace ConfigLang

open Value

/-! ## Writing in place -/

/-- Nothing stands in the way of a write into an object without fields. -/
theorem insertAt_empty_ne_error (segment : String) (rest : List String) (value : Value)
    (e : EvalError) : insertAt [] segment rest value ≠ .error e := by
  intro h
  obtain ⟨parents, last, found, ⟨⟨⟨hne, -⟩, hholds, -⟩, -⟩, -⟩ := firstObstacle_of_insertAt h
  rw [getPath?_empty hne] at hholds
  cases hholds

/-- The walk leaves the fields that a write gives, or, if it fails, those that it has found. -/
theorem insertInPlace_eq (segment : String) (rest : List String) (value : Value)
    (fields : Assoc Value) :
    insertInPlace segment rest value fields =
      match insertAt fields segment rest value with
      | .ok fields' => .ok () fields'
      | .error e => .error e fields := by
  induction rest generalizing segment fields with
  | nil => rfl
  | cons next rest ih =>
    rw [insertInPlace, insertAt, slotAt]
    cases hget : fields.get? segment with
    | none =>
      -- The slot is new, and no walk fails in a new object.
      dsimp only
      rw [ih]
      cases hchild : insertAt [] next rest value with
      | error e => exact absurd hchild (insertAt_empty_ne_error _ _ _ e)
      | ok child =>
        dsimp only
        rw [Assoc.insert_insert]
        rfl
    | some v =>
      cases v with
      | object child =>
        dsimp only
        rw [ih]
        cases hchild : insertAt child next rest value with
        | ok child' => rfl
        | error e =>
          dsimp only
          rw [Assoc.insert_of_get? hget]
          rfl
      | _ => rfl

section
variable {path : Path} {fields : Assoc Value} {value : Value}

theorem Path.insertInPlace_eq_ok_iff {fields' : Assoc Value} :
    path.insertInPlace value fields = .ok () fields' ↔ path.insert fields value = .ok fields' := by
  rw [Path.insertInPlace, insertInPlace_eq, Path.insert]
  cases insertAt fields path.first path.rest value <;> simp

theorem Path.insertInPlace_eq_error_iff {e : EvalError} {left : Assoc Value} :
    path.insertInPlace value fields = .error e left ↔
      path.insert fields value = .error e ∧ left = fields := by
  rw [Path.insertInPlace, insertInPlace_eq, Path.insert]
  cases insertAt fields path.first path.rest value <;> simp [eq_comm]

end

/-! ## Keys on the way -/

/-- The objects on the way to a key keep their keys in order. Only the deepest of them may get one
more, the next segment, at its end. -/
theorem keys_at_insertAt {fields fields' held : Assoc Value} {segment : String}
    {rest q : List String} {value : Value} (h : insertAt fields segment rest value = .ok fields')
    (hq : q <+: segment :: rest) (hne : q ≠ segment :: rest)
    (hheld : getPath? (.object fields) q = some (.object held)) :
    ∃ held', getPath? (.object fields') q = some (.object held') ∧
      (Assoc.keys held' = Assoc.keys held ∨
        ∃ key, Assoc.keys held' = Assoc.keys held ++ [key] ∧ q ++ [key] <+: segment :: rest ∧
          ∀ q' o, q' <+: segment :: rest → q' ≠ segment :: rest →
            getPath? (.object fields) q' = some (.object o) → q' <+: q) := by
  induction q generalizing fields fields' segment rest with
  | nil =>
    obtain rfl : fields = held := by simpa using hheld
    refine ⟨fields', by simp, ?_⟩
    have hkeys := keys_insertAt h
    by_cases hsegment : segment ∈ Assoc.keys fields
    · rw [if_pos hsegment] at hkeys
      exact .inl hkeys
    · rw [if_neg hsegment] at hkeys
      refine .inr ⟨segment, hkeys, by simp, ?_⟩
      intro q' o hq' _ ho
      cases q' with
      | nil => exact List.nil_prefix
      | cons s q' =>
        obtain ⟨rfl, -⟩ := List.cons_prefix_cons.1 hq'
        rw [getPath?_object, Assoc.get?_eq_none_iff.2 hsegment] at ho
        cases ho
  | cons s q ih =>
    obtain ⟨rfl, htail⟩ := List.cons_prefix_cons.1 hq
    have hne' : q ≠ rest := fun he => hne (he ▸ rfl)
    cases rest with
    | nil => exact absurd (List.prefix_nil.1 htail) hne'
    | cons next rest =>
      obtain ⟨child, child', henters, hchild, rfl⟩ := insertAt_cons_eq_ok h
      rw [getPath?_object] at hheld
      rcases henters with hget | ⟨hget, -⟩
      · rw [hget, Option.bind_some] at hheld
        obtain ⟨held', hheld', hkeys⟩ := ih hchild htail hne' hheld
        refine ⟨held', ?_, hkeys.imp_right ?_⟩
        · rw [getPath?_object, Assoc.get?_insert_self, Option.bind_some, hheld']
        · intro hnew
          obtain ⟨key, hkey, hnext, hdeepest⟩ := hnew
          refine ⟨key, hkey, List.cons_prefix_cons.2 ⟨rfl, hnext⟩, ?_⟩
          intro q' o hq' hother ho
          cases q' with
          | nil => exact List.nil_prefix
          | cons s' q' =>
            obtain ⟨rfl, htail'⟩ := List.cons_prefix_cons.1 hq'
            rw [getPath?_object, hget, Option.bind_some] at ho
            have hprefix := hdeepest q' o htail' (fun he => hother (he ▸ rfl)) ho
            exact List.cons_prefix_cons.2 ⟨rfl, hprefix⟩
      · rw [hget] at hheld
        cases hheld

/-! ## The law -/

/-- **A write is a lawful update, and all or nothing.** Carried out in place it does what
`Path.insert` says, and leaves the fields untouched when it fails. It fails exactly where something
other than an object stands on the way to its key, and the error names what stands there first.
Otherwise the key holds the value, a path that is neither above nor below the key holds what it
held, and every path above the key holds an object. An object that was there on the way keeps its
keys in order; the deepest of them may get one more key, the next segment, at its end. -/
theorem write_lawful (path : Path) (fields : Assoc Value) (value : Value) :
    (∀ fields', path.insertInPlace value fields = .ok () fields' ↔
      path.insert fields value = .ok fields') ∧
    (∀ e left, path.insertInPlace value fields = .error e left ↔
      path.insert fields value = .error e ∧ left = fields) ∧
    (∀ e, path.insert fields value = .error e ↔
      ∃ parents last found, FirstObstacle fields path.segments (parents ++ [last]) found ∧
        e = .chainedNonObject last found.kind) ∧
    ∀ fields', path.insert fields value = .ok fields' →
      getPath? (.object fields') path.segments = some value ∧
      (∀ q, ¬ path.Covers q → ¬ path.Extends q →
        getPath? (.object fields') q = getPath? (.object fields) q) ∧
      (∀ q, path.Extends q → ∃ o, getPath? (.object fields') q = some (.object o)) ∧
      ∀ q held, path.Extends q → getPath? (.object fields) q = some (.object held) →
        ∃ held', getPath? (.object fields') q = some (.object held') ∧
          (Assoc.keys held' = Assoc.keys held ∨
            ∃ key, Assoc.keys held' = Assoc.keys held ++ [key] ∧ q ++ [key] <+: path.segments ∧
              ∀ q' o, path.Extends q' →
                getPath? (.object fields) q' = some (.object o) → q' <+: q) := by
  refine ⟨fun _ => Path.insertInPlace_eq_ok_iff, fun _ _ => Path.insertInPlace_eq_error_iff,
    fun _ => Path.insert_eq_error_iff, fun fields' h => ⟨?_, ?_, ?_, ?_⟩⟩
  · simpa using Path.getPath?_of_covers h []
  · exact fun q => Path.getPath?_of_apart h
  · intro q hq
    cases q with
    | nil => exact ⟨fields', by simp⟩
    | cons s q => exact Path.getPath?_of_extends h (List.cons_ne_nil s q) hq
  · intro q held hq hheld
    obtain ⟨held', hheld', hkeys⟩ := keys_at_insertAt h hq.1 hq.2 hheld
    refine ⟨held', hheld', hkeys.imp_right ?_⟩
    intro hnew
    obtain ⟨key, hkey, hnext, hdeepest⟩ := hnew
    exact ⟨key, hkey, hnext, fun q' o hq' => hdeepest q' o hq'.1 hq'.2⟩

/-- The walk stops at `b`, below an object that was there. -/
example : Path.insertInPlace ⟨"a", ["b", "c"]⟩ .null [("a", .object [("b", .integer 1)])] =
    .error (.chainedNonObject "b" .integer) [("a", .object [("b", .integer 1)])] := rfl

end ConfigLang
