import ConfigLang.Proofs.Evaluation.Independence

/-!
# Dotted keys and nested objects

Keys that begin with one segment write into the object that stands there. So entries with such keys
build in place, step by step, the object that the rest of their keys describes.

* `Path.insert_below`: a write below a segment is a write in the object that it enters.
* `evalEntries_dotted`: so are any number of entries with keys below the segment.
* `dotted_keys_eq_nested`: where the segment is new, such entries may be replaced by one that writes
  their object.
-/

namespace ConfigLang

/-! ## Keys below a segment -/

/-- The key that goes through a segment first. -/
def Path.below (segment : String) (path : Path) : Path := ⟨segment, path.segments⟩

/-- Entries without spreads, with their keys below a segment. -/
def dottedEntries (segment : String) (pairs : List (Path × Expr)) : List Entry :=
  pairEntries (pairs.map fun p => (p.1.below segment, p.2))

section
variable {fields child : Assoc Value} {segment : String}

theorem Path.insert_below (h : Enters fields segment child) (path : Path) (value : Value) :
    (path.below segment).insert fields value = do
      let child' ← path.insert child value
      return fields.insert segment (.object child') := by
  show insertAt fields segment (path.first :: path.rest) value = _
  rw [insertAt]
  obtain hget | ⟨hget, rfl⟩ := h
  · rw [hget]
    rfl
  · rw [hget]
    rfl

/-! ## Entries below a segment -/

variable (env : Environment) (scope : Scope)

theorem Entry.eval_below (h : Enters fields segment child) (path : Path) (e : Expr) :
    Entry.eval env scope fields (.pair (path.below segment) e) = do
      let child' ← Entry.eval env scope child (.pair path e)
      return fields.insert segment (.object child') := by
  rw [Entry.eval, Entry.eval, bind_assoc]
  exact bind_congr fun value => Path.insert_below h path value

/-- The first of the entries makes the object, or finds it; those after it go on from there. -/
theorem evalEntries_dotted_cons (h : Enters fields segment child) (p : Path × Expr)
    (pairs : List (Path × Expr)) :
    evalEntries env scope fields (dottedEntries segment (p :: pairs)) =
      Entry.eval env scope child (.pair p.1 p.2) >>= fun child' =>
        evalEntries env scope (fields.insert segment (.object child'))
          (dottedEntries segment pairs) := calc
  _ = Entry.eval env scope fields (.pair (p.1.below segment) p.2) >>=
        (evalEntries env scope · (dottedEntries segment pairs)) := by
    simp only [dottedEntries, pairEntries, List.map_cons, evalEntries]
  _ = _ := by
    rw [Entry.eval_below env scope h, bind_assoc]
    rfl

theorem evalEntries_dotted_of_object (h : fields.get? segment = some (.object child))
    (pairs : List (Path × Expr)) :
    evalEntries env scope fields (dottedEntries segment pairs) = do
      let child' ← evalEntries env scope child (pairEntries pairs)
      return fields.insert segment (.object child') := by
  induction pairs generalizing fields child with
  | nil =>
    show Except.ok fields = Except.ok (fields.insert segment (.object child))
    rw [Assoc.insert_of_get? h]
  | cons p pairs ih =>
    simp only [evalEntries_dotted_cons env scope (.inl h), ih (Assoc.get?_insert_self _ _ _),
      Assoc.insert_insert, pairEntries, List.map_cons, evalEntries, bind_assoc]

/-- Entries below a segment build the object that they describe from what the segment holds, and
put it there. -/
theorem evalEntries_dotted (h : Enters fields segment child) {pairs : List (Path × Expr)}
    (hne : pairs ≠ []) :
    evalEntries env scope fields (dottedEntries segment pairs) = do
      let child' ← evalEntries env scope child (pairEntries pairs)
      return fields.insert segment (.object child') := by
  obtain ⟨p, pairs, rfl⟩ := List.exists_cons_of_ne_nil hne
  simp only [evalEntries_dotted_cons env scope h, Assoc.insert_insert,
    evalEntries_dotted_of_object env scope (Assoc.get?_insert_self _ _ _), pairEntries,
    List.map_cons, evalEntries, bind_assoc]

/-- Below a new segment they build an object of their own, and put it at the end. -/
theorem evalEntries_dotted_of_new (h : segment ∉ Assoc.keys fields) {pairs : List (Path × Expr)}
    (hne : pairs ≠ []) :
    evalEntries env scope fields (dottedEntries segment pairs) = do
      let child ← evalEntries env scope [] (pairEntries pairs)
      return fields ++ [(segment, .object child)] := by
  have henters : Enters fields segment [] := .inr ⟨Assoc.get?_eq_none_iff.2 h, rfl⟩
  simp only [evalEntries_dotted env scope henters hne, Assoc.insert_of_not_mem h]

/-- One entry that writes an object evaluates it apart before it comes to the fields. -/
theorem evalEntries_nested_of_new (h : segment ∉ Assoc.keys fields) (entries : List Entry) :
    evalEntries env scope fields [.pair ⟨segment, []⟩ (.object entries)] = do
      let child ← evalEntries env scope [] entries
      return fields ++ [(segment, .object child)] := by
  have hwrite (value : Value) :
      Path.insert ⟨segment, []⟩ fields value = .ok (fields ++ [(segment, value)]) :=
    congrArg Except.ok (Assoc.insert_of_not_mem h value)
  simp only [evalEntries, Entry.eval, Expr.eval, bind_assoc, pure_bind, hwrite]
  rfl

end

/-! ## The law -/

/-- **Dotted keys are nested objects.** Where the entries before have made no field at a segment, or
fail, any number of entries with keys below it come to the same as one that writes the object they
describe, whatever entries follow: the same fields in the same order, or the same error. Where
nothing fails, both go on with that object as a new field at the end. -/
theorem dotted_keys_eq_nested {env : Environment} {scope : Scope} {segment : String}
    {before after : List Entry} {pairs : List (Path × Expr)} (hne : pairs ≠ [])
    (hnew : ∀ fields, evalEntries env scope [] before = .ok fields →
      segment ∉ Assoc.keys fields) :
    evalEntries env scope [] (before ++ dottedEntries segment pairs ++ after) =
        evalEntries env scope []
          (before ++ [.pair ⟨segment, []⟩ (.object (pairEntries pairs))] ++ after) ∧
      ∀ fields child, evalEntries env scope [] before = .ok fields →
        evalEntries env scope [] (pairEntries pairs) = .ok child →
        evalEntries env scope [] (before ++ dottedEntries segment pairs ++ after) =
          evalEntries env scope (fields ++ [(segment, .object child)]) after := by
  simp only [evalEntries_append]
  constructor
  · cases hfields : evalEntries env scope [] before with
    | error e => rfl
    | ok fields =>
      have hkey := hnew fields hfields
      have hsame : evalEntries env scope fields (dottedEntries segment pairs) =
          evalEntries env scope fields [.pair ⟨segment, []⟩ (.object (pairEntries pairs))] := by
        rw [evalEntries_dotted_of_new env scope hkey hne, evalEntries_nested_of_new env scope hkey]
      exact congrArg (· >>= (evalEntries env scope · after)) hsame
  · intro fields child hfields hchild
    have hdotted : evalEntries env scope fields (dottedEntries segment pairs) =
        .ok (fields ++ [(segment, .object child)]) := by
      rw [evalEntries_dotted_of_new env scope (hnew fields hfields) hne, hchild]
      rfl
    rw [hfields]
    exact congrArg (· >>= (evalEntries env scope · after)) hdotted

/-- Two of the keys share a segment below the first, and the entry that follows goes on there. -/
theorem dotted_keys_eq_nested_of_shared :
    let pairs : List (Path × Expr) :=
      [(⟨"a", ["b"]⟩, .integer 1), (⟨"c", []⟩, .integer 2), (⟨"a", ["d"]⟩, .integer 3)]
    let before : List Entry := [.pair ⟨"x", []⟩ .null]
    let after : List Entry := [.pair ⟨"k", ["a", "b"]⟩ .null]
    let built : Assoc Value := [("x", .null),
      ("k", .object [("a", .object [("b", .null), ("d", .integer 3)]), ("c", .integer 2)])]
    evalEntries (fun _ => none) [] [] (before ++ dottedEntries "k" pairs ++ after) = .ok built ∧
      evalEntries (fun _ => none) [] []
        (before ++ [.pair ⟨"k", []⟩ (.object (pairEntries pairs))] ++ after) = .ok built := by
  intro pairs before after built
  have hne : pairs ≠ [] := List.cons_ne_nil _ _
  have hnew (fields : Assoc Value) (h : evalEntries (fun _ => none) [] [] before = .ok fields) :
      "k" ∉ Assoc.keys fields := by
    obtain rfl : [("x", Value.null)] = fields := Except.ok.inj h
    decide
  obtain ⟨hsame, hgoesOn⟩ :=
    @dotted_keys_eq_nested (fun _ => none) [] "k" before after pairs hne hnew
  have hdotted := hgoesOn [("x", .null)] _ rfl rfl
  exact ⟨hdotted, hsame ▸ hdotted⟩

/-- Where the segment holds an object already, dotted keys add to it and the nested one takes its
place. -/
example :
    evalEntries (fun _ => none) [] []
        [.pair ⟨"k", ["a"]⟩ .null, .pair ⟨"k", ["b"]⟩ .null] =
      .ok [("k", .object [("a", .null), ("b", .null)])] ∧
    evalEntries (fun _ => none) [] []
        [.pair ⟨"k", ["a"]⟩ .null, .pair ⟨"k", []⟩ (.object [.pair ⟨"b", []⟩ .null])] =
      .ok [("k", .object [("b", .null)])] := ⟨rfl, rfl⟩

end ConfigLang
