import ConfigLang.Text.EditDistance

/-!
# Suggestions

The advice for a name that is not bound: the bound name nearest to it, if one is near enough.
-/

namespace ConfigLang.Suggestion

/-- The better of the best candidate so far and the next: only a smaller distance replaces it. -/
def better (name : String) (limit : Nat) (best : Option (String × Nat)) (candidate : String) :
    Option (String × Nat) :=
  let distance := Text.editDistance name.toList candidate.toList
  if distance ≤ limit ∧ best.all (distance < ·.2) then some (candidate, distance) else best

/-- The first of the candidates nearest to `name`, within `limit` edits. -/
def nearest? (name : String) (candidates : List String) (limit : Nat) : Option String :=
  (candidates.foldl (better name limit) none).map Prod.fst

/-- How many edits a name may differ by: a third of its size in bytes, but two or three. -/
def editLimit (name : String) : Nat := min 3 (max 2 (name.utf8ByteSize / 3))

/-- How many bound names are listed at most. -/
def listingLimit : Nat := 5

/-- The advice for a name that is none of the bound ones. -/
def forUnbound (name : String) (bound : List String) : String :=
  match nearest? name bound (editLimit name) with
  | some candidate => "did you mean '" ++ candidate ++ "'?"
  | none =>
    if bound.isEmpty then
      "no inputs are bound; declare one with `let \x7b $name = ... \x7d in \x7b ... \x7d`"
    else if bound.length ≤ listingLimit then "bound inputs: " ++ String.intercalate ", " bound
    else "check the input name for typos"

end ConfigLang.Suggestion
