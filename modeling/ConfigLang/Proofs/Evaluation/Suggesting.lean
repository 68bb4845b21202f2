import ConfigLang.Proofs.Text.ShortestEdits
import ConfigLang.Suggestion
import Mathlib.Data.List.MinMax

/-!
# The advice for a name that is not bound

The search goes through the bound names once and keeps a name only if it is fewer edits away than
the one kept before, so that it ends with the earliest of the nearest ones. What it finds decides
which of four texts the advice is.

* `foldl_better`: what the search has kept after some candidates.
* `nearest?_eq_some_iff`, `nearest?_eq_none_iff`: what it ends with.
* `forUnbound_advises`: the advice suggests a name exactly where one is close enough.
-/

namespace ConfigLang.Suggestion

/-! ## The search -/

/-- How many edits lead from a name to a candidate. -/
def distance (name candidate : String) : Nat := Text.editDistance name.toList candidate.toList

/-- A candidate that is the fewest edits away, and the first of those. -/
structure IsNearest (name : String) (candidates : List String) (candidate : String) : Prop where
  mem : candidate ∈ candidates
  least : ∀ other ∈ candidates, distance name candidate ≤ distance name other
  earliest : ∀ other ∈ candidates, distance name other = distance name candidate →
    candidates.idxOf candidate ≤ candidates.idxOf other

section
variable {name candidate : String} {candidates : List String} {limit : Nat}

theorem distance_eq_zero_iff : distance name candidate = 0 ↔ candidate = name := by
  rw [distance, Text.editDistance_eq_zero_iff, String.toList_inj]
  exact eq_comm

theorem isNearest_iff :
    IsNearest name candidates candidate ↔ candidates.argmin (distance name) = some candidate := by
  rw [List.argmin_eq_some_iff]
  constructor
  · intro h
    refine ⟨h.mem, h.least, ?_⟩
    intro other hother hle
    exact h.earliest other hother (Nat.le_antisymm hle (h.least other hother))
  · intro h
    obtain ⟨hmem, hleast, hearliest⟩ := h
    exact ⟨hmem, hleast, fun other hother heq => hearliest other hother heq.le⟩

/-- A step of the search, in terms of the distance. -/
theorem better_eq (name : String) (limit : Nat) (best : Option (String × Nat))
    (candidate : String) :
    better name limit best candidate =
      if distance name candidate ≤ limit ∧ best.all (distance name candidate < ·.2) then
        some (candidate, distance name candidate)
      else best := rfl

/-- The search has kept the earliest of the nearest candidates so far, if that is within the
limit. -/
theorem foldl_better (name : String) (limit : Nat) (candidates : List String) :
    candidates.foldl (better name limit) none =
      ((candidates.argmin (distance name)).filter (distance name · ≤ limit)).map
        fun candidate => (candidate, distance name candidate) := by
  induction candidates using List.reverseRecOn with
  | nil => rfl
  | append_singleton seen candidate ih =>
    rw [List.foldl_append, List.foldl_cons, List.foldl_nil, ih, better_eq, List.argmin_concat]
    cases List.argmin (distance name) seen with
    | none => by_cases hlimit : distance name candidate ≤ limit <;> simp [Option.filter, hlimit]
    | some best =>
      -- The nearest candidate so far is not kept if it is beyond the limit.
      by_cases hbest : distance name best ≤ limit
      · by_cases hless : distance name candidate < distance name best
        · have hlimit : distance name candidate ≤ limit := by omega
          simp [Option.filter, hbest, hless, hlimit]
        · simp [Option.filter, hbest, hless]
      · by_cases hlimit : distance name candidate ≤ limit
        · have hless : distance name candidate < distance name best := by omega
          simp [Option.filter, hbest, hless, hlimit]
        · by_cases hless : distance name candidate < distance name best <;>
            simp [Option.filter, hbest, hless, hlimit]

theorem nearest?_eq (name : String) (candidates : List String) (limit : Nat) :
    nearest? name candidates limit =
      (candidates.argmin (distance name)).filter (distance name · ≤ limit) := by
  rw [nearest?, foldl_better, Option.map_map]
  exact Option.map_id'

/-- The search ends with the earliest of the nearest candidates if that is within the limit. -/
theorem nearest?_eq_some_iff :
    nearest? name candidates limit = some candidate ↔
      IsNearest name candidates candidate ∧ distance name candidate ≤ limit := by
  rw [nearest?_eq, Option.filter_eq_some_iff, isNearest_iff, decide_eq_true_iff]

/-- It ends with nothing if all candidates are beyond the limit. -/
theorem nearest?_eq_none_iff :
    nearest? name candidates limit = none ↔
      ∀ candidate ∈ candidates, limit < distance name candidate := by
  rw [nearest?_eq, Option.filter_eq_none_iff]
  constructor
  · intro h candidate hcandidate
    have hne : candidates.argmin (distance name) ≠ none := by
      rw [Ne, List.argmin_eq_none]
      exact List.ne_nil_of_mem hcandidate
    obtain ⟨best, hbest⟩ := Option.ne_none_iff_exists'.1 hne
    have hbeyond : ¬ distance name best ≤ limit := by simpa using h best hbest
    have hleast := (isNearest_iff.2 hbest).least candidate hcandidate
    omega
  · intro h best hbest
    have hbeyond := h best (isNearest_iff.2 hbest).mem
    simpa using hbeyond

/-! ## The texts -/

/-- The advice where no bound name is near enough: how many there are decides. -/
inductive Unsuggested (bound : List String) : String → Prop where
  | unbound (h : bound = []) : Unsuggested bound
      "no inputs are bound; declare one with `let \x7b $name = ... \x7d in \x7b ... \x7d`"
  | few (h : 1 ≤ bound.length) (h' : bound.length ≤ 5) :
      Unsuggested bound ("bound inputs: " ++ String.intercalate ", " bound)
  | many (h : 5 < bound.length) : Unsuggested bound "check the input name for typos"

/-- The advice for a name that is none of `bound`: it suggests the earliest of the nearest names
exactly where some name is within `limit` edits. -/
structure Advises (name : String) (bound : List String) (limit : Nat) (help : String) : Prop where
  suggests_iff : (∃ candidate, help = "did you mean '" ++ candidate ++ "'?") ↔
    ∃ candidate ∈ bound, distance name candidate ≤ limit
  suggested : ∀ candidate, help = "did you mean '" ++ candidate ++ "'?" →
    IsNearest name bound candidate ∧ candidate ≠ name ∧
      1 ≤ distance name candidate ∧ distance name candidate ≤ limit
  unsuggested : (∀ candidate ∈ bound, limit < distance name candidate) → Unsuggested bound help

theorem forUnbound_of_none {bound : List String} (h : nearest? name bound (editLimit name) = none) :
    Unsuggested bound (forUnbound name bound) := by
  rw [forUnbound, h]
  cases bound with
  | nil => exact .unbound rfl
  | cons first rest =>
    simp only [List.isEmpty_cons]
    by_cases hlength : (first :: rest).length ≤ listingLimit
    · rw [if_pos hlength]
      exact .few (by simp) hlength
    · rw [if_neg hlength]
      exact .many (Nat.lt_of_not_le hlength)

/-- The texts without a suggestion differ from every suggestion in their first letter. -/
theorem Unsuggested.ne_suggestion {bound : List String} {help : String}
    (h : Unsuggested bound help) (candidate : String) :
    help ≠ "did you mean '" ++ candidate ++ "'?" := by
  intro hsame
  have hletters := congrArg String.toList hsame
  cases h with
  | unbound _ => simp at hletters
  | few _ _ => simp at hletters
  | many _ => simp at hletters

/-- The advice suggests what the search ends with. -/
theorem forUnbound_eq_suggestion_iff {bound : List String} :
    forUnbound name bound = "did you mean '" ++ candidate ++ "'?" ↔
      nearest? name bound (editLimit name) = some candidate := by
  cases hnearest : nearest? name bound (editLimit name) with
  | some found =>
    rw [forUnbound, hnearest]
    simp [String.append_left_inj, String.append_right_inj]
  | none => simp [(forUnbound_of_none hnearest).ne_suggestion candidate]

/-- **The advice is right** for a name that is not bound. -/
theorem forUnbound_advises {bound : List String} (h : name ∉ bound) :
    Advises name bound (min 3 (max 2 (name.utf8ByteSize / 3))) (forUnbound name bound) where
  suggests_iff := by
    simp only [forUnbound_eq_suggestion_iff]
    rw [← Option.isSome_iff_exists, Option.isSome_iff_ne_none, Ne, nearest?_eq_none_iff]
    simp only [not_forall, Nat.not_lt, exists_prop]
    rfl
  suggested := by
    intro candidate hsuggested
    obtain ⟨hnearest, hlimit⟩ :=
      nearest?_eq_some_iff.1 (forUnbound_eq_suggestion_iff.1 hsuggested)
    have hne : candidate ≠ name := fun he => h (he ▸ hnearest.mem)
    have hpos : distance name candidate ≠ 0 := mt distance_eq_zero_iff.1 hne
    exact ⟨hnearest, hne, Nat.one_le_iff_ne_zero.2 hpos, hlimit⟩
  unsuggested := fun hbeyond => forUnbound_of_none (nearest?_eq_none_iff.2 hbeyond)

end

/-- The limit counts bytes and the distance characters: of a name of six characters in eleven bytes
three may be replaced. -/
example : forUnbound "$ééééé" ["$eeeéé"] = "did you mean '$eeeéé'?" ∧
    forUnbound "$eeeee" ["$iiiee"] = "bound inputs: $iiiee" := by decide +kernel

end ConfigLang.Suggestion
