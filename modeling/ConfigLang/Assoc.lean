/-!
# Maps in order of insertion

A map from text keys is the list of its entries in the order in which their keys first came. A new
value for a key that is there already takes the place of the old one.
-/

namespace ConfigLang

/-- A map from text keys, as its entries in order. -/
abbrev Assoc (α : Type) := List (String × α)

namespace Assoc

variable {α : Type}

/-- The value at a key. -/
def get? : Assoc α → String → Option α
  | [], _ => none
  | (k, v) :: m, key => if k = key then some v else get? m key

/-- The map with a value at a key: in the place of the old one, or at the end. -/
def insert : Assoc α → String → α → Assoc α
  | [], key, value => [(key, value)]
  | (k, v) :: m, key, value =>
    if k = key then (k, value) :: m else (k, v) :: insert m key value

/-- The map after inserting all entries of a list in turn. -/
def insertAll (m : Assoc α) (entries : List (String × α)) : Assoc α :=
  entries.foldl (fun m entry => insert m entry.1 entry.2) m

/-- The keys in order. -/
def keys (m : Assoc α) : List String := m.map Prod.fst

/-! ## Looking up what was inserted -/

theorem get?_insert_self (m : Assoc α) (key : String) (value : α) :
    get? (insert m key value) key = some value := by
  induction m with
  | nil => simp [insert, get?]
  | cons entry m ih =>
    by_cases h : entry.1 = key <;> simp [insert, get?, h, ih]

theorem get?_insert_of_ne (m : Assoc α) {key other : String} (value : α) (h : key ≠ other) :
    get? (insert m key value) other = get? m other := by
  induction m with
  | nil => simp [insert, get?, h]
  | cons entry m ih =>
    by_cases hk : entry.1 = key
    · subst hk
      simp [insert, get?, h]
    · simp only [insert, hk, if_false, get?, ih]

theorem get?_eq_none_iff {m : Assoc α} {key : String} : get? m key = none ↔ key ∉ keys m := by
  induction m with
  | nil => simp [get?, keys]
  | cons entry m ih =>
    rw [keys, List.map_cons, List.mem_cons, not_or, ← keys, ← ih, get?]
    by_cases h : entry.1 = key
    · simp [h]
    · rw [if_neg h]
      exact ⟨fun hrest => ⟨fun hkey => h hkey.symm, hrest⟩, fun hboth => hboth.2⟩

/-- Inserting what is there already changes nothing. -/
theorem insert_of_get? {m : Assoc α} {key : String} {value : α} (h : get? m key = some value) :
    insert m key value = m := by
  induction m with
  | nil => cases h
  | cons entry m ih =>
    rw [get?] at h
    by_cases hk : entry.1 = key
    · rw [if_pos hk] at h
      obtain rfl := Option.some.inj h
      rw [insert, if_pos hk]
    · rw [if_neg hk] at h
      rw [insert, if_neg hk, ih h]

/-- Of two values inserted at a key the second stays. -/
theorem insert_insert (m : Assoc α) (key : String) (first second : α) :
    insert (insert m key first) key second = insert m key second := by
  induction m with
  | nil => simp [insert]
  | cons entry m ih =>
    by_cases hk : entry.1 = key
    · simp [insert, hk]
    · simp [insert, hk, ih]

/-- A key that is there keeps its place; another goes to the end. -/
theorem keys_insert (m : Assoc α) (key : String) (value : α) :
    keys (insert m key value) = if key ∈ keys m then keys m else keys m ++ [key] := by
  induction m with
  | nil => simp [insert, keys]
  | cons entry m ih =>
    by_cases hk : entry.1 = key
    · simp [insert, keys, hk]
    · simp only [keys] at ih
      have hk' : ¬key = entry.1 := fun h => hk h.symm
      by_cases hm : key ∈ List.map Prod.fst m <;> simp [insert, keys, hk, hk', ih, hm]

/-- Where each of some keys is put at the end if it is new, the first may be put there before the
others are looked at. -/
theorem append_new_cons (known : List String) (key : String) (later : List String) :
    (if key ∈ known then known else known ++ [key]) ++
        (later.filter (· ∉ if key ∈ known then known else known ++ [key])).eraseDups =
      known ++ ((key :: later).filter (· ∉ known)).eraseDups := by
  by_cases hkey : key ∈ known
  · rw [if_pos hkey, List.filter_cons_of_neg (by simpa using hkey)]
  · rw [if_neg hkey, List.filter_cons_of_pos (by simpa using hkey), List.eraseDups_cons,
      List.filter_filter, List.append_assoc, List.singleton_append]
    have hsame : ∀ other : String, decide (other ∉ known ++ [key]) =
        (!(other == key) && decide (other ∉ known)) := by
      intro other
      by_cases hother : other = key <;> simp [hother]
    simp only [hsame]

/-! ## Entries -/

theorem mem_of_get? {m : Assoc α} {key : String} {value : α} (h : get? m key = some value) :
    (key, value) ∈ m := by
  induction m with
  | nil => cases h
  | cons entry m ih =>
    rw [get?] at h
    split at h
    · rename_i hkey
      cases h
      exact hkey ▸ List.mem_cons_self
    · exact List.mem_cons_of_mem _ (ih h)

theorem mem_insert {m : Assoc α} {key : String} {value : α} {entry : String × α}
    (h : entry ∈ insert m key value) : entry = (key, value) ∨ entry ∈ m := by
  induction m with
  | nil => exact .inl (List.mem_singleton.1 h)
  | cons first m ih =>
    rw [insert] at h
    split at h
    · rename_i hkey
      rcases List.mem_cons.1 h with rfl | h
      · exact .inl (by rw [hkey])
      · exact .inr (List.mem_cons_of_mem _ h)
    · rcases List.mem_cons.1 h with rfl | h
      · exact .inr List.mem_cons_self
      · exact (ih h).imp_right (List.mem_cons_of_mem _)

/-! ## Distinct keys -/

theorem nodup_keys_insert {m : Assoc α} (h : (keys m).Nodup) (key : String) (value : α) :
    (keys (insert m key value)).Nodup := by
  rw [keys_insert]
  split
  · exact h
  · rename_i hkey
    refine List.nodup_append.2 ⟨h, by simp, ?_⟩
    intro k hk k' hk'
    rw [List.mem_singleton.1 hk']
    rintro rfl
    exact hkey hk

theorem insert_of_not_mem {m : Assoc α} {key : String} (h : key ∉ keys m) (value : α) :
    insert m key value = m ++ [(key, value)] := by
  induction m with
  | nil => rfl
  | cons entry m ih =>
    have hne : entry.1 ≠ key := fun he => h (he ▸ List.mem_cons_self)
    rw [insert, if_neg hne, ih fun hm => h (List.mem_cons_of_mem _ hm), List.cons_append]

/-- Fields with new and distinct keys go to the end. -/
theorem insertAll_of_nodup {m source : Assoc α} (h : (keys (m ++ source)).Nodup) :
    insertAll m source = m ++ source := by
  induction source generalizing m with
  | nil => exact (List.append_nil m).symm
  | cons field source ih =>
    have hkeys : keys (m ++ field :: source) = keys m ++ field.1 :: keys source := by simp [keys]
    rw [hkeys] at h
    have hfield : field.1 ∉ keys m :=
      fun hmem => (List.nodup_append.1 h).2.2 _ hmem _ List.mem_cons_self rfl
    have hinsert : insert m field.1 field.2 = m ++ [field] := insert_of_not_mem hfield field.2
    have hrest : (keys ((m ++ [field]) ++ source)).Nodup := by
      rw [List.append_assoc, List.singleton_append, hkeys]
      exact h
    calc insertAll m (field :: source) = insertAll (insert m field.1 field.2) source := rfl
      _ = (m ++ [field]) ++ source := by rw [hinsert, ih hrest]
      _ = m ++ field :: source := by rw [List.append_assoc, List.singleton_append]

end Assoc

end ConfigLang
