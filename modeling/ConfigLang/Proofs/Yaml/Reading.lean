import ConfigLang.Format
import ConfigLang.Proofs.Evaluation.ValueShape
import ConfigLang.Proofs.Yaml.Scalars

/-!
# YAML text determines its value

Two values are the same, up to their NaNs, if the text of one in some place is the start of a text
that also starts with the text of the other, and what follows in either can follow there. The
indentation of a line tells which collections it goes on with.

* `fieldText_unique`: a field ends where its value ends.
* `opened_unique`: so do values, by recursion on the value with the text behind it as a variable.
* `yaml_distinguishes_values`: different values have different texts, and a string is no text of
  anything else in its place.
-/

namespace ConfigLang

namespace Yaml

/-! ## What follows a value -/

theorem Below.mono {m n : Nat} {rest : List Char} (h : Below m rest) (hle : m ≤ n) :
    Below n rest := by
  rcases h with rfl | ⟨k, c, t, rfl, hk, hc⟩
  · exact .inl rfl
  · exact .inr ⟨k, c, t, rfl, by omega, hc⟩

theorem below_indented {width : Nat} {c : Char} {t : List Char} (hspace : c ≠ ' ')
    (hbreak : isBreak c = false) : Below (width + 1) (indentation width ++ c :: t) :=
  .inr ⟨width, c, t, rfl, by omega, hspace, hbreak⟩

/-- What follows the items of an array: no further item, but perhaps a field of the object that
holds the array, at the same indentation. -/
def AfterItems (width : Nat) (rest : List Char) : Prop :=
  Below (width + 1) rest ∧ ∀ t, rest ≠ indentation width ++ '-' :: ' ' :: t

theorem Below.afterItems {width : Nat} {rest : List Char} (h : Below width rest) :
    AfterItems width rest := by
  refine ⟨h.mono (by omega), fun t => ?_⟩
  rcases h with rfl | ⟨m, c, u, rfl, hm, hc, -⟩
  · simp [indentation]
  · exact indentation_ne hm hc

/-! ## The parts of a text -/

/-- A value where a line has begun already: a collection indented by `width`, or a leaf with
further lines indented by `leafWidth`. -/
def opened (width leafWidth : Nat) : Value → List Char
  | .array (v :: vs) => renderItems [] width (v :: vs)
  | .object (f :: fs) => renderFields [] width (f :: fs)
  | v => leaf leafWidth v

/-- The key and the value of a field. -/
def fieldText (width : Nat) (k : String) (v : Value) : List Char :=
  if isSimpleKey k then scalar (width + 2) k.toList ++ ':' :: afterKey width v
  else
    '?' :: ' ' :: scalarLine (width + 2) k.toList ++ indentation width ++ ':' :: afterDash width v

theorem leaf_or_collection (v : Value) :
    v.IsLeaf ∨ (∃ u us, v = .array (u :: us)) ∨ ∃ f fs, v = .object (f :: fs) := by
  cases v with
  | array items =>
    cases items with
    | nil => exact .inl trivial
    | cons u us => exact .inr (.inl ⟨u, us, rfl⟩)
  | object fields =>
    cases fields with
    | nil => exact .inl trivial
    | cons f fs => exact .inr (.inr ⟨f, fs, rfl⟩)
  | _ => exact .inl trivial

/-! Leaves are written alike in all places. -/

theorem opened_of_isLeaf (width leafWidth : Nat) : ∀ {v : Value}, v.IsLeaf →
    opened width leafWidth v = leaf leafWidth v
  | .array [], _ | .object [], _ | .null, _ | .bool _, _ | .integer _, _ | .float _, _
  | .string _, _ => rfl

theorem afterKey_of_isLeaf (width : Nat) : ∀ {v : Value}, v.IsLeaf →
    afterKey width v = ' ' :: leaf (width + 2) v
  | .array [], _ | .object [], _ | .null, _ | .bool _, _ | .integer _, _ | .float _, _
  | .string _, _ => rfl

theorem afterDash_of_isLeaf (width : Nat) : ∀ {v : Value}, v.IsLeaf →
    afterDash width v = ' ' :: leaf (width + 2) v
  | .array [], _ | .object [], _ | .null, _ | .bool _, _ | .integer _, _ | .float _, _
  | .string _, _ => rfl

theorem renderItems_append (a lead : List Char) (width : Nat) (v : Value) (vs : List Value) :
    renderItems (a ++ lead) width (v :: vs) = a ++ renderItems lead width (v :: vs) := by
  rw [renderItems, renderItems]
  simp only [List.append_assoc]

theorem renderFields_cons (lead : List Char) (width : Nat) (k : String) (v : Value)
    (fs : List (String × Value)) :
    renderFields lead width ((k, v) :: fs) =
      lead ++ fieldText width k v ++ renderFields (indentation width) width fs := by
  rw [renderFields]
  rfl

theorem renderFields_append (a lead : List Char) (width : Nat) (f : String × Value)
    (fs : List (String × Value)) :
    renderFields (a ++ lead) width (f :: fs) = a ++ renderFields lead width (f :: fs) := by
  obtain ⟨k, v⟩ := f
  rw [renderFields_cons, renderFields_cons]
  simp only [List.append_assoc]

theorem afterDash_eq (width : Nat) (v : Value) :
    afterDash width v = ' ' :: opened (width + 2) (width + 2) v := by
  rcases leaf_or_collection v with hleaf | ⟨u, us, rfl⟩ | ⟨f, fs, rfl⟩
  · rw [opened_of_isLeaf _ _ hleaf, afterDash_of_isLeaf width hleaf]
  · rw [afterDash, opened]
    exact renderItems_append [' '] [] _ u us
  · rw [afterDash, opened]
    exact renderFields_append [' '] [] _ f fs

theorem render_eq (v : Value) : render v = opened 0 2 v := by
  cases v with
  | array items => cases items <;> rfl
  | object fields => cases fields <;> rfl
  | _ => rfl

theorem renderItems_cons (lead : List Char) (width : Nat) (v : Value) (vs : List Value) :
    renderItems lead width (v :: vs) = lead ++ '-' :: ' ' ::
      (opened (width + 2) (width + 2) v ++ renderItems (indentation width) width vs) := by
  rw [renderItems, afterDash_eq]
  simp

theorem afterKey_array (width : Nat) (v : Value) (vs : List Value) :
    afterKey width (.array (v :: vs)) =
      '\n' :: renderItems (indentation width) width (v :: vs) := by
  rw [afterKey]
  exact renderItems_append ['\n'] _ width v vs

theorem afterKey_object (width : Nat) (f : String × Value) (fs : List (String × Value)) :
    afterKey width (.object (f :: fs)) =
      '\n' :: renderFields (indentation (width + 2)) (width + 2) (f :: fs) := by
  rw [afterKey]
  exact renderFields_append ['\n'] _ (width + 2) f fs

/-- A space or a line feed stands behind the colon of a key. -/
theorem exists_afterKey (width : Nat) (v : Value) :
    ∃ b t, afterKey width v = b :: t ∧ isBlank b := by
  rcases leaf_or_collection v with hleaf | ⟨u, us, rfl⟩ | ⟨f, fs, rfl⟩
  · exact ⟨' ', _, afterKey_of_isLeaf width hleaf, by decide⟩
  · exact ⟨'\n', _, afterKey_array width u us, by decide⟩
  · exact ⟨'\n', _, afterKey_object width f fs, by decide⟩

/-! ## Fields -/

theorem endsScalar_key (width : Nat) (v : Value) (rest : List Char) :
    EndsScalar (':' :: (afterKey width v ++ rest)) := by
  obtain ⟨b, t, htext, hb⟩ := exists_afterKey width v
  exact .inr ⟨b, t ++ rest, by rw [htext]; rfl, hb⟩

/-- A key on the line of its colon has no line break, so it is no block. -/
theorem simpleKey_spec {k : String} (h : isSimpleKey k) :
    (∀ c ∈ k.toList, isBreak c = false) ∧ styleOf k.toList ≠ .literal := by
  have hbreak : ∀ c ∈ k.toList, isBreak c = false := by
    simp only [isSimpleKey, Bool.and_eq_true, Bool.not_eq_true', List.any_eq_false] at h
    simpa using h.2
  refine ⟨hbreak, fun hstyle => ?_⟩
  have hfeed : '\n' ∉ k.toList := fun hmem => absurd (hbreak _ hmem) (by decide)
  unfold styleOf at hstyle
  rw [if_neg hfeed] at hstyle
  split at hstyle
  · cases hstyle
  · split at hstyle
    · split at hstyle <;> cases hstyle
    · cases hstyle

theorem fieldText_simple {k : String} (h : isSimpleKey k) (width leafWidth : Nat) (v : Value)
    (rest : List Char) : fieldText width k v ++ rest =
      writeIn (styleOf k.toList) leafWidth k.toList ++ ':' :: (afterKey width v ++ rest) := by
  obtain ⟨hbreak, hblock⟩ := simpleKey_spec h
  unfold fieldText
  rw [if_pos h, scalar_eq, writeIn_of_noBreak hblock hbreak (width + 2) leafWidth]
  simp

theorem fieldText_complex {k : String} (h : isSimpleKey k = false) (width : Nat) (v : Value)
    (rest : List Char) : fieldText width k v ++ rest =
      '?' :: ' ' :: (lineIn (styleOf k.toList) (width + 2) k.toList ++ (indentation width ++
        ':' :: ' ' :: (opened (width + 2) (width + 2) v ++ rest))) := by
  unfold fieldText
  rw [h, scalarLine_eq, afterDash_eq]
  simp

/-- A key on the line of its colon starts with no mark of a collection. -/
theorem fieldText_unmarked {k : String} (h : isSimpleKey k) (width : Nat) (v : Value)
    (rest : List Char) : Unmarked (fieldText width k v ++ rest) := by
  rw [fieldText_simple h width 0]
  exact writeIn_unmarked isWord_of_plain fun _ => endsScalar_key width v rest

/-- A field starts with no white space and no dash of an item. -/
theorem exists_head_fieldText (width : Nat) (k : String) (v : Value) (rest : List Char) :
    ∃ c t, fieldText width k v ++ rest = c :: t ∧ c ≠ ' ' ∧ isBreak c = false ∧
      ∀ u, fieldText width k v ++ rest ≠ '-' :: ' ' :: u := by
  cases hk : isSimpleKey k with
  | true =>
    have hmark := fieldText_unmarked hk width v rest
    have hw : styleOf k.toList = .plain → IsWord k.toList := isWord_of_plain
    obtain ⟨c, t, htext, -, hspace, hbreak⟩ := exists_head_writeIn hw 0
    rw [fieldText_simple hk width 0] at hmark ⊢
    exact ⟨c, _, by rw [htext]; rfl, hspace, hbreak, fun u hu => (hmark _ _ hu).1 rfl⟩
  | false =>
    rw [fieldText_complex hk]
    exact ⟨'?', _, rfl, by decide, by decide, fun u hu => by cases hu⟩

/-- A key and its colon end where the value begins, and a field where its value ends. -/
theorem fieldText_unique {width : Nat} {k k' : String} {v v' : Value} {rest rest' : List Char}
    (hkey : afterKey width v ++ rest = afterKey width v' ++ rest' →
      v.withOneNaN = v'.withOneNaN ∧ rest = rest')
    (hdash : opened (width + 2) (width + 2) v ++ rest = opened (width + 2) (width + 2) v' ++ rest' →
      v.withOneNaN = v'.withOneNaN ∧ rest = rest')
    (h : fieldText width k v ++ rest = fieldText width k' v' ++ rest') :
    k = k' ∧ v.withOneNaN = v'.withOneNaN ∧ rest = rest' := by
  have hw : styleOf k.toList = .plain → IsWord k.toList := isWord_of_plain
  have hw' : styleOf k'.toList = .plain → IsWord k'.toList := isWord_of_plain
  cases hk : isSimpleKey k <;> cases hk' : isSimpleKey k'
  · rw [fieldText_complex hk, fieldText_complex hk'] at h
    have hbelow {t : List Char} : Below (width + 2) (indentation width ++ ':' :: t) :=
      (below_indented (by decide) (by decide)).mono (by omega)
    obtain ⟨-, hchars, hvalue⟩ := lineIn_unique hw hw' hbelow hbelow
      (List.cons.inj (List.cons.inj h).2).2
    have hvalue := (List.cons.inj (List.append_cancel_left hvalue)).2
    exact ⟨String.toList_inj.1 hchars, hdash (List.cons.inj hvalue).2⟩
  · rw [fieldText_complex hk] at h
    exact absurd rfl (fieldText_unmarked hk' width v' rest' _ _ h.symm).2
  · rw [fieldText_complex hk'] at h
    exact absurd rfl (fieldText_unmarked hk width v rest _ _ h).2
  · rw [fieldText_simple hk width 0, fieldText_simple hk' width 0] at h
    obtain ⟨-, hchars, hvalue⟩ := writeIn_unique hw hw' (simpleKey_spec hk).2
      (endsScalar_key width v rest) (endsScalar_key width v' rest') h
    exact ⟨String.toList_inj.1 hchars, hkey (List.cons.inj hvalue).2⟩

/-! ## Values of different kinds -/

theorem leaf_spec {v : Value} (hv : v.IsLeaf) :
    (written v).1 = .plain → IsWord (written v).2 := by
  intro hplain
  exact isWord_written hv (Prod.ext hplain rfl)

theorem leaf_unique {width : Nat} {v w : Value} {rest rest' : List Char} (hv : v.IsLeaf)
    (hw : w.IsLeaf) (hrest : Below width rest) (hrest' : Below width rest')
    (h : leaf width v ++ rest = leaf width w ++ rest') :
    v.withOneNaN = w.withOneNaN ∧ rest = rest' := by
  rw [leaf_eq width hv, leaf_eq width hw] at h
  obtain ⟨hstyle, hchars, hrests⟩ := lineIn_unique (leaf_spec hv) (leaf_spec hw) hrest hrest' h
  exact ⟨written_unique hv hw (Prod.ext hstyle hchars), hrests⟩

/-- No leaf is the key of a field: behind it the line ends, and a colon follows the key. -/
theorem leaf_ne_fieldText {width leafWidth : Nat} {k : String} {u v : Value}
    {rest rest' : List Char} (hu : u.IsLeaf) :
    leaf leafWidth u ++ rest ≠ fieldText width k v ++ rest' := by
  intro h
  rw [leaf_eq leafWidth hu] at h
  cases hk : isSimpleKey k with
  | false =>
    rw [fieldText_complex hk] at h
    exact (lineIn_unmarked (leaf_spec hu) _ _ h).2 rfl
  | true =>
    have hw : styleOf k.toList = .plain → IsWord k.toList := isWord_of_plain
    rw [fieldText_simple hk width leafWidth] at h
    obtain ⟨t, htext, -⟩ := exists_lineIn (written u).1 leafWidth (written u).2 rest
    have hstyle := style_unique (leaf_spec hu) hw (htext.symm.trans h)
    have hblock : (written u).1 ≠ .literal := hstyle ▸ (simpleKey_spec hk).2
    rw [lineIn_of_ne hblock, List.append_assoc] at h
    obtain ⟨-, -, hends⟩ := writeIn_unique (leaf_spec hu) hw hblock (.inl ⟨rest, rfl⟩)
      (endsScalar_key width v rest') h
    cases hends

/-- Only an array starts with the dash of an item. -/
theorem eq_array_of_opened {width leafWidth : Nat} {v : Value} {rest t : List Char}
    (h : opened width leafWidth v ++ rest = '-' :: ' ' :: t) : ∃ u us, v = .array (u :: us) := by
  rcases leaf_or_collection v with hleaf | harray | ⟨⟨k, u⟩, fs, rfl⟩
  · rw [opened_of_isLeaf width leafWidth hleaf, leaf_eq leafWidth hleaf] at h
    exact absurd rfl (lineIn_unmarked (leaf_spec hleaf) _ _ h).1
  · exact harray
  · rw [opened, renderFields_cons, List.nil_append, List.append_assoc] at h
    obtain ⟨c, u', -, -, -, hmark⟩ := exists_head_fieldText width k u
      (renderFields (indentation width) width fs ++ rest)
    exact absurd h (hmark t)

theorem opened_array (width leafWidth : Nat) (v : Value) (vs : List Value) :
    opened width leafWidth (.array (v :: vs)) = '-' :: ' ' ::
      (opened (width + 2) (width + 2) v ++ renderItems (indentation width) width vs) := by
  rw [opened, renderItems_cons, List.nil_append]

theorem opened_object (width leafWidth : Nat) (k : String) (v : Value)
    (fs : List (String × Value)) : opened width leafWidth (.object ((k, v) :: fs)) =
      fieldText width k v ++ renderFields (indentation width) width fs := by
  rw [opened, renderFields_cons, List.nil_append]

/-! ## Lines of a collection -/

theorem renderItems_below {width : Nat} {rest : List Char} (hrest : Below (width + 1) rest)
    (vs : List Value) : Below (width + 1) (renderItems (indentation width) width vs ++ rest) := by
  cases vs with
  | nil => exact hrest
  | cons v vs =>
    rw [renderItems_cons, List.append_assoc]
    exact below_indented (by decide) (by decide)

theorem renderFields_afterItems {width : Nat} {rest : List Char} (hrest : Below width rest)
    (fs : List (String × Value)) :
    AfterItems width (renderFields (indentation width) width fs ++ rest) := by
  cases fs with
  | nil => exact hrest.afterItems
  | cons f fs =>
    obtain ⟨k, v⟩ := f
    rw [renderFields_cons, List.append_assoc, List.append_assoc]
    obtain ⟨c, t, htext, hspace, hbreak, hmark⟩ := exists_head_fieldText width k v
      (renderFields (indentation width) width fs ++ rest)
    constructor
    · rw [htext]
      exact below_indented hspace hbreak
    · exact fun u hu => hmark u (List.append_cancel_left hu)

theorem AfterItems.ne_items {width : Nat} {rest : List Char} (h : AfterItems width rest)
    (v : Value) (vs : List Value) (rest' : List Char) :
    rest ≠ renderItems (indentation width) width (v :: vs) ++ rest' := by
  rw [renderItems_cons, List.append_assoc]
  exact h.2 _

theorem Below.ne_fields {width : Nat} {rest : List Char} (h : Below width rest)
    (f : String × Value) (fs : List (String × Value)) (rest' : List Char) :
    rest ≠ renderFields (indentation width) width (f :: fs) ++ rest' := by
  rw [renderFields_cons, List.append_assoc, List.append_assoc]
  rcases h with rfl | ⟨m, c, t, rfl, hm, hspace, -⟩
  · obtain ⟨c, t, htext, -⟩ := exists_head_fieldText width f.1 f.2
      (renderFields (indentation width) width fs ++ rest')
    simp [htext]
  · exact indentation_ne hm hspace

/-! ## Values -/

/-- Two leaves, two arrays with items or two objects with fields. -/
inductive SameShape : Value → Value → Prop
  | leaf {v w : Value} (hv : v.IsLeaf) (hw : w.IsLeaf) : SameShape v w
  | array (v w : Value) (vs ws : List Value) : SameShape (.array (v :: vs)) (.array (w :: ws))
  | object (f g : String × Value) (fs gs : List (String × Value)) :
    SameShape (.object (f :: fs)) (.object (g :: gs))

/-- Behind a key, the line goes on with a leaf and ends before a collection, whose indentation
tells arrays from objects. -/
theorem sameShape_of_afterKey {width : Nat} {v w : Value} {rest rest' : List Char}
    (h : afterKey width v ++ rest = afterKey width w ++ rest') : SameShape v w := by
  have hapart {u : Value} {us : List Value} {f : String × Value} {fs : List (String × Value)}
      {rest rest' : List Char} :
      afterKey width (.array (u :: us)) ++ rest ≠ afterKey width (.object (f :: fs)) ++ rest' := by
    intro h
    rw [afterKey_array, afterKey_object, renderItems_cons, renderFields_cons] at h
    simp only [List.cons_append, List.append_assoc] at h
    exact indentation_ne (by omega) (by decide) (List.cons.inj h).2
  rcases leaf_or_collection v with hv | ⟨u, us, rfl⟩ | ⟨f, fs, rfl⟩ <;>
    rcases leaf_or_collection w with hw | ⟨u', us', rfl⟩ | ⟨f', fs', rfl⟩
  · exact .leaf hv hw
  · rw [afterKey_of_isLeaf width hv, afterKey_array] at h
    cases h
  · rw [afterKey_of_isLeaf width hv, afterKey_object] at h
    cases h
  · rw [afterKey_of_isLeaf width hw, afterKey_array] at h
    cases h
  · exact .array u u' us us'
  · exact absurd h hapart
  · rw [afterKey_of_isLeaf width hw, afterKey_object] at h
    cases h
  · exact absurd h.symm hapart
  · exact .object f f' fs fs'

/-- Where a line has begun, a dash tells arrays and a colon objects. -/
theorem sameShape_of_opened {width leafWidth : Nat} {v w : Value} {rest rest' : List Char}
    (h : opened width leafWidth v ++ rest = opened width leafWidth w ++ rest') : SameShape v w := by
  rcases leaf_or_collection v with hv | ⟨u, us, rfl⟩ | ⟨⟨k, u⟩, fs, rfl⟩
  · rcases leaf_or_collection w with hw | ⟨u', us', rfl⟩ | ⟨⟨k', u'⟩, fs', rfl⟩
    · exact .leaf hv hw
    · rw [opened_array] at h
      obtain ⟨u, us, rfl⟩ := eq_array_of_opened h
      exact hv.elim
    · rw [opened_of_isLeaf width leafWidth hv, opened_object, List.append_assoc] at h
      exact absurd h (leaf_ne_fieldText hv)
  · rw [opened_array] at h
    obtain ⟨u', us', rfl⟩ := eq_array_of_opened h.symm
    exact .array u u' us us'
  · rcases leaf_or_collection w with hw | ⟨u', us', rfl⟩ | ⟨f', fs', rfl⟩
    · rw [opened_of_isLeaf width leafWidth hw, opened_object, List.append_assoc] at h
      exact absurd h.symm (leaf_ne_fieldText hw)
    · rw [opened_array] at h
      obtain ⟨u, us, h⟩ := eq_array_of_opened h
      cases h
    · exact .object (k, u) f' fs fs'

theorem renderItems_indented (width leafWidth : Nat) (v : Value) (vs : List Value) :
    renderItems (indentation width) width (v :: vs) =
      indentation width ++ opened width leafWidth (.array (v :: vs)) := by
  rw [opened, ← renderItems_append, List.append_nil]

theorem renderFields_indented (width leafWidth : Nat) (f : String × Value)
    (fs : List (String × Value)) : renderFields (indentation width) width (f :: fs) =
      indentation width ++ opened width leafWidth (.object (f :: fs)) := by
  rw [opened, ← renderFields_append, List.append_nil]

mutual

/-- A value ends where its text does, whatever follows it among the lines further out. -/
theorem opened_unique (width leafWidth : Nat) (hle : width ≤ leafWidth) :
    ∀ (v w : Value) {rest rest' : List Char}, Below width rest → Below width rest' →
      opened width leafWidth v ++ rest = opened width leafWidth w ++ rest' →
        v.withOneNaN = w.withOneNaN ∧ rest = rest'
  | .array (v :: vs), w, rest, rest', hrest, hrest', h => by
    cases sameShape_of_opened h with
    | leaf hv => exact hv.elim
    | array _ w _ ws =>
      have hlines := congrArg (indentation width ++ ·) h
      simp only [← List.append_assoc, ← renderItems_indented] at hlines
      obtain ⟨hitems, hrests⟩ := renderItems_unique width (v :: vs) (w :: ws) hrest.afterItems
        hrest'.afterItems hlines
      exact ⟨congrArg Value.array hitems, hrests⟩
  | .object (f :: fs), w, rest, rest', hrest, hrest', h => by
    cases sameShape_of_opened h with
    | leaf hv => exact hv.elim
    | object _ g _ gs =>
      have hlines := congrArg (indentation width ++ ·) h
      simp only [← List.append_assoc, ← renderFields_indented] at hlines
      obtain ⟨hfields, hrests⟩ := renderFields_unique width (f :: fs) (g :: gs) hrest hrest' hlines
      exact ⟨congrArg Value.object hfields, hrests⟩
  | .array [], w, rest, rest', hrest, hrest', h | .object [], w, rest, rest', hrest, hrest', h
  | .null, w, rest, rest', hrest, hrest', h | .bool _, w, rest, rest', hrest, hrest', h
  | .integer _, w, rest, rest', hrest, hrest', h | .float _, w, rest, rest', hrest, hrest', h
  | .string _, w, rest, rest', hrest, hrest', h => by
    cases sameShape_of_opened h with
    | leaf hv hw =>
      rw [opened_of_isLeaf width leafWidth hv, opened_of_isLeaf width leafWidth hw] at h
      exact leaf_unique hv hw (hrest.mono hle) (hrest'.mono hle) h
termination_by structural v => v

theorem afterKey_unique (width : Nat) :
    ∀ (v w : Value) {rest rest' : List Char}, AfterItems width rest → AfterItems width rest' →
      afterKey width v ++ rest = afterKey width w ++ rest' →
        v.withOneNaN = w.withOneNaN ∧ rest = rest'
  | .array (v :: vs), w, rest, rest', hrest, hrest', h => by
    cases sameShape_of_afterKey h with
    | leaf hv => exact hv.elim
    | array _ w _ ws =>
      rw [afterKey_array, afterKey_array] at h
      obtain ⟨hitems, hrests⟩ := renderItems_unique width (v :: vs) (w :: ws) hrest hrest'
        (List.cons.inj h).2
      exact ⟨congrArg Value.array hitems, hrests⟩
  | .object (f :: fs), w, rest, rest', hrest, hrest', h => by
    cases sameShape_of_afterKey h with
    | leaf hv => exact hv.elim
    | object _ g _ gs =>
      rw [afterKey_object, afterKey_object] at h
      obtain ⟨hfields, hrests⟩ := renderFields_unique (width + 2) (f :: fs) (g :: gs)
        (hrest.1.mono (by omega)) (hrest'.1.mono (by omega)) (List.cons.inj h).2
      exact ⟨congrArg Value.object hfields, hrests⟩
  | .array [], w, rest, rest', hrest, hrest', h | .object [], w, rest, rest', hrest, hrest', h
  | .null, w, rest, rest', hrest, hrest', h | .bool _, w, rest, rest', hrest, hrest', h
  | .integer _, w, rest, rest', hrest, hrest', h | .float _, w, rest, rest', hrest, hrest', h
  | .string _, w, rest, rest', hrest, hrest', h => by
    cases sameShape_of_afterKey h with
    | leaf hv hw =>
      rw [afterKey_of_isLeaf width hv, afterKey_of_isLeaf width hw] at h
      exact leaf_unique hv hw (hrest.1.mono (by omega)) (hrest'.1.mono (by omega))
        (List.cons.inj h).2
termination_by structural v => v

theorem renderItems_unique (width : Nat) :
    ∀ (vs ws : List Value) {rest rest' : List Char}, AfterItems width rest →
      AfterItems width rest' →
      renderItems (indentation width) width vs ++ rest =
        renderItems (indentation width) width ws ++ rest' →
        itemsWithOneNaN vs = itemsWithOneNaN ws ∧ rest = rest'
  | [], [], _, _, _, _, h => ⟨rfl, h⟩
  | [], w :: ws, _, rest', hrest, _, h => absurd h (hrest.ne_items w ws rest')
  | v :: vs, [], rest, _, _, hrest', h => absurd h.symm (hrest'.ne_items v vs rest)
  | v :: vs, w :: ws, rest, rest', hrest, hrest', h => by
    rw [renderItems_cons, renderItems_cons] at h
    simp only [List.append_assoc, List.cons_append, List.append_cancel_left_eq] at h
    have hitem := (List.cons.inj (List.cons.inj h).2).2
    obtain ⟨hv, htail⟩ := opened_unique (width + 2) (width + 2) (Nat.le_refl _) v w
      ((renderItems_below hrest.1 vs).mono (by omega))
      ((renderItems_below hrest'.1 ws).mono (by omega)) hitem
    obtain ⟨hvs, hrests⟩ := renderItems_unique width vs ws hrest hrest' htail
    exact ⟨by rw [itemsWithOneNaN, itemsWithOneNaN, hv, hvs], hrests⟩
termination_by structural vs => vs

theorem renderFields_unique (width : Nat) :
    ∀ (fs gs : List (String × Value)) {rest rest' : List Char}, Below width rest →
      Below width rest' →
      renderFields (indentation width) width fs ++ rest =
        renderFields (indentation width) width gs ++ rest' →
        fieldsWithOneNaN fs = fieldsWithOneNaN gs ∧ rest = rest'
  | [], [], _, _, _, _, h => ⟨rfl, h⟩
  | [], g :: gs, _, rest', hrest, _, h => absurd h (hrest.ne_fields g gs rest')
  | f :: fs, [], rest, _, _, hrest', h => absurd h.symm (hrest'.ne_fields f fs rest)
  | (k, v) :: fs, (k', v') :: gs, rest, rest', hrest, hrest', h => by
    rw [renderFields_cons, renderFields_cons] at h
    simp only [List.append_assoc, List.append_cancel_left_eq] at h
    have hafter := renderFields_afterItems hrest fs
    have hafter' := renderFields_afterItems hrest' gs
    obtain ⟨rfl, hv, htail⟩ := fieldText_unique
      (afterKey_unique width v v' hafter hafter')
      (opened_unique (width + 2) (width + 2) (Nat.le_refl _) v v' (hafter.1.mono (by omega))
        (hafter'.1.mono (by omega))) h
    obtain ⟨hfs, hrests⟩ := renderFields_unique width fs gs hrest hrest' htail
    exact ⟨by rw [fieldsWithOneNaN, fieldsWithOneNaN, hv, hfs], hrests⟩
termination_by structural fs => fs

end

/-- The text of a value determines it, all NaNs taken as one. -/
theorem text_unique {v w : Value} (h : text v = text w) : v.withOneNaN = w.withOneNaN := by
  have htext : opened 0 2 v ++ [] = opened 0 2 w ++ [] := by
    rw [← render_eq, ← render_eq]
    simpa [text, String.ofList_inj] using h
  exact (opened_unique 0 2 (by omega) v w (.inl rfl) (.inl rfl) htext).1

end Yaml

/-! ## Values without NaNs -/

/-- A floating-point number that is no NaN, or anything else. -/
def Value.FloatNotNaN : Value → Prop
  | .float x => x.isNaN = false
  | _ => True

/-- A value with no NaN in it. -/
def Value.HasNoNaN (v : Value) : Prop := v.Everywhere Value.FloatNotNaN

theorem itemsWithOneNaN_eq_map (items : List Value) :
    itemsWithOneNaN items = items.map Value.withOneNaN := by
  induction items with
  | nil => rfl
  | cons v vs ih => rw [itemsWithOneNaN, ih, List.map_cons]

theorem fieldsWithOneNaN_eq_map (fields : List (String × Value)) :
    fieldsWithOneNaN fields = fields.map fun field => (field.1, field.2.withOneNaN) := by
  induction fields with
  | nil => rfl
  | cons f fs ih =>
    obtain ⟨k, v⟩ := f
    rw [fieldsWithOneNaN, ih, List.map_cons]

mutual

/-- Where there is no NaN, none is replaced. -/
theorem withOneNaN_of_hasNoNaN : ∀ {v : Value}, v.HasNoNaN → v.withOneNaN = v
  | .float x, h => by
    have hx : x.isNaN = false := h
    rw [Value.withOneNaN, hx]
    rfl
  | .array items, h => congrArg Value.array (itemsWithOneNaN_of_hasNoNaN h.2)
  | .object fields, h => congrArg Value.object (fieldsWithOneNaN_of_hasNoNaN h.2)
  | .null, _ | .bool _, _ | .integer _, _ | .string _, _ => rfl

theorem itemsWithOneNaN_of_hasNoNaN :
    ∀ {items : List Value}, itemsEverywhere Value.FloatNotNaN items →
      itemsWithOneNaN items = items
  | [], _ => rfl
  | _ :: _, h =>
    congrArg₂ List.cons (withOneNaN_of_hasNoNaN h.1) (itemsWithOneNaN_of_hasNoNaN h.2)

theorem fieldsWithOneNaN_of_hasNoNaN :
    ∀ {fields : List (String × Value)}, fieldsEverywhere Value.FloatNotNaN fields →
      fieldsWithOneNaN fields = fields
  | [], _ => rfl
  | (k, _) :: _, h =>
    congrArg₂ List.cons (congrArg (Prod.mk k) (withOneNaN_of_hasNoNaN h.1))
      (fieldsWithOneNaN_of_hasNoNaN h.2)

end

theorem kind_withOneNaN (v : Value) : v.withOneNaN.kind = v.kind := by
  cases v <;> rfl

/-! ## Places in a value -/

/-- A collection with a place left open for one of its members. -/
inductive Value.Frame where
  | item (before after : List Value)
  | field (before : List (String × Value)) (key : String) (after : List (String × Value))

/-- The collection with the place filled. -/
def Value.Frame.fill : Value.Frame → Value → Value
  | .item before after, v => .array (before ++ v :: after)
  | .field before key after, v => .object (before ++ (key, v) :: after)

/-- The value with `v` in the place that lies within these collections, the outermost first. -/
def Value.inPlace (frames : List Value.Frame) (v : Value) : Value :=
  frames.foldr Value.Frame.fill v

/-- What fills a place can be told from the whole. -/
theorem withOneNaN_of_inPlace {v w : Value} {frames : List Value.Frame}
    (h : (v.inPlace frames).withOneNaN = (w.inPlace frames).withOneNaN) :
    v.withOneNaN = w.withOneNaN := by
  induction frames with
  | nil => exact h
  | cons frame frames ih =>
    apply ih
    change (frame.fill (Value.inPlace frames v)).withOneNaN =
      (frame.fill (Value.inPlace frames w)).withOneNaN at h
    cases frame with
    | item before after =>
      simp only [Value.Frame.fill, Value.withOneNaN, itemsWithOneNaN_eq_map, List.map_append,
        List.map_cons, Value.array.injEq, List.append_cancel_left_eq] at h
      exact (List.cons.inj h).1
    | field before key after =>
      simp only [Value.Frame.fill, Value.withOneNaN, fieldsWithOneNaN_eq_map, List.map_append,
        List.map_cons, Value.object.injEq, List.append_cancel_left_eq] at h
      exact (Prod.mk.inj (List.cons.inj h).1).2

/-- Values without NaNs have the same YAML text only if they are the same, and no string has the
text of anything else, wherever it stands and whatever stands around it. -/
theorem yaml_distinguishes_values :
    (∀ v w : Value, v.HasNoNaN → w.HasNoNaN →
      (Format.yaml.render v = Format.yaml.render w ↔ v = w)) ∧
    ∀ (frames : List Value.Frame) (s : String) (u : Value), u.kind ≠ .string →
      Format.yaml.render (.inPlace frames (.string s)) ≠
        Format.yaml.render (.inPlace frames u) := by
  constructor
  · intro v w hv hw
    constructor
    · intro htext
      have hsame := Yaml.text_unique htext
      rwa [withOneNaN_of_hasNoNaN hv, withOneNaN_of_hasNoNaN hw] at hsame
    · exact congrArg _
  · intro frames s u hu htext
    have hsame := withOneNaN_of_inPlace (Yaml.text_unique htext)
    apply hu
    rw [← kind_withOneNaN u, ← hsame]
    rfl

/-- An array under a key, and another field behind it. -/
def blockThenField (block : String) (v : Value) : Value :=
  .object [("block", .array [.string block]), ("field", v)]

/-- Line breaks at the end of a block, quoted numbers and a string that spells a NaN keep their
values apart. -/
theorem yaml_distinguishes_values_of_endings :
    (blockThenField "x\n\n" (.integer 1)).HasNoNaN ∧
      (blockThenField "x\n" (.string "1")).HasNoNaN ∧
      Format.yaml.render (blockThenField "x\n\n" (.integer 1)) ≠
        Format.yaml.render (blockThenField "x\n" (.string "1")) ∧
      Format.yaml.render (.inPlace [.field [] "key" [], .item [.null] []] (.string ".nan")) ≠
        Format.yaml.render (.inPlace [.field [] "key" [], .item [.null] []] (.float .someNaN)) := by
  have hfirst : (blockThenField "x\n\n" (.integer 1)).HasNoNaN := by
    simp [blockThenField, Value.HasNoNaN, Value.Everywhere, itemsEverywhere, fieldsEverywhere,
      Value.FloatNotNaN]
  have hsecond : (blockThenField "x\n" (.string "1")).HasNoNaN := by
    simp [blockThenField, Value.HasNoNaN, Value.Everywhere, itemsEverywhere, fieldsEverywhere,
      Value.FloatNotNaN]
  obtain ⟨hvalues, hplaces⟩ := yaml_distinguishes_values
  refine ⟨hfirst, hsecond, fun htext => ?_, hplaces _ _ _ (by decide)⟩
  have hsame := (hvalues _ _ hfirst hsecond).1 htext
  simp [blockThenField] at hsame

end ConfigLang
