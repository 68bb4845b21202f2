import ConfigLang.Proofs.Evaluation.Evaluating
import ConfigLang.Proofs.Document.Flattening

/-!
# The shape of values

Properties that hold of a value at every depth, how deep it nests, and which of these properties
evaluation keeps.

* `Kept`: a property that is not lost when values are put together from the tokens of expressions.
* `Expr.eval_everywhere`: such a property holds everywhere in the value of an expression if it holds
  everywhere in the scope.
* `bindAll_hasDistinctKeys`: the keys of every object stay apart.
-/

namespace ConfigLang

/-! ## Everywhere in a value -/

mutual

/-- A property of a value and of all values in it. -/
def Value.Everywhere (p : Value → Prop) : Value → Prop
  | .array items => p (.array items) ∧ itemsEverywhere p items
  | .object fields => p (.object fields) ∧ fieldsEverywhere p fields
  | v => p v

def itemsEverywhere (p : Value → Prop) : List Value → Prop
  | [] => True
  | v :: vs => v.Everywhere p ∧ itemsEverywhere p vs

def fieldsEverywhere (p : Value → Prop) : List (String × Value) → Prop
  | [] => True
  | (_, v) :: fields => v.Everywhere p ∧ fieldsEverywhere p fields

end

mutual

/-- How deep objects and arrays are nested in a value. -/
def Value.depth : Value → Nat
  | .array items => valuesDepth items + 1
  | .object fields => fieldsDepth fields + 1
  | .null | .bool _ | .integer _ | .float _ | .string _ => 0

def valuesDepth : List Value → Nat
  | [] => 0
  | v :: vs => max v.depth (valuesDepth vs)

def fieldsDepth : List (String × Value) → Nat
  | [] => 0
  | (_, v) :: fields => max v.depth (fieldsDepth fields)

end

theorem itemsEverywhere_iff {p : Value → Prop} {items : List Value} :
    itemsEverywhere p items ↔ ∀ v ∈ items, v.Everywhere p := by
  induction items with
  | nil => simp [itemsEverywhere]
  | cons v vs ih => rw [itemsEverywhere, ih, List.forall_mem_cons]

theorem fieldsEverywhere_iff {p : Value → Prop} {fields : Assoc Value} :
    fieldsEverywhere p fields ↔ ∀ field ∈ fields, field.2.Everywhere p := by
  induction fields with
  | nil => simp [fieldsEverywhere]
  | cons field fields ih => rw [fieldsEverywhere, ih, List.forall_mem_cons]

theorem everywhere_object {p : Value → Prop} {fields : Assoc Value} :
    (Value.object fields).Everywhere p ↔
      p (.object fields) ∧ ∀ field ∈ fields, field.2.Everywhere p := by
  rw [Value.Everywhere, fieldsEverywhere_iff]

theorem everywhere_array {p : Value → Prop} {items : List Value} :
    (Value.array items).Everywhere p ↔ p (.array items) ∧ ∀ v ∈ items, v.Everywhere p := by
  rw [Value.Everywhere, itemsEverywhere_iff]

mutual

theorem Value.Everywhere.mono {p q : Value → Prop} (hpq : ∀ v, p v → q v) :
    ∀ {v : Value}, v.Everywhere p → v.Everywhere q
  | .array _, h => ⟨hpq _ h.1, itemsEverywhere_mono hpq h.2⟩
  | .object _, h => ⟨hpq _ h.1, fieldsEverywhere_mono hpq h.2⟩
  | .null, h | .bool _, h | .integer _, h | .float _, h | .string _, h => hpq _ h

theorem itemsEverywhere_mono {p q : Value → Prop} (hpq : ∀ v, p v → q v) :
    ∀ {items : List Value}, itemsEverywhere p items → itemsEverywhere q items
  | [], _ => trivial
  | _ :: _, h => ⟨Value.Everywhere.mono hpq h.1, itemsEverywhere_mono hpq h.2⟩

theorem fieldsEverywhere_mono {p q : Value → Prop} (hpq : ∀ v, p v → q v) :
    ∀ {fields : List (String × Value)}, fieldsEverywhere p fields → fieldsEverywhere q fields
  | [], _ => trivial
  | _ :: _, h => ⟨Value.Everywhere.mono hpq h.1, fieldsEverywhere_mono hpq h.2⟩

end

/-! ## Distinct keys -/

/-- An object in which no key comes twice, or anything else. -/
def Value.KeysApart : Value → Prop
  | .object fields => (Assoc.keys fields).Nodup
  | _ => True

/-- A value all of whose objects have distinct keys. -/
def Value.HasDistinctKeys (v : Value) : Prop := v.Everywhere Value.KeysApart

theorem hasDistinctKeys_object {fields : Assoc Value} :
    (Value.object fields).HasDistinctKeys ↔
      (Assoc.keys fields).Nodup ∧ ∀ field ∈ fields, field.2.HasDistinctKeys := by
  unfold Value.HasDistinctKeys
  rw [everywhere_object, Value.KeysApart]

theorem hasDistinctKeys_array {items : List Value} :
    (Value.array items).HasDistinctKeys ↔ ∀ v ∈ items, v.HasDistinctKeys := by
  unfold Value.HasDistinctKeys
  rw [everywhere_array]
  exact and_iff_right trivial

/-! ## Properties that evaluation keeps -/

/-- A property of values that is not lost when they are put together from the tokens `ts`: it holds
of the scalars among them, of arrays and of the empty object, and objects keep it when a field is
written whose key is a segment among the tokens or comes from an object that has the property. -/
structure Kept (ts : List Token) (p : Value → Prop) : Prop where
  null : p .null
  bool (b : Bool) : p (.bool b)
  integer (n : Int32) : .integer n ∈ ts → p (.integer n)
  float (x : Binary64) : .float x ∈ ts → p (.float x)
  string (s : String) : p (.string s)
  array (items : List Value) : p (.array items)
  empty : p (.object [])
  insert {fields : Assoc Value} {key : String} (v : Value) : p (.object fields) →
    (.segment key ∈ ts ∨ ∃ source, p (.object source) ∧ key ∈ Assoc.keys source) →
      p (.object (fields.insert key v))

/-- A scope in whose values a property holds everywhere. -/
def Scope.Everywhere (p : Value → Prop) (scope : Scope) : Prop :=
  ∀ entry ∈ scope, entry.2.Everywhere p

section
variable {ts : List Token} {p : Value → Prop} (hp : Kept ts p)
include hp

theorem insert_everywhere {fields : Assoc Value} {key : String} {v : Value}
    (hfields : (Value.object fields).Everywhere p) (hv : v.Everywhere p)
    (hkey : .segment key ∈ ts ∨ ∃ source, p (.object source) ∧ key ∈ Assoc.keys source) :
    (Value.object (fields.insert key v)).Everywhere p := by
  obtain ⟨hown, hvalues⟩ := everywhere_object.1 hfields
  refine everywhere_object.2 ⟨hp.insert v hown hkey, ?_⟩
  intro field hfield
  rcases Assoc.mem_insert hfield with rfl | hfield
  · exact hv
  · exact hvalues field hfield

theorem insertAll_everywhere {fields source : Assoc Value}
    (hfields : (Value.object fields).Everywhere p) (hsource : (Value.object source).Everywhere p) :
    (Value.object (fields.insertAll source)).Everywhere p := by
  obtain ⟨hown, hvalues⟩ := everywhere_object.1 hsource
  -- The fields still to be written are among those of `source`.
  have hrest : ∀ rest : Assoc Value, rest ⊆ source → ∀ fields : Assoc Value,
      (Value.object fields).Everywhere p → (Value.object (fields.insertAll rest)).Everywhere p := by
    intro rest hrest
    induction rest with
    | nil => exact fun _ h => h
    | cons field rest ih =>
      intro fields hfields
      have hfield : field ∈ source := hrest List.mem_cons_self
      apply ih fun _ hmem => hrest (List.mem_cons_of_mem _ hmem)
      exact insert_everywhere hp hfields (hvalues field hfield)
        (.inr ⟨source, hown, List.mem_map_of_mem hfield⟩)
  exact hrest source (List.Subset.refl _) fields hfields

theorem empty_everywhere : (Value.object []).Everywhere p :=
  everywhere_object.2 ⟨hp.empty, by simp⟩

theorem Enters.everywhere {fields child : Assoc Value} {segment : String}
    (h : Enters fields segment child) (hfields : (Value.object fields).Everywhere p) :
    (Value.object child).Everywhere p := by
  rcases h with hget | ⟨-, rfl⟩
  · exact (everywhere_object.1 hfields).2 _ (Assoc.mem_of_get? hget)
  · exact empty_everywhere hp

theorem insertAt_everywhere {fields fields' : Assoc Value} {segment : String} {rest : List String}
    {value : Value} (h : insertAt fields segment rest value = .ok fields')
    (hsegments : ∀ s ∈ segment :: rest, .segment s ∈ ts)
    (hfields : (Value.object fields).Everywhere p) (hvalue : value.Everywhere p) :
    (Value.object fields').Everywhere p := by
  induction rest generalizing fields fields' segment with
  | nil =>
    obtain rfl : fields.insert segment value = fields' := Except.ok.inj h
    exact insert_everywhere hp hfields hvalue (.inl (hsegments _ List.mem_cons_self))
  | cons next rest ih =>
    obtain ⟨child, child', henters, hchild, rfl⟩ := insertAt_cons_eq_ok h
    obtain ⟨hsegment, hsegments⟩ := List.forall_mem_cons.1 hsegments
    have hbelow := ih hchild hsegments (henters.everywhere hp hfields)
    exact insert_everywhere hp hfields hbelow (.inl hsegment)

end

theorem resolveFields_eq_ok {env : Environment} {scope : Scope} {name : String}
    {fields : Assoc Value} (h : resolveFields env scope name = .ok fields) :
    resolve env scope name = .ok (.object fields) := by
  obtain ⟨v, hv, h⟩ := bind_eq_ok.1 h
  cases v <;> cases h
  exact hv

theorem resolveItems_eq_ok {env : Environment} {scope : Scope} {name : String}
    {items : List Value} (h : resolveItems env scope name = .ok items) :
    resolve env scope name = .ok (.array items) := by
  obtain ⟨v, hv, h⟩ := bind_eq_ok.1 h
  cases v <;> cases h
  exact hv

theorem Path.segment_mem_tokens {path : Path} {s : String} (h : s ∈ path.segments) :
    .segment s ∈ path.tokens := by
  unfold Path.segments at h
  unfold Path.tokens
  rcases List.mem_cons.1 h with rfl | h
  · exact List.mem_cons_self
  · exact List.mem_cons_of_mem _ (List.mem_flatMap.2 ⟨s, h, by simp⟩)

section
variable {ts : List Token} {p : Value → Prop} {env : Environment} {scope : Scope}

theorem resolve_everywhere (hp : Kept ts p) (h : scope.Everywhere p) {name : String} {v : Value}
    (hv : resolve env scope name = .ok v) : v.Everywhere p := by
  unfold resolve Scope.resolve? at hv
  cases hget : Assoc.get? scope name with
  | some w =>
    rw [hget] at hv
    cases hv
    exact h _ (Assoc.mem_of_get? hget)
  | none =>
    rw [hget] at hv
    cases hvar : (Scope.variableOf? name).bind env with
    | none =>
      rw [hvar] at hv
      cases hv
    | some text =>
      rw [hvar] at hv
      cases hv
      exact hp.string text

mutual

theorem Expr.eval_everywhere (hp : Kept ts p) (h : scope.Everywhere p) :
    ∀ {e : Expr} {v : Value}, e.tokens ⊆ ts → e.eval env scope = .ok v → v.Everywhere p
  | .input name, v, _, hv => resolve_everywhere hp h hv
  | .array items, v, hts, hv => by
    rw [Expr.tokens] at hts
    rw [Expr.eval] at hv
    obtain ⟨values, hvalues, hv⟩ := bind_eq_ok.1 hv
    obtain rfl := Except.ok.inj hv
    have hitems : itemsTokens items ⊆ ts := fun t ht => hts (by simp [ht])
    exact everywhere_array.2 ⟨hp.array values, evalItems_everywhere hp h hitems hvalues⟩
  | .object entries, v, hts, hv => by
    rw [Expr.tokens] at hts
    rw [Expr.eval] at hv
    obtain ⟨fields, hfields, hv⟩ := bind_eq_ok.1 hv
    obtain rfl := Except.ok.inj hv
    have hentries : entriesTokens entries ⊆ ts := fun t ht => hts (by simp [ht])
    exact evalEntries_everywhere hp h (empty_everywhere hp) hentries hfields
  | .string parts, v, _, hv => by
    rw [Expr.eval] at hv
    obtain ⟨text, -, hv⟩ := bind_eq_ok.1 hv
    obtain rfl := Except.ok.inj hv
    exact hp.string text
  | .null, v, _, hv => by
    cases hv
    exact hp.null
  | .bool b, v, _, hv => by
    cases hv
    exact hp.bool b
  | .integer n, v, hts, hv => by
    cases hv
    exact hp.integer n (hts List.mem_cons_self)
  | .float x, v, hts, hv => by
    cases hv
    exact hp.float x (hts List.mem_cons_self)

theorem evalItems_everywhere (hp : Kept ts p) (h : scope.Everywhere p) :
    ∀ {items : List Item} {values : List Value}, itemsTokens items ⊆ ts →
      evalItems env scope items = .ok values → ∀ v ∈ values, v.Everywhere p
  | [], values, _, hvalues => by
    cases hvalues
    simp
  | item :: items, values, hts, hvalues => by
    rw [itemsTokens, List.append_subset] at hts
    rw [evalItems] at hvalues
    obtain ⟨own, hown, hvalues⟩ := bind_eq_ok.1 hvalues
    obtain ⟨others, hothers, hvalues⟩ := bind_eq_ok.1 hvalues
    obtain rfl := Except.ok.inj hvalues
    exact List.forall_mem_append.2
      ⟨Item.eval_everywhere hp h hts.1 hown, evalItems_everywhere hp h hts.2 hothers⟩

theorem Item.eval_everywhere (hp : Kept ts p) (h : scope.Everywhere p) :
    ∀ {item : Item} {values : List Value}, item.tokens ⊆ ts →
      item.eval env scope = .ok values → ∀ v ∈ values, v.Everywhere p
  | .value e, values, hts, hvalues => by
    rw [Item.tokens] at hts
    rw [Item.eval] at hvalues
    obtain ⟨v, hv, hvalues⟩ := bind_eq_ok.1 hvalues
    obtain rfl := Except.ok.inj hvalues
    simpa using Expr.eval_everywhere hp h hts hv
  | .spread name, values, _, hvalues => by
    rw [Item.eval] at hvalues
    exact (everywhere_array.1 (resolve_everywhere hp h (resolveItems_eq_ok hvalues))).2

theorem evalEntries_everywhere (hp : Kept ts p) (h : scope.Everywhere p) {fields : Assoc Value}
    (hfields : (Value.object fields).Everywhere p) :
    ∀ {entries : List Entry} {built : Assoc Value}, entriesTokens entries ⊆ ts →
      evalEntries env scope fields entries = .ok built → (Value.object built).Everywhere p
  | [], built, _, hbuilt => by
    cases hbuilt
    exact hfields
  | entry :: entries, built, hts, hbuilt => by
    rw [entriesTokens, List.append_subset] at hts
    rw [evalEntries] at hbuilt
    obtain ⟨fields', hfields', hbuilt⟩ := bind_eq_ok.1 hbuilt
    have hstep := Entry.eval_everywhere hp h hfields hts.1 hfields'
    exact evalEntries_everywhere hp h hstep hts.2 hbuilt

theorem Entry.eval_everywhere (hp : Kept ts p) (h : scope.Everywhere p) {fields : Assoc Value}
    (hfields : (Value.object fields).Everywhere p) :
    ∀ {entry : Entry} {built : Assoc Value}, entry.tokens ⊆ ts →
      entry.eval env scope fields = .ok built → (Value.object built).Everywhere p
  | .pair path e, built, hts, hbuilt => by
    rw [Entry.tokens, List.append_subset, List.cons_subset] at hts
    obtain ⟨hpath, -, he⟩ := hts
    rw [Entry.eval] at hbuilt
    obtain ⟨v, hv, hbuilt⟩ := bind_eq_ok.1 hbuilt
    have hsegments : ∀ s ∈ path.segments, .segment s ∈ ts :=
      fun s hs => hpath (Path.segment_mem_tokens hs)
    exact insertAt_everywhere hp hbuilt hsegments hfields (Expr.eval_everywhere hp h he hv)
  | .spread name, built, _, hbuilt => by
    rw [Entry.eval] at hbuilt
    obtain ⟨source, hsource, hbuilt⟩ := bind_eq_ok.1 hbuilt
    obtain rfl := Except.ok.inj hbuilt
    have hobject := resolve_everywhere hp h (resolveFields_eq_ok hsource)
    exact insertAll_everywhere hp hfields hobject

end

theorem bindAll_everywhere {bs : List Binding} {scope' : Scope} (hp : Kept ts p)
    (h : scope.Everywhere p) (hts : ∀ b ∈ bs, b.expr.tokens ⊆ ts)
    (hbind : bindAll env scope bs = .ok scope') : scope'.Everywhere p := by
  induction bs generalizing scope with
  | nil =>
    obtain rfl : scope = scope' := Except.ok.inj hbind
    exact h
  | cons b bs ih =>
    obtain ⟨hb, hts⟩ := List.forall_mem_cons.1 hts
    obtain ⟨v, hv, hbind⟩ := bind_eq_ok.1 hbind
    apply ih _ hts hbind
    intro entry hentry
    rcases Assoc.mem_insert hentry with rfl | hentry
    · exact Expr.eval_everywhere hp h hb hv
    · exact h entry hentry

end

/-! ## Evaluation keeps keys apart -/

/-- A scope whose values have distinct keys in all their objects. -/
def Scope.HasDistinctKeys (scope : Scope) : Prop := ∀ entry ∈ scope, entry.2.HasDistinctKeys

theorem keysApart_kept (ts : List Token) : Kept ts Value.KeysApart where
  null := trivial
  bool _ := trivial
  integer _ _ := trivial
  float _ _ := trivial
  string _ := trivial
  array _ := trivial
  empty := List.nodup_nil
  insert v h _ := Assoc.nodup_keys_insert h _ v

theorem bindAll_hasDistinctKeys {env : Environment} {scope scope' : Scope} {bs : List Binding}
    (h : scope.HasDistinctKeys) (hbind : bindAll env scope bs = .ok scope') :
    scope'.HasDistinctKeys := by
  have hts : ∀ b ∈ bs, b.expr.tokens ⊆ bs.flatMap fun b => b.expr.tokens := by
    intro b hb t ht
    exact List.mem_flatMap.2 ⟨b, hb, ht⟩
  exact bindAll_everywhere (keysApart_kept _) h hts hbind

end ConfigLang
