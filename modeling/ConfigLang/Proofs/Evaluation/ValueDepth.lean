import ConfigLang.Proofs.Lexer.ModesFollow
import ConfigLang.Proofs.Evaluation.ValueShape

/-!
# How deep values nest

The nesting limit counts the brackets of a document. A value nests deeper than the brackets that
wrote it for two reasons: each segment of a key makes an object, and an input brings along whatever
it is bound to. Each reason is a factor, and nothing else adds to the depth.

* `Expr.eval_depth_le`: what evaluation makes of an expression, by its brackets and longest key.
* `bindAll_depth_le`: each binding adds to the depth of the inputs what its own expression may.
* `compile_depth_le`: the bound for compiled values.
-/

namespace ConfigLang

/-! ## The longest key -/

mutual

/-- How many segments the longest key in an expression has; without a key, one. -/
def Expr.longestKey : Expr → Nat
  | .array items => itemsLongestKey items
  | .object entries => entriesLongestKey entries
  | .null | .bool _ | .integer _ | .float _ | .input _ | .string _ => 1

def itemsLongestKey : List Item → Nat
  | [] => 1
  | item :: items => max item.longestKey (itemsLongestKey items)

def Item.longestKey : Item → Nat
  | .value e => e.longestKey
  | .spread _ => 1

def entriesLongestKey : List Entry → Nat
  | [] => 1
  | entry :: entries => max entry.longestKey (entriesLongestKey entries)

def Entry.longestKey : Entry → Nat
  | .pair path e => max path.segments.length e.longestKey
  | .spread _ => 1

end

theorem itemsLongestKey_pos (items : List Item) : 1 ≤ itemsLongestKey items := by
  induction items with
  | nil => exact Nat.le_refl 1
  | cons item items ih => exact Nat.le_trans ih (Nat.le_max_right _ _)

theorem entriesLongestKey_pos (entries : List Entry) : 1 ≤ entriesLongestKey entries := by
  induction entries with
  | nil => exact Nat.le_refl 1
  | cons entry entries ih => exact Nat.le_trans ih (Nat.le_max_right _ _)

theorem Expr.longestKey_pos (e : Expr) : 1 ≤ e.longestKey := by
  cases e with
  | array items => exact itemsLongestKey_pos items
  | object entries => exact entriesLongestKey_pos entries
  | _ => exact Nat.le_refl 1

/-- The bindings of a document; without a block there are none. -/
def Document.bindingList (c : Document) : List Binding := c.bindings.getD []

/-- How many segments the longest key in a document has; without a key, one. -/
def Document.longestKey (c : Document) : Nat :=
  max (deepest (fun b => b.expr.longestKey) c.bindingList) (Expr.object c.body).longestKey

theorem Document.longestKey_pos (c : Document) : 1 ≤ c.longestKey :=
  Nat.le_trans (Expr.longestKey_pos _) (Nat.le_max_right _ _)

/-! ## Depths of parts -/

theorem valuesDepth_le_iff {vs : List Value} {n : Nat} :
    valuesDepth vs ≤ n ↔ ∀ v ∈ vs, v.depth ≤ n := by
  induction vs with
  | nil => simp [valuesDepth]
  | cons v vs ih => rw [valuesDepth, Nat.max_le, ih, List.forall_mem_cons]

theorem fieldsDepth_le_iff {fields : Assoc Value} {n : Nat} :
    fieldsDepth fields ≤ n ↔ ∀ field ∈ fields, field.2.depth ≤ n := by
  induction fields with
  | nil => simp [fieldsDepth]
  | cons field fields ih => rw [fieldsDepth, Nat.max_le, ih, List.forall_mem_cons]

theorem deepest_le_iff {α : Type} {depth : α → Nat} {l : List α} {n : Nat} :
    deepest depth l ≤ n ↔ ∀ a ∈ l, depth a ≤ n := by
  induction l with
  | nil => simp
  | cons a l ih => rw [deepest_cons, Nat.max_le, ih, List.forall_mem_cons]

theorem fieldsDepth_insert_le {fields : Assoc Value} {key : String} {v : Value} {n : Nat}
    (hfields : fieldsDepth fields ≤ n) (hv : v.depth ≤ n) :
    fieldsDepth (fields.insert key v) ≤ n := by
  rw [fieldsDepth_le_iff] at hfields ⊢
  intro field hfield
  rcases Assoc.mem_insert hfield with rfl | hfield
  · exact hv
  · exact hfields field hfield

theorem fieldsDepth_insertAll_le {fields source : Assoc Value} {n : Nat}
    (hfields : fieldsDepth fields ≤ n) (hsource : fieldsDepth source ≤ n) :
    fieldsDepth (fields.insertAll source) ≤ n := by
  induction source generalizing fields with
  | nil => exact hfields
  | cons field source ih =>
    obtain ⟨hfield, hsource⟩ := Nat.max_le.1 hsource
    exact ih (fieldsDepth_insert_le hfields hfield) hsource

/-- A write nests its value as deep as its key has segments, and leaves other fields as they are. -/
theorem insertAt_depth_le {fields fields' : Assoc Value} {segment : String} {rest : List String}
    {value : Value} {n : Nat} (h : insertAt fields segment rest value = .ok fields')
    (hfields : fieldsDepth fields ≤ n) (hvalue : rest.length + value.depth ≤ n) :
    fieldsDepth fields' ≤ n := by
  induction rest generalizing fields fields' segment n with
  | nil =>
    obtain rfl : fields.insert segment value = fields' := Except.ok.inj h
    exact fieldsDepth_insert_le hfields (by simpa using hvalue)
  | cons next rest ih =>
    obtain ⟨child, child', henters, hchild, rfl⟩ := insertAt_cons_eq_ok h
    rw [List.length_cons] at hvalue
    -- The object that the write goes through takes one level of the `n`.
    have hdepth : fieldsDepth child ≤ n - 1 := by
      rcases henters with hget | ⟨-, rfl⟩
      · have hobject := fieldsDepth_le_iff.1 hfields _ (Assoc.mem_of_get? hget)
        rw [Value.depth] at hobject
        omega
      · exact Nat.zero_le _
    have hchild' := ih hchild hdepth (by omega)
    refine fieldsDepth_insert_le hfields ?_
    rw [Value.depth]
    omega

/-! ## Evaluation -/

/-- The values of a scope nest at most `m` deep. -/
def Scope.DepthLe (scope : Scope) (m : Nat) : Prop := fieldsDepth scope ≤ m

section
variable {env : Environment} {scope : Scope} {k m : Nat}

theorem resolve_depth_le (h : scope.DepthLe m) {name : String} {v : Value}
    (hv : resolve env scope name = .ok v) : v.depth ≤ m := by
  unfold resolve Scope.resolve? at hv
  cases hget : Assoc.get? scope name with
  | some w =>
    rw [hget] at hv
    cases hv
    exact fieldsDepth_le_iff.1 h _ (Assoc.mem_of_get? hget)
  | none =>
    rw [hget] at hv
    cases hvar : (Scope.variableOf? name).bind env with
    | none =>
      rw [hvar] at hv
      cases hv
    | some text =>
      rw [hvar] at hv
      cases hv
      exact Nat.zero_le _

mutual

/-- Each bracket nests a value as deep as the longest key at most, and an input as deep as it is
itself. -/
theorem Expr.eval_depth_le (h : scope.DepthLe m) (hk : 1 ≤ k) :
    ∀ {e : Expr} {v : Value}, e.longestKey ≤ k → e.eval env scope = .ok v →
      v.depth ≤ k * e.depth + m
  | .input name, v, _, hv => by
    have hle := resolve_depth_le h hv
    omega
  | .array items, v, hkey, hv => by
    rw [Expr.eval] at hv
    obtain ⟨values, hvalues, hv⟩ := bind_eq_ok.1 hv
    obtain rfl := Except.ok.inj hv
    have hle := evalItems_depth_le h hk hkey hvalues
    rw [Value.depth, Expr.depth, Nat.mul_succ]
    omega
  | .object entries, v, hkey, hv => by
    rw [Expr.eval] at hv
    obtain ⟨fields, hfields, hv⟩ := bind_eq_ok.1 hv
    obtain rfl := Except.ok.inj hv
    have hle := evalEntries_depth_le h hk hkey (Nat.zero_le _) (Nat.le_refl _) hfields
    rw [Value.depth, Expr.depth, Nat.mul_succ]
    omega
  | .string parts, v, _, hv => by
    rw [Expr.eval] at hv
    obtain ⟨text, -, hv⟩ := bind_eq_ok.1 hv
    obtain rfl := Except.ok.inj hv
    exact Nat.zero_le _
  | .null, v, _, hv | .bool _, v, _, hv | .integer _, v, _, hv | .float _, v, _, hv => by
    cases hv
    exact Nat.zero_le _

theorem evalItems_depth_le (h : scope.DepthLe m) (hk : 1 ≤ k) :
    ∀ {items : List Item} {values : List Value}, itemsLongestKey items ≤ k →
      evalItems env scope items = .ok values → valuesDepth values ≤ k * itemsDepth items + m
  | [], values, _, hvalues => by
    cases hvalues
    exact Nat.zero_le _
  | item :: items, values, hkey, hvalues => by
    obtain ⟨hitem, hitems⟩ := Nat.max_le.1 hkey
    rw [evalItems] at hvalues
    obtain ⟨own, hown, hvalues⟩ := bind_eq_ok.1 hvalues
    obtain ⟨others, hothers, hvalues⟩ := bind_eq_ok.1 hvalues
    obtain rfl := Except.ok.inj hvalues
    have howndepth := valuesDepth_le_iff.1 (Item.eval_depth_le h hk hitem hown)
    have hothersdepth := valuesDepth_le_iff.1 (evalItems_depth_le h hk hitems hothers)
    rw [itemsDepth, ← Nat.mul_max_mul_left]
    refine valuesDepth_le_iff.2 (List.forall_mem_append.2 ⟨fun v hv => ?_, fun v hv => ?_⟩)
    · have := howndepth v hv
      omega
    · have := hothersdepth v hv
      omega

theorem Item.eval_depth_le (h : scope.DepthLe m) (hk : 1 ≤ k) :
    ∀ {item : Item} {values : List Value}, item.longestKey ≤ k →
      item.eval env scope = .ok values → valuesDepth values ≤ k * item.depth + m
  | .value e, values, hkey, hvalues => by
    rw [Item.eval] at hvalues
    obtain ⟨v, hv, hvalues⟩ := bind_eq_ok.1 hvalues
    obtain rfl := Except.ok.inj hvalues
    refine valuesDepth_le_iff.2 fun v' hv' => ?_
    obtain rfl := List.mem_singleton.1 hv'
    exact Expr.eval_depth_le h hk hkey hv
  | .spread name, values, _, hvalues => by
    have hle := resolve_depth_le h (resolveItems_eq_ok hvalues)
    rw [Value.depth] at hle
    omega

/-- Entries leave an object as deep as it was, or as deep as they may nest. -/
theorem evalEntries_depth_le (h : scope.DepthLe m) (hk : 1 ≤ k) {n : Nat} :
    ∀ {entries : List Entry} {fields built : Assoc Value}, entriesLongestKey entries ≤ k →
      fieldsDepth fields ≤ n → k * entriesDepth entries + m + (k - 1) ≤ n →
      evalEntries env scope fields entries = .ok built → fieldsDepth built ≤ n
  | [], fields, built, _, hfields, _, hbuilt => by
    cases hbuilt
    exact hfields
  | entry :: entries, fields, built, hkey, hfields, hn, hbuilt => by
    obtain ⟨hentry, hentries⟩ := Nat.max_le.1 hkey
    rw [entriesDepth, ← Nat.mul_max_mul_left] at hn
    rw [evalEntries] at hbuilt
    obtain ⟨fields', hfields', hbuilt⟩ := bind_eq_ok.1 hbuilt
    have hstep := Entry.eval_depth_le h hk hentry hfields (by omega) hfields'
    exact evalEntries_depth_le h hk hentries hstep (by omega) hbuilt

theorem Entry.eval_depth_le (h : scope.DepthLe m) (hk : 1 ≤ k) {n : Nat} :
    ∀ {entry : Entry} {fields built : Assoc Value}, entry.longestKey ≤ k →
      fieldsDepth fields ≤ n → k * entry.depth + m + (k - 1) ≤ n →
      entry.eval env scope fields = .ok built → fieldsDepth built ≤ n
  | .pair path e, fields, built, hkey, hfields, hn, hbuilt => by
    obtain ⟨hpath, he⟩ := Nat.max_le.1 hkey
    rw [Entry.eval] at hbuilt
    obtain ⟨v, hv, hbuilt⟩ := bind_eq_ok.1 hbuilt
    have hvalue := Expr.eval_depth_le h hk he hv
    rw [Path.segments, List.length_cons] at hpath
    rw [Entry.depth] at hn
    exact insertAt_depth_le hbuilt hfields (by omega)
  | .spread name, fields, built, _, hfields, hn, hbuilt => by
    rw [Entry.eval] at hbuilt
    obtain ⟨source, hsource, hbuilt⟩ := bind_eq_ok.1 hbuilt
    obtain rfl := Except.ok.inj hbuilt
    have hle := resolve_depth_le h (resolveFields_eq_ok hsource)
    rw [Value.depth] at hle
    exact fieldsDepth_insertAll_le hfields (by omega)

end

/-- Each binding adds to the depth of the inputs what its own expression may nest. -/
theorem bindAll_depth_le {n : Nat} {bs : List Binding} {scope' : Scope} (h : scope.DepthLe m)
    (hk : 1 ≤ k) (hkeys : ∀ b ∈ bs, b.expr.longestKey ≤ k) (hdepth : ∀ b ∈ bs, b.depth ≤ n)
    (hbind : bindAll env scope bs = .ok scope') : scope'.DepthLe (m + bs.length * (k * n)) := by
  induction bs generalizing scope m with
  | nil =>
    obtain rfl : scope = scope' := Except.ok.inj hbind
    simpa using h
  | cons b bs ih =>
    obtain ⟨hkey, hkeys⟩ := List.forall_mem_cons.1 hkeys
    obtain ⟨hb, hdepth⟩ := List.forall_mem_cons.1 hdepth
    obtain ⟨v, hv, hbind⟩ := bind_eq_ok.1 hbind
    have hvalue : v.depth ≤ m + k * n := calc
      v.depth ≤ k * b.expr.depth + m := Expr.eval_depth_le h hk hkey hv
      _ ≤ m + k * n := by
        have hle : k * b.expr.depth ≤ k * n := Nat.mul_le_mul_left k hb
        omega
    have hscope : Scope.DepthLe (Assoc.insert scope b.name v) (m + k * n) :=
      fieldsDepth_insert_le (Nat.le_trans h (Nat.le_add_right _ _)) hvalue
    have hall := ih hscope hkeys hdepth hbind
    rwa [List.length_cons, Nat.succ_mul, Nat.add_comm _ (k * n), ← Nat.add_assoc]

end

theorem compile_depth_le {env : Environment} {source : String} {v : Value} {c : Document}
    (hc : documentOf source = .ok c) (hv : compile env source = .ok v) :
    v.depth ≤ nestingLimit * c.longestKey * (c.bindingList.length + 1) := by
  obtain ⟨c', fields, hc', hfields, rfl⟩ := compile_eq_ok_iff.1 hv
  obtain rfl : c = c' := Except.ok.inj (hc.symm.trans hc')
  obtain ⟨-, hdepth⟩ := documentOf_eq_ok_iff.1 hc
  obtain ⟨hbindings, hbody⟩ := Nat.max_le.1 hdepth
  obtain ⟨scope, hscope, hfields⟩ := bind_eq_ok.1 hfields
  obtain ⟨hkeysBindings, hkeysBody⟩ := Nat.max_le.1 (Nat.le_refl c.longestKey)
  have hpos := c.longestKey_pos
  have hstart : Scope.DepthLe [] 0 := Nat.le_refl 0
  have hscopeDepth := bindAll_depth_le hstart hpos (deepest_le_iff.1 hkeysBindings)
    (deepest_le_iff.1 hbindings) hscope
  have hvalue : (Expr.object c.body).eval env scope = .ok (.object fields) := by
    rw [Expr.eval, hfields]
    rfl
  calc (Value.object fields).depth
      ≤ c.longestKey * (Expr.object c.body).depth +
          (0 + c.bindingList.length * (c.longestKey * nestingLimit)) :=
        Expr.eval_depth_le hscopeDepth hpos hkeysBody hvalue
    _ ≤ c.longestKey * nestingLimit + c.bindingList.length * (c.longestKey * nestingLimit) := by
        have hle : c.longestKey * (Expr.object c.body).depth ≤ c.longestKey * nestingLimit :=
          Nat.mul_le_mul_left _ hbody
        omega
    _ = nestingLimit * c.longestKey * (c.bindingList.length + 1) := by
        rw [Nat.mul_comm nestingLimit, Nat.mul_succ, Nat.mul_comm _ (c.bindingList.length),
          Nat.add_comm]

end ConfigLang
