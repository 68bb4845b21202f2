import ConfigLang.Proofs.Evaluation.Kinds
import ConfigLang.Proofs.Evaluation.Literals

/-!
# Inlining

An input may be replaced by the literal of its value. This changes neither the value of an
expression nor its errors, and a document whose body refers to bound inputs only needs no bindings
any more.

* `Expr.eval_inline`: an expression and its inlined form evaluate alike.
* `Expr.eval_of_closed`: without inputs, scope and environment do not matter.
* `inlining_preserves_evaluation`: both, and what follows for documents.
-/

namespace ConfigLang

/-! ## Inlining -/

/-- A piece of a string, with the text of a bound string in place of its name. -/
def Part.inline (scope : Scope) : Part → Part
  | .input name =>
    match Assoc.get? scope name with
    | some (.string text) => .characters text
    | _ => .input name
  | part => part

mutual

/-- An expression with the literals of bound inputs in place of their names. An input that is bound
to something of the wrong kind for its place stays. -/
def Expr.inline (scope : Scope) : Expr → Expr
  | .input name =>
    match Assoc.get? scope name with
    | some v => v.literal
    | none => .input name
  | .string parts => .string (parts.map (Part.inline scope))
  | .array items => .array (inlineItems scope items)
  | .object entries => .object (inlineEntries scope entries)
  | e => e

def inlineItems (scope : Scope) : List Item → List Item
  | [] => []
  | item :: items => item.inline scope ++ inlineItems scope items

/-- The items in place of one item: for the spread of a bound array all its items. -/
def Item.inline (scope : Scope) : Item → List Item
  | .value e => [.value (e.inline scope)]
  | .spread name =>
    match Assoc.get? scope name with
    | some (.array items) => literalItems items
    | _ => [.spread name]

def inlineEntries (scope : Scope) : List Entry → List Entry
  | [] => []
  | entry :: entries => entry.inline scope ++ inlineEntries scope entries

/-- The entries in place of one entry: for the spread of a bound object one for each field. -/
def Entry.inline (scope : Scope) : Entry → List Entry
  | .pair path e => [.pair path (e.inline scope)]
  | .spread name =>
    match Assoc.get? scope name with
    | some (.object fields) => literalEntries fields
    | _ => [.spread name]

end

/-! ## The inlined form evaluates alike -/

section
variable {env : Environment} {scope : Scope}

theorem resolve_of_get? {name : String} {v : Value} (h : Assoc.get? scope name = some v) :
    resolve env scope name = .ok v := by
  rw [resolve, Scope.resolve?, h]

theorem Part.eval_inline (part : Part) :
    (part.inline scope).eval env scope = part.eval env scope := by
  cases part with
  | input name =>
    rw [Part.inline]
    split
    · rename_i text hget
      rw [Part.eval, Part.eval, resolveText, resolve_of_get? hget]
      rfl
    · rfl
  | _ => rfl

theorem evalParts_inline (parts : List Part) :
    evalParts env scope (parts.map (Part.inline scope)) = evalParts env scope parts := by
  induction parts with
  | nil => rfl
  | cons part parts ih => rw [List.map_cons, evalParts, evalParts, part.eval_inline, ih]

theorem evalItems_singleton (item : Item) : evalItems env scope [item] = item.eval env scope := by
  rw [evalItems, evalItems]
  cases item.eval env scope with
  | error e => rfl
  | ok values => exact congrArg Except.ok (List.append_nil values)

theorem evalEntries_singleton (fields : Assoc Value) (entry : Entry) :
    evalEntries env scope fields [entry] = entry.eval env scope fields := by
  rw [evalEntries]
  exact bind_pure _

mutual

theorem Expr.eval_inline (h : scope.HasDistinctKeys) :
    ∀ e : Expr, (e.inline scope).eval env scope = e.eval env scope
  | .input name => by
    rw [Expr.inline]
    split
    · rename_i v hget
      rw [v.eval_literal env scope (h _ (Assoc.mem_of_get? hget)), Expr.eval, resolve_of_get? hget]
    · rfl
  | .string parts => by rw [Expr.inline, Expr.eval, Expr.eval, evalParts_inline]
  | .array items => by rw [Expr.inline, Expr.eval, Expr.eval, evalItems_inline h items]
  | .object entries => by rw [Expr.inline, Expr.eval, Expr.eval, evalEntries_inline h [] entries]
  | .null | .bool _ | .integer _ | .float _ => by rw [Expr.inline] <;> simp

theorem evalItems_inline (h : scope.HasDistinctKeys) :
    ∀ items : List Item, evalItems env scope (inlineItems scope items) = evalItems env scope items
  | [] => by rw [inlineItems]
  | item :: items => by
    rw [inlineItems, evalItems_append, Item.eval_inline h item, evalItems_inline h items, evalItems]

theorem Item.eval_inline (h : scope.HasDistinctKeys) :
    ∀ item : Item, evalItems env scope (item.inline scope) = item.eval env scope
  | .value e => by
    rw [Item.inline, evalItems_singleton, Item.eval, Item.eval, Expr.eval_inline h e]
  | .spread name => by
    rw [Item.inline]
    split
    · rename_i items hget
      have hitems := hasDistinctKeys_array.1 (h _ (Assoc.mem_of_get? hget))
      rw [evalItems_literalItems env scope hitems, Item.eval, resolveItems, resolve_of_get? hget]
      rfl
    · rw [evalItems_singleton]

theorem evalEntries_inline (h : scope.HasDistinctKeys) (fields : Assoc Value) :
    ∀ entries : List Entry,
      evalEntries env scope fields (inlineEntries scope entries) =
        evalEntries env scope fields entries
  | [] => by rw [inlineEntries]
  | entry :: entries => by
    rw [inlineEntries, evalEntries_append, Entry.eval_inline h fields entry, evalEntries]
    exact bind_congr fun fields' => evalEntries_inline h fields' entries

theorem Entry.eval_inline (h : scope.HasDistinctKeys) (fields : Assoc Value) :
    ∀ entry : Entry,
      evalEntries env scope fields (entry.inline scope) = entry.eval env scope fields
  | .pair path e => by
    rw [Entry.inline, evalEntries_singleton, Entry.eval, Entry.eval, Expr.eval_inline h e]
  | .spread name => by
    rw [Entry.inline]
    split
    · rename_i source hget
      have hsource := (hasDistinctKeys_object.1 (h _ (Assoc.mem_of_get? hget))).2
      rw [evalEntries_literalEntries env scope fields hsource, Entry.eval, resolveFields,
        resolve_of_get? hget]
      rfl
    · rw [evalEntries_singleton]

end

end

/-! ## Expressions without inputs -/

/-- Kinds under which no input has a value: only what refers to none is well kinded. -/
def Kinding.none : Kinding := fun _ => Option.none

section
variable {env env' : Environment} {scope scope' : Scope}

theorem evalParts_of_closed {parts : List Part} (h : parts.all (Part.wellKinded .none) = true) :
    evalParts env scope parts = evalParts env' scope' parts := by
  induction parts with
  | nil => rfl
  | cons part parts ih =>
    rw [List.all_cons, Bool.and_eq_true] at h
    rw [evalParts, evalParts, ih h.2]
    cases part with
    | input name => cases h.1
    | _ => rfl

mutual

theorem Expr.eval_of_closed :
    ∀ {e : Expr}, e.wellKinded .none = true → e.eval env scope = e.eval env' scope'
  | .input name, h => by cases h
  | .string parts, h => by
    rw [Expr.wellKinded] at h
    rw [Expr.eval, Expr.eval, evalParts_of_closed h]
  | .array items, h => by
    rw [Expr.wellKinded] at h
    rw [Expr.eval, Expr.eval, evalItems_of_closed h]
  | .object entries, h => by
    rw [Expr.wellKinded] at h
    rw [Expr.eval, Expr.eval, evalEntries_of_closed h]
  | .null, _ | .bool _, _ | .integer _, _ | .float _, _ => rfl

theorem evalItems_of_closed :
    ∀ {items : List Item}, itemsWellKinded .none items = true →
      evalItems env scope items = evalItems env' scope' items
  | [], _ => rfl
  | item :: items, h => by
    rw [itemsWellKinded, Bool.and_eq_true] at h
    rw [evalItems, evalItems, Item.eval_of_closed h.1, evalItems_of_closed h.2]

theorem Item.eval_of_closed :
    ∀ {item : Item}, item.wellKinded .none = true → item.eval env scope = item.eval env' scope'
  | .value e, h => by
    rw [Item.wellKinded] at h
    rw [Item.eval, Item.eval, Expr.eval_of_closed h]
  | .spread name, h => by cases h

theorem evalEntries_of_closed :
    ∀ {entries : List Entry} {fields : Assoc Value}, entriesWellKinded .none entries = true →
      evalEntries env scope fields entries = evalEntries env' scope' fields entries
  | [], _, _ => rfl
  | entry :: entries, fields, h => by
    rw [entriesWellKinded, Bool.and_eq_true] at h
    rw [evalEntries, evalEntries, Entry.eval_of_closed h.1]
    exact bind_congr fun fields' => evalEntries_of_closed h.2

theorem Entry.eval_of_closed :
    ∀ {entry : Entry} {fields : Assoc Value}, entry.wellKinded .none = true →
      entry.eval env scope fields = entry.eval env' scope' fields
  | .pair path e, fields, h => by
    rw [Entry.wellKinded] at h
    rw [Entry.eval, Entry.eval, Expr.eval_of_closed h]
  | .spread name, _, h => by cases h

end

end

/-! ## Inlining leaves no bound input -/

section
variable (kinds : Kinding)

theorem literalParts_wellKinded (cs : List Char) :
    (literalParts cs).all (Part.wellKinded kinds) = true := by
  induction cs with
  | nil => rfl
  | cons c cs ih =>
    rw [literalParts]
    split
    · unfold prependCharacter
      split
      · rename_i text parts hparts
        rw [hparts] at ih
        exact ih
      · exact ih
    · exact ih

mutual

theorem Value.literal_wellKinded : ∀ v : Value, v.literal.wellKinded kinds = true
  | .string s => by
    rw [Value.literal, Expr.wellKinded]
    exact literalParts_wellKinded kinds s.toList
  | .array items => by
    rw [Value.literal, Expr.wellKinded, literalItems_wellKinded items]
  | .object fields => by
    rw [Value.literal, Expr.wellKinded, literalEntries_wellKinded fields]
  | .null | .bool _ | .integer _ | .float _ => rfl

theorem literalItems_wellKinded :
    ∀ items : List Value, itemsWellKinded kinds (literalItems items) = true
  | [] => rfl
  | v :: vs => by
    rw [literalItems, itemsWellKinded, Item.wellKinded, v.literal_wellKinded,
      literalItems_wellKinded vs, Bool.and_true]

theorem literalEntries_wellKinded :
    ∀ fields : List (String × Value), entriesWellKinded kinds (literalEntries fields) = true
  | [] => rfl
  | (key, v) :: fields => by
    rw [literalEntries, entriesWellKinded, Entry.wellKinded, v.literal_wellKinded,
      literalEntries_wellKinded fields, Bool.and_true]

end

theorem itemsWellKinded_append (before after : List Item) :
    itemsWellKinded kinds (before ++ after) =
      (itemsWellKinded kinds before && itemsWellKinded kinds after) := by
  induction before with
  | nil => rfl
  | cons item before ih =>
    rw [List.cons_append, itemsWellKinded, itemsWellKinded, ih, Bool.and_assoc]

theorem entriesWellKinded_append (before after : List Entry) :
    entriesWellKinded kinds (before ++ after) =
      (entriesWellKinded kinds before && entriesWellKinded kinds after) := by
  induction before with
  | nil => rfl
  | cons entry before ih =>
    rw [List.cons_append, entriesWellKinded, entriesWellKinded, ih, Bool.and_assoc]

end

/-- The kinds of bound inputs; the environment has no part in them. -/
def Scope.kinds (scope : Scope) : Kinding := fun name => (Assoc.get? scope name).map Value.kind

section
variable {scope : Scope}

theorem Part.inline_closed {part : Part} (h : part.wellKinded scope.kinds = true) :
    (part.inline scope).wellKinded .none = true := by
  cases part with
  | input name =>
    rw [Part.wellKinded, decide_eq_true_eq] at h
    obtain ⟨v, hget, hkind⟩ := Option.map_eq_some_iff.1 h
    cases v with
    | string text =>
      rw [Part.inline, hget]
      rfl
    | _ => cases hkind
  | _ => rfl

mutual

theorem Expr.inline_closed :
    ∀ {e : Expr}, e.wellKinded scope.kinds = true → (e.inline scope).wellKinded .none = true
  | .input name, h => by
    rw [Expr.wellKinded, Scope.kinds, Option.isSome_map, Option.isSome_iff_exists] at h
    obtain ⟨v, hget⟩ := h
    rw [Expr.inline, hget]
    exact v.literal_wellKinded .none
  | .string parts, h => by
    rw [Expr.wellKinded, List.all_eq_true] at h
    rw [Expr.inline, Expr.wellKinded, List.all_map, List.all_eq_true]
    exact fun part hpart => Part.inline_closed (h part hpart)
  | .array items, h => by
    rw [Expr.wellKinded] at h
    rw [Expr.inline, Expr.wellKinded, inlineItems_closed h]
  | .object entries, h => by
    rw [Expr.wellKinded] at h
    rw [Expr.inline, Expr.wellKinded, inlineEntries_closed h]
  | .null, _ | .bool _, _ | .integer _, _ | .float _, _ => rfl

theorem inlineItems_closed :
    ∀ {items : List Item}, itemsWellKinded scope.kinds items = true →
      itemsWellKinded .none (inlineItems scope items) = true
  | [], _ => rfl
  | item :: items, h => by
    rw [itemsWellKinded, Bool.and_eq_true] at h
    rw [inlineItems, itemsWellKinded_append, Item.inline_closed h.1, inlineItems_closed h.2,
      Bool.and_true]

theorem Item.inline_closed :
    ∀ {item : Item}, item.wellKinded scope.kinds = true →
      itemsWellKinded .none (item.inline scope) = true
  | .value e, h => by
    rw [Item.wellKinded] at h
    rw [Item.inline, itemsWellKinded, Item.wellKinded, Expr.inline_closed h, itemsWellKinded,
      Bool.and_true]
  | .spread name, h => by
    rw [Item.wellKinded, decide_eq_true_eq] at h
    obtain ⟨v, hget, hkind⟩ := Option.map_eq_some_iff.1 h
    cases v with
    | array items =>
      rw [Item.inline, hget]
      exact literalItems_wellKinded .none items
    | _ => cases hkind

theorem inlineEntries_closed :
    ∀ {entries : List Entry}, entriesWellKinded scope.kinds entries = true →
      entriesWellKinded .none (inlineEntries scope entries) = true
  | [], _ => rfl
  | entry :: entries, h => by
    rw [entriesWellKinded, Bool.and_eq_true] at h
    rw [inlineEntries, entriesWellKinded_append, Entry.inline_closed h.1,
      inlineEntries_closed h.2, Bool.and_true]

theorem Entry.inline_closed :
    ∀ {entry : Entry}, entry.wellKinded scope.kinds = true →
      entriesWellKinded .none (entry.inline scope) = true
  | .pair path e, h => by
    rw [Entry.wellKinded] at h
    rw [Entry.inline, entriesWellKinded, Entry.wellKinded, Expr.inline_closed h,
      entriesWellKinded, Bool.and_true]
  | .spread name, h => by
    rw [Entry.wellKinded, decide_eq_true_eq] at h
    obtain ⟨v, hget, hkind⟩ := Option.map_eq_some_iff.1 h
    cases v with
    | object fields =>
      rw [Entry.inline, hget]
      exact literalEntries_wellKinded .none fields
    | _ => cases hkind

end

end

/-! ## Documents -/

/-- The body of a document, with its bound inputs inlined, stands for the whole document. -/
theorem Document.eval_inline {env : Environment} {c : Document} {scope : Scope}
    (hscope : bindAll env [] (c.bindings.getD []) = .ok scope)
    (hbody : entriesWellKinded scope.kinds c.body = true) :
    c.eval env = Document.eval env ⟨none, inlineEntries scope c.body⟩ := by
  have hempty : Scope.HasDistinctKeys [] := by simp [Scope.HasDistinctKeys]
  have hkeys : scope.HasDistinctKeys := bindAll_hasDistinctKeys hempty hscope
  calc c.eval env = evalEntries env scope [] c.body := by rw [Document.eval, hscope]; rfl
    _ = evalEntries env scope [] (inlineEntries scope c.body) :=
      (evalEntries_inline hkeys [] _).symm
    _ = evalEntries env [] [] (inlineEntries scope c.body) :=
      evalEntries_of_closed (inlineEntries_closed hbody)

/-- **Inlining preserves evaluation**, of expressions and of the lists that they are made of,
results and errors alike. A document whose bindings have values and whose body refers only to what they
bind, at the right kind, evaluates as its inlined body does without bindings. -/
theorem inlining_preserves_evaluation :
    (∀ (env : Environment) (scope : Scope), scope.HasDistinctKeys →
      (∀ e : Expr, (e.inline scope).eval env scope = e.eval env scope) ∧
      (∀ fields entries, evalEntries env scope fields (inlineEntries scope entries) =
        evalEntries env scope fields entries) ∧
      (∀ items, evalItems env scope (inlineItems scope items) = evalItems env scope items) ∧
      ∀ parts, evalParts env scope (parts.map (Part.inline scope)) =
        evalParts env scope parts) ∧
    ∀ (env : Environment) (c : Document) (scope : Scope),
      bindAll env [] (c.bindings.getD []) = .ok scope →
      entriesWellKinded scope.kinds c.body = true →
      c.eval env = Document.eval env ⟨none, inlineEntries scope c.body⟩ :=
  ⟨fun _ _ h => ⟨Expr.eval_inline h, evalEntries_inline h, evalItems_inline h, evalParts_inline⟩,
    fun _ _ _ hscope hbody => Document.eval_inline hscope hbody⟩

/-- A spread, an interpolation and an input, each with what it stands for in its place. -/
theorem inlining_preserves_evaluation_of_bound :
    Document.eval (fun _ => none)
        ⟨some [⟨"$s", .string [.characters "x"]⟩,
            ⟨"$o", .object [.pair ⟨"a", ["b"]⟩ (.input "$s")]⟩],
          [.pair ⟨"a", ["c"]⟩ .null, .spread "$o", .pair ⟨"t", []⟩ (.string [.input "$s"]),
            .pair ⟨"u", []⟩ (.input "$s")]⟩ =
      Document.eval (fun _ => none)
        ⟨none,
          [.pair ⟨"a", ["c"]⟩ .null,
            .pair ⟨"a", []⟩ (.object [.pair ⟨"b", []⟩ (.string [.characters "x"])]),
            .pair ⟨"t", []⟩ (.string [.characters "x"]),
            .pair ⟨"u", []⟩ (.string [.characters "x"])]⟩ :=
  inlining_preserves_evaluation.2 _ _
    [("$s", .string "x"), ("$o", .object [("a", .object [("b", .string "x")])])] rfl rfl

end ConfigLang
