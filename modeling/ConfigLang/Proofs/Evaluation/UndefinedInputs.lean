import ConfigLang.Proofs.Evaluation.References
import ConfigLang.Proofs.Evaluation.Suggesting

/-!
# Where an input is undefined

An evaluation fails in one rule: the expression of a binding, or the body. If it fails for an
undefined input, the rule refers to that input, no binding before the rule has its name, and the
advice is about the names bound until then.

* `eval_eq_error_iff`: an evaluation fails as one rule does in the scope of the bindings before it.
* `Misses`: a computation fails for no undefined inputs but those it refers to.
* `Expr.eval_misses`: so do expressions.
* `keys_bindAll`: the names in a scope, in the order of their first binding.
* `undefined_input_help`: the statement for documents.
-/

namespace ConfigLang

/-! ## The point of failure -/

/-- The rule that is evaluated after some bindings: the expression of the next one, or the object
that the body describes after all of them. -/
inductive Document.Rule (c : Document) : List Binding → Expr → Prop where
  | binding {before after : List Binding} {b : Binding}
    (h : c.bindings.getD [] = before ++ b :: after) : Rule c before b.expr
  | body : Rule c (c.bindings.getD []) (.object c.body)

theorem bindAll_eq_error_iff {env : Environment} {scope : Scope} {bs : List Binding}
    {e : EvalError} :
    bindAll env scope bs = .error e ↔
      ∃ before b after scope', bs = before ++ b :: after ∧
        bindAll env scope before = .ok scope' ∧ b.expr.eval env scope' = .error e := by
  constructor
  · intro h
    induction bs generalizing scope with
    | nil => cases h
    | cons b bs ih =>
      rcases bind_eq_error.1 h with hb | ⟨v, hv, hrest⟩
      · exact ⟨[], b, bs, scope, rfl, rfl, hb⟩
      · obtain ⟨before, b', after, scope', hbs, hbefore, hb'⟩ := ih hrest
        exact ⟨b :: before, b', after, scope', congrArg (b :: ·) hbs,
          bind_eq_ok.2 ⟨v, hv, hbefore⟩, hb'⟩
  · intro h
    obtain ⟨before, b, after, scope', hbs, hbefore, hb⟩ := h
    rw [hbs, bindAll_append]
    exact bind_eq_error.2 (.inr ⟨scope', hbefore, bind_eq_error.2 (.inl hb)⟩)

theorem eval_object_eq_error_iff {env : Environment} {scope : Scope} {entries : List Entry}
    {e : EvalError} :
    (Expr.object entries).eval env scope = .error e ↔
      evalEntries env scope [] entries = .error e := by
  rw [Expr.eval, bind_eq_error]
  simp [pure, Except.pure]

/-- **An evaluation fails in one rule**, in the scope of the bindings before it. -/
theorem eval_eq_error_iff {env : Environment} {c : Document} {e : EvalError} :
    c.eval env = .error e ↔
      ∃ before rule scope, c.Rule before rule ∧ bindAll env [] before = .ok scope ∧
        rule.eval env scope = .error e := by
  rw [Document.eval, bind_eq_error, bindAll_eq_error_iff]
  constructor
  · intro h
    rcases h with ⟨before, b, after, scope, hbs, hbefore, hb⟩ | ⟨scope, hscope, hbody⟩
    · exact ⟨before, b.expr, scope, .binding hbs, hbefore, hb⟩
    · exact ⟨_, _, scope, .body, hscope, eval_object_eq_error_iff.2 hbody⟩
  · intro h
    obtain ⟨before, rule, scope, hrule, hbefore, hfail⟩ := h
    cases hrule with
    | @binding before after b hbs => exact .inl ⟨before, b, after, scope, hbs, hbefore, hfail⟩
    | body => exact .inr ⟨scope, hbefore, eval_object_eq_error_iff.1 hfail⟩

/-! ## Undefined inputs -/

/-- If the computation fails for an undefined input, that is one of `inputs`, and has no value in
the scope; the error comes with the names that have one. -/
def Misses {α : Type} (env : Environment) (scope : Scope) (inputs : List String)
    (x : Except EvalError α) : Prop :=
  ∀ name bound, x = .error (.undefinedInput name bound) →
    name ∈ inputs ∧ Scope.resolve? env scope name = none ∧ bound = Assoc.keys scope

section
variable {α β : Type} {env : Environment} {scope : Scope} {inputs : List String}

theorem Misses.ok (a : α) : Misses env scope inputs (.ok a) := by
  intro name bound h
  cases h

theorem Misses.bind {x : Except EvalError α} {f : α → Except EvalError β}
    (h : Misses env scope inputs x) (hf : ∀ a, Misses env scope inputs (f a)) :
    Misses env scope inputs (x >>= f) := by
  intro name bound herror
  rcases bind_eq_error.1 herror with hx | ⟨a, -, ha⟩
  · exact h name bound hx
  · exact hf a name bound ha

theorem resolve_misses {name : String} (h : name ∈ inputs) :
    Misses env scope inputs (resolve env scope name) := by
  intro name' bound herror
  unfold resolve at herror
  cases hvalue : Scope.resolve? env scope name with
  | some v =>
    rw [hvalue] at herror
    cases herror
  | none =>
    rw [hvalue] at herror
    cases herror
    exact ⟨h, hvalue, rfl⟩

theorem resolveText_misses {name : String} (h : name ∈ inputs) :
    Misses env scope inputs (resolveText env scope name) := by
  apply (resolve_misses h).bind
  intro v name' bound herror
  cases v <;> cases herror

theorem resolveItems_misses {name : String} (h : name ∈ inputs) :
    Misses env scope inputs (resolveItems env scope name) := by
  apply (resolve_misses h).bind
  intro v name' bound herror
  cases v <;> cases herror

theorem resolveFields_misses {name : String} (h : name ∈ inputs) :
    Misses env scope inputs (resolveFields env scope name) := by
  apply (resolve_misses h).bind
  intro v name' bound herror
  cases v <;> cases herror

/-- A write fails for a value on its way only. -/
theorem insertAt_misses (fields : Assoc Value) (segment : String) (rest : List String)
    (value : Value) : Misses env scope inputs (insertAt fields segment rest value) := by
  intro name bound herror
  induction rest generalizing fields segment with
  | nil => cases herror
  | cons next rest ih =>
    rcases insertAt_cons_eq_error herror with ⟨v, -, -, hv⟩ | ⟨child, -, hchild⟩
    · cases hv
    · exact ih child next hchild

theorem evalParts_misses {parts : List Part} (h : parts.flatMap Part.inputs ⊆ inputs) :
    Misses env scope inputs (evalParts env scope parts) := by
  induction parts with
  | nil => exact .ok ""
  | cons part parts ih =>
    rw [List.flatMap_cons, List.append_subset] at h
    obtain ⟨hpart, hparts⟩ := h
    have hfirst : Misses env scope inputs (part.eval env scope) := by
      cases part with
      | input name => exact resolveText_misses (hpart (by simp [Part.inputs]))
      | characters text => exact .ok text
      | escape c => exact .ok (String.singleton c)
    rw [evalParts]
    apply hfirst.bind
    intro text
    exact (ih hparts).bind fun _ => .ok _

mutual

theorem Expr.eval_misses :
    ∀ {e : Expr}, e.inputs ⊆ inputs → Misses env scope inputs (e.eval env scope)
  | .input name, h => resolve_misses (h (by simp [Expr.inputs]))
  | .string parts, h => by
    rw [Expr.inputs] at h
    rw [Expr.eval]
    exact (evalParts_misses h).bind fun _ => .ok _
  | .array items, h => by
    rw [Expr.inputs] at h
    rw [Expr.eval]
    exact (evalItems_misses h).bind fun _ => .ok _
  | .object entries, h => by
    rw [Expr.inputs] at h
    rw [Expr.eval]
    exact (evalEntries_misses h []).bind fun _ => .ok _
  | .null, _ | .bool _, _ | .integer _, _ | .float _, _ => .ok _

theorem evalItems_misses :
    ∀ {items : List Item},
      itemsInputs items ⊆ inputs → Misses env scope inputs (evalItems env scope items)
  | [], _ => .ok []
  | item :: items, h => by
    rw [itemsInputs, List.append_subset] at h
    rw [evalItems]
    apply (Item.eval_misses h.1).bind
    intro values
    exact (evalItems_misses h.2).bind fun _ => .ok _

theorem Item.eval_misses :
    ∀ {item : Item}, item.inputs ⊆ inputs → Misses env scope inputs (item.eval env scope)
  | .value e, h => by
    rw [Item.inputs] at h
    rw [Item.eval]
    exact (Expr.eval_misses h).bind fun _ => .ok _
  | .spread name, h => by
    rw [Item.eval]
    exact resolveItems_misses (h (by simp [Item.inputs]))

theorem evalEntries_misses :
    ∀ {entries : List Entry}, entriesInputs entries ⊆ inputs →
      ∀ fields, Misses env scope inputs (evalEntries env scope fields entries)
  | [], _, fields => .ok fields
  | entry :: entries, h, fields => by
    rw [entriesInputs, List.append_subset] at h
    rw [evalEntries]
    exact (Entry.eval_misses h.1 fields).bind fun fields' => evalEntries_misses h.2 fields'

theorem Entry.eval_misses :
    ∀ {entry : Entry}, entry.inputs ⊆ inputs →
      ∀ fields, Misses env scope inputs (entry.eval env scope fields)
  | .pair path e, h, fields => by
    rw [Entry.inputs] at h
    rw [Entry.eval]
    exact (Expr.eval_misses h).bind fun v => insertAt_misses fields path.first path.rest v
  | .spread name, h, fields => by
    rw [Entry.eval]
    exact (resolveFields_misses (h (by simp [Entry.inputs]))).bind fun _ => .ok _

end

end

/-! ## The names in a scope -/

section
variable {env : Environment} {scope scope' : Scope} {name : String}

/-- The names that are bound already keep their places; new ones follow in the order of their first
binding. -/
theorem keys_bindAll {bs : List Binding} (h : bindAll env scope bs = .ok scope') :
    Assoc.keys scope' = Assoc.keys scope ++
      ((bs.map Binding.name).filter (· ∉ Assoc.keys scope)).eraseDups := by
  induction bs generalizing scope with
  | nil =>
    obtain rfl : scope = scope' := Except.ok.inj h
    simp
  | cons b bs ih =>
    obtain ⟨v, -, h⟩ := bind_eq_ok.1 h
    rw [ih h, Assoc.keys_insert, List.map_cons]
    exact Assoc.append_new_cons _ _ _

theorem keys_bindAll_nil {bs : List Binding} (h : bindAll env [] bs = .ok scope') :
    Assoc.keys scope' = (bs.map Binding.name).eraseDups := by
  simpa [Assoc.keys] using keys_bindAll h

theorem variableOf?_eq_some_iff {v : String} :
    Scope.variableOf? name = some v ↔ v ≠ "" ∧ name = "$_env" ++ v := by
  have hmark : "$_env".toList = Scope.environmentMark := by decide
  rw [← String.toList_inj, String.toList_append, hmark, @eq_comm _ name.toList,
    ← List.isPrefixOf?_eq_some_iff_append_eq, Scope.variableOf?]
  rcases Scope.environmentMark.isPrefixOf? name.toList with _ | _ | ⟨c, cs⟩
  · simp
  · simp
  · have hne : c :: cs = v.toList → v ≠ "" := by
      intro h hv
      simp [hv] at h
    rw [Option.some.injEq, Option.some.injEq, ← String.toList_inj, String.toList_ofList]
    exact ⟨fun h => ⟨hne h, h⟩, fun h => h.2⟩

/-- An input without a value is not bound, nor is the variable set that it may denote. -/
theorem resolve?_eq_none_iff :
    Scope.resolve? env scope name = none ↔
      name ∉ Assoc.keys scope ∧ ∀ v, Scope.variableOf? name = some v → env v = none := by
  rw [← Assoc.get?_eq_none_iff, Scope.resolve?]
  cases Assoc.get? scope name with
  | some v => simp
  | none => cases Scope.variableOf? name <;> simp

end

/-! ## The advice -/

/-- **The advice for an undefined input is right where the evaluation fails.** The rule that fails
refers to the input, and no binding before it has that name. If the input denotes a variable, that
is not set, and the advice says so. Otherwise the advice is about the names of the bindings before
the rule, in the order in which they come first: it suggests the earliest of the nearest ones
exactly where one is within two or three edits, a third of the size of the name in bytes, and that
name is another one than the input; else it lists them, if they are five at most. -/
theorem undefined_input_help {env : Environment} {c : Document} {name : String}
    {bound : List String} (h : c.eval env = .error (.undefinedInput name bound)) :
    ∃ before rule scope, c.Rule before rule ∧ bindAll env [] before = .ok scope ∧
      rule.eval env scope = .error (.undefinedInput name bound) ∧
      name ∈ rule.inputs ∧ (∀ b ∈ before, b.name ≠ name) ∧
      bound = (before.map Binding.name).eraseDups ∧
      (∀ v, v ≠ "" → name = "$_env" ++ v →
        env v = none ∧ (EvalError.undefinedInput name bound).help? =
          some ("environment variable '" ++ v ++ "' is not set")) ∧
      ((∀ v, v ≠ "" → name ≠ "$_env" ++ v) →
        ∃ help, (EvalError.undefinedInput name bound).help? = some help ∧
          Suggestion.Advises name bound (min 3 (max 2 (name.utf8ByteSize / 3))) help) := by
  obtain ⟨before, rule, scope, hrule, hbefore, hfail⟩ := eval_eq_error_iff.1 h
  obtain ⟨hinputs, hvalue, hbound⟩ := Expr.eval_misses (List.Subset.refl _) name bound hfail
  obtain ⟨hunbound, hunset⟩ := resolve?_eq_none_iff.1 hvalue
  have hkeys := keys_bindAll_nil hbefore
  refine ⟨before, rule, scope, hrule, hbefore, hfail, hinputs, ?_, hbound.trans hkeys, ?_, ?_⟩
  · intro b hb hname
    apply hunbound
    rw [hkeys, List.mem_eraseDups]
    exact List.mem_map.2 ⟨b, hb, hname⟩
  · intro v hv hname
    have hvariable := variableOf?_eq_some_iff.2 ⟨hv, hname⟩
    exact ⟨hunset v hvariable, by simp only [EvalError.help?, hvariable]⟩
  · intro hother
    have hvariable : Scope.variableOf? name = none := by
      rw [Option.eq_none_iff_forall_ne_some]
      intro v hv
      obtain ⟨hne, hname⟩ := variableOf?_eq_some_iff.1 hv
      exact hother v hne hname
    rw [← hbound] at hunbound
    exact ⟨_, by simp only [EvalError.help?, hvariable],
      Suggestion.forUnbound_advises hunbound⟩

/-- `$port` and `$post` are both one edit away from `$pott`. The second binding of `$port` leaves
the name in its place, so that it is the one suggested. -/
theorem undefined_input_help_of_misspelt :
    let bindings : List Binding :=
      [⟨"$port", .integer 1⟩, ⟨"$post", .integer 2⟩, ⟨"$port", .integer 3⟩]
    let c : Document := ⟨some bindings, [.pair ⟨"a", []⟩ (.input "$pott")]⟩
    let e : EvalError := .undefinedInput "$pott" ["$port", "$post"]
    c.eval (fun _ => none) = .error e ∧ e.help? = some "did you mean '$port'?" ∧
      Suggestion.IsNearest "$pott" ["$port", "$post"] "$port" := by
  intro bindings c e
  have hfail : c.eval (fun _ => none) = .error e := by rfl
  have hhelp : e.help? = some "did you mean '$port'?" := by decide +kernel
  obtain ⟨-, -, -, -, -, -, -, -, -, -, hadvice⟩ := undefined_input_help hfail
  have hother : ∀ v, v ≠ "" → "$pott" ≠ "$_env" ++ v := by
    intro v _ hname
    simpa using congrArg String.toList hname
  obtain ⟨help, hhelp', hadvises⟩ := hadvice hother
  obtain rfl := Option.some.inj (hhelp.symm.trans hhelp')
  exact ⟨hfail, hhelp, (hadvises.suggested "$port" (by decide)).1⟩

end ConfigLang
