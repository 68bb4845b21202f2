import ConfigLang.Proofs.Evaluation.Evaluating

/-!
# What a result depends on

Evaluation looks up the inputs that a document refers to, and of them only those that it has not
bound itself come from elsewhere. So bindings that nothing refers to may go, independent bindings
may change places, and variables that are not looked up may have any value.

* `Expr.inputs`, `Document.Reads`: the inputs that are referred to, and those of them that are
  looked up before a binding of their name.
* `Carries`: two computations of which the second has all results of the first.
* `Expr.eval_carries`: expressions carry over what their inputs carry over.
* `evalFrom_carries`: so do bindings followed by a body, in scopes that agree on what these read.
* `result_depends_on_references`: the statement for documents.
-/

namespace ConfigLang

/-! ## References -/

/-- The input that a piece of a string refers to, if it is one. -/
def Part.inputs : Part → List String
  | .input name => [name]
  | .characters _ | .escape _ => []

mutual

/-- The inputs that an expression refers to, as values, in spreads and in strings. -/
def Expr.inputs : Expr → List String
  | .input name => [name]
  | .string parts => parts.flatMap Part.inputs
  | .array items => itemsInputs items
  | .object entries => entriesInputs entries
  | .null | .bool _ | .integer _ | .float _ => []

def itemsInputs : List Item → List String
  | [] => []
  | item :: items => item.inputs ++ itemsInputs items

def Item.inputs : Item → List String
  | .value e => e.inputs
  | .spread name => [name]

def entriesInputs : List Entry → List String
  | [] => []
  | entry :: entries => entry.inputs ++ entriesInputs entries

def Entry.inputs : Entry → List String
  | .pair _ e => e.inputs
  | .spread name => [name]

end

/-- A document refers to an input where none of its bindings has bound it yet: in the expression of
a binding that no binding of the name precedes, or in its body if it does not bind the name. -/
def Document.Reads (c : Document) (name : String) : Prop :=
  (∃ before b after, c.bindings.getD [] = before ++ b :: after ∧ name ∈ b.expr.inputs ∧
    ∀ b' ∈ before, b'.name ≠ name) ∨
  name ∈ entriesInputs c.body ∧ ∀ b ∈ c.bindings.getD [], b.name ≠ name

theorem reads_nil_iff {body : List Entry} {name : String} :
    Document.Reads ⟨some [], body⟩ name ↔ name ∈ entriesInputs body := by
  simp [Document.Reads]

theorem reads_cons_iff {b : Binding} {bs : List Binding} {body : List Entry} {name : String} :
    Document.Reads ⟨some (b :: bs), body⟩ name ↔
      name ∈ b.expr.inputs ∨ b.name ≠ name ∧ Document.Reads ⟨some bs, body⟩ name := by
  constructor
  · rintro (⟨before, b', after, hbs, hname, hbefore⟩ | ⟨hname, hbs⟩)
    · cases before with
      | nil =>
        obtain ⟨rfl, -⟩ := List.cons.inj hbs
        exact .inl hname
      | cons first before =>
        obtain ⟨rfl, hrest⟩ := List.cons.inj hbs
        obtain ⟨hfirst, hbefore⟩ := List.forall_mem_cons.1 hbefore
        exact .inr ⟨hfirst, .inl ⟨before, b', after, hrest, hname, hbefore⟩⟩
    · obtain ⟨hb, hbs⟩ := List.forall_mem_cons.1 hbs
      exact .inr ⟨hb, .inr ⟨hname, hbs⟩⟩
  · rintro (hname | ⟨hb, ⟨before, b', after, hbs, hname, hbefore⟩ | ⟨hname, hbs⟩⟩)
    · exact .inl ⟨[], b, bs, rfl, hname, by simp⟩
    · refine .inl ⟨b :: before, b', after, ?_, hname, List.forall_mem_cons.2 ⟨hb, hbefore⟩⟩
      exact congrArg (b :: ·) hbs
    · exact .inr ⟨hname, List.forall_mem_cons.2 ⟨hb, hbs⟩⟩

/-! ## Computations that carry over -/

/-- The second computation has the result of the first if there is one, and otherwise its error if
`strict`. -/
def Carries {ε α : Type} (strict : Prop) (x y : Except ε α) : Prop :=
  match x with
  | .ok a => y = .ok a
  | .error e => strict → y = .error e

section
variable {ε α β : Type} {strict : Prop} {x y : Except ε α}

theorem Carries.refl (x : Except ε α) : Carries strict x x := by
  cases x with
  | ok a => rfl
  | error e => exact fun _ => rfl

theorem Carries.bind {f g : α → Except ε β} (h : Carries strict x y)
    (hf : ∀ a, x = .ok a → Carries strict (f a) (g a)) : Carries strict (x >>= f) (y >>= g) := by
  cases x with
  | ok a =>
    obtain rfl : y = .ok a := h
    exact hf a rfl
  | error e =>
    intro hs
    obtain rfl : y = .error e := h hs
    rfl

theorem Carries.eq_ok {a : α} (h : Carries strict x y) (hx : x = .ok a) : y = .ok a := by
  subst hx
  exact h

theorem Carries.eq (h : Carries True x y) : y = x := by
  cases x with
  | ok a => exact h
  | error e => exact h trivial

end

/-! ## Expressions -/

section
variable {strict : Prop} {env env' : Environment} {scope scope' : Scope}

/-- An input with the same value in both scopes is carried over, error and all if the scopes bind
the same names. -/
theorem resolve_carries {name : String}
    (hkeys : strict → Assoc.keys scope' = Assoc.keys scope)
    (h : Scope.resolve? env' scope' name = Scope.resolve? env scope name) :
    Carries strict (resolve env scope name) (resolve env' scope' name) := by
  unfold resolve
  rw [h]
  cases Scope.resolve? env scope name with
  | some v => rfl
  | none =>
    intro hs
    rw [hkeys hs]

theorem part_carries {part : Part}
    (h : ∀ name ∈ part.inputs, Carries strict (resolve env scope name) (resolve env' scope' name)) :
    Carries strict (part.eval env scope) (part.eval env' scope') := by
  cases part with
  | input name =>
    show Carries strict (resolveText env scope name) (resolveText env' scope' name)
    apply (h name (by simp [Part.inputs])).bind
    intro v _
    exact .refl _
  | _ => exact .refl _

theorem evalParts_carries {parts : List Part}
    (h : ∀ name ∈ parts.flatMap Part.inputs,
      Carries strict (resolve env scope name) (resolve env' scope' name)) :
    Carries strict (evalParts env scope parts) (evalParts env' scope' parts) := by
  induction parts with
  | nil => rfl
  | cons part parts ih =>
    rw [List.flatMap_cons] at h
    obtain ⟨hpart, hparts⟩ := List.forall_mem_append.1 h
    rw [evalParts, evalParts]
    apply (part_carries hpart).bind
    intro text _
    exact (ih hparts).bind fun _ _ => .refl _

mutual

theorem Expr.eval_carries :
    ∀ {e : Expr},
      (∀ name ∈ e.inputs, Carries strict (resolve env scope name) (resolve env' scope' name)) →
        Carries strict (e.eval env scope) (e.eval env' scope')
  | .input name, h => h name (by simp [Expr.inputs])
  | .string parts, h => by
    rw [Expr.inputs] at h
    rw [Expr.eval, Expr.eval]
    exact (evalParts_carries h).bind fun _ _ => .refl _
  | .array items, h => by
    rw [Expr.inputs] at h
    rw [Expr.eval, Expr.eval]
    exact (evalItems_carries h).bind fun _ _ => .refl _
  | .object entries, h => by
    rw [Expr.inputs] at h
    rw [Expr.eval, Expr.eval]
    exact (evalEntries_carries h []).bind fun _ _ => .refl _
  | .null, _ | .bool _, _ | .integer _, _ | .float _, _ => rfl

theorem evalItems_carries :
    ∀ {items : List Item},
      (∀ name ∈ itemsInputs items,
        Carries strict (resolve env scope name) (resolve env' scope' name)) →
        Carries strict (evalItems env scope items) (evalItems env' scope' items)
  | [], _ => rfl
  | item :: items, h => by
    rw [itemsInputs] at h
    obtain ⟨hitem, hitems⟩ := List.forall_mem_append.1 h
    rw [evalItems, evalItems]
    apply (Item.eval_carries hitem).bind
    intro values _
    exact (evalItems_carries hitems).bind fun _ _ => .refl _

theorem Item.eval_carries :
    ∀ {item : Item},
      (∀ name ∈ item.inputs, Carries strict (resolve env scope name) (resolve env' scope' name)) →
        Carries strict (item.eval env scope) (item.eval env' scope')
  | .value e, h => by
    rw [Item.inputs] at h
    rw [Item.eval, Item.eval]
    exact (Expr.eval_carries h).bind fun _ _ => .refl _
  | .spread name, h => by
    rw [Item.eval, Item.eval]
    exact (h name (by simp [Item.inputs])).bind fun _ _ => .refl _

theorem evalEntries_carries :
    ∀ {entries : List Entry},
      (∀ name ∈ entriesInputs entries,
        Carries strict (resolve env scope name) (resolve env' scope' name)) →
        ∀ fields, Carries strict (evalEntries env scope fields entries)
          (evalEntries env' scope' fields entries)
  | [], _, _ => rfl
  | entry :: entries, h, fields => by
    rw [entriesInputs] at h
    obtain ⟨hentry, hentries⟩ := List.forall_mem_append.1 h
    rw [evalEntries, evalEntries]
    apply (Entry.eval_carries hentry fields).bind
    intro fields' _
    exact evalEntries_carries hentries fields'

theorem Entry.eval_carries :
    ∀ {entry : Entry},
      (∀ name ∈ entry.inputs, Carries strict (resolve env scope name) (resolve env' scope' name)) →
        ∀ fields, Carries strict (entry.eval env scope fields) (entry.eval env' scope' fields)
  | .pair path e, h, fields => by
    rw [Entry.inputs] at h
    rw [Entry.eval, Entry.eval]
    exact (Expr.eval_carries h).bind fun _ _ => .refl _
  | .spread name, h, fields => by
    rw [Entry.eval, Entry.eval]
    apply Carries.bind
    · exact (h name (by simp [Entry.inputs])).bind fun _ _ => .refl _
    · intro source _
      exact .refl _

end

end

/-! ## Bindings and body -/

/-- The fields of the object that bindings and a body describe where `scope` is bound already. -/
def evalFrom (env : Environment) (scope : Scope) (bs : List Binding) (body : List Entry) :
    Except EvalError (Assoc Value) :=
  bindAll env scope bs >>= fun scope => evalEntries env scope [] body

section
variable {strict : Prop} {env env' : Environment} {scope scope' : Scope} {body : List Entry}

theorem evalFrom_append (before after : List Binding) :
    evalFrom env scope (before ++ after) body =
      bindAll env scope before >>= fun scope => evalFrom env scope after body := by
  unfold evalFrom
  rw [bindAll_append, bind_assoc]

theorem evalFrom_cons (b : Binding) (bs : List Binding) :
    evalFrom env scope (b :: bs) body =
      b.expr.eval env scope >>= fun v => evalFrom env (Assoc.insert scope b.name v) bs body := by
  unfold evalFrom
  rw [bindAll, bind_assoc]

/-- Scopes that agree on what bindings and body read give the same result, and the same error if
they bind the same names. -/
theorem evalFrom_carries {bs : List Binding}
    (hkeys : strict → Assoc.keys scope' = Assoc.keys scope)
    (h : ∀ name, Document.Reads ⟨some bs, body⟩ name →
      Scope.resolve? env' scope' name = Scope.resolve? env scope name) :
    Carries strict (evalFrom env scope bs body) (evalFrom env' scope' bs body) := by
  induction bs generalizing scope scope' with
  | nil =>
    have hbody : ∀ name ∈ entriesInputs body,
        Carries strict (resolve env scope name) (resolve env' scope' name) := by
      intro name hname
      exact resolve_carries hkeys (h name (reads_nil_iff.2 hname))
    exact evalEntries_carries hbody []
  | cons b bs ih =>
    have hexpr : ∀ name ∈ b.expr.inputs,
        Carries strict (resolve env scope name) (resolve env' scope' name) := by
      intro name hname
      exact resolve_carries hkeys (h name (reads_cons_iff.2 (.inl hname)))
    rw [evalFrom_cons, evalFrom_cons]
    apply (Expr.eval_carries hexpr).bind
    intro v _
    apply ih
    · intro hs
      rw [Assoc.keys_insert, Assoc.keys_insert, hkeys hs]
    · intro name hname
      rw [resolve?_insert, resolve?_insert]
      by_cases hb : b.name = name
      · simp [hb]
      · simp [hb, h name (reads_cons_iff.2 (.inr ⟨hb, hname⟩))]

end

/-! ## Changes of a document and its environment -/

section
variable {env : Environment} {scope : Scope} {body : List Entry} {fields : Assoc Value}

/-- A binding of a name that is not read after it may go. -/
theorem evalFrom_delete {before after : List Binding} {b : Binding}
    (h : evalFrom env scope (before ++ b :: after) body = .ok fields)
    (hb : ¬ Document.Reads ⟨some after, body⟩ b.name) :
    evalFrom env scope (before ++ after) body = .ok fields := by
  rw [evalFrom_append] at h ⊢
  obtain ⟨between, hbetween, h⟩ := bind_eq_ok.1 h
  rw [evalFrom_cons] at h
  obtain ⟨v, -, h⟩ := bind_eq_ok.1 h
  have hcarries : Carries False (evalFrom env (Assoc.insert between b.name v) after body)
      (evalFrom env between after body) := by
    apply evalFrom_carries False.elim
    intro name hname
    have hne : b.name ≠ name := fun he => hb (he ▸ hname)
    simp [resolve?_insert, hne]
  exact bind_eq_ok.2 ⟨between, hbetween, hcarries.eq_ok h⟩

/-- Neighbouring bindings of different names that do not refer to each other may change places. -/
theorem evalFrom_swap {before after : List Binding} {b b' : Binding}
    (h : evalFrom env scope (before ++ b :: b' :: after) body = .ok fields)
    (hne : b.name ≠ b'.name) (hb : b.name ∉ b'.expr.inputs) (hb' : b'.name ∉ b.expr.inputs) :
    evalFrom env scope (before ++ b' :: b :: after) body = .ok fields := by
  rw [evalFrom_append] at h ⊢
  obtain ⟨between, hbetween, h⟩ := bind_eq_ok.1 h
  rw [evalFrom_cons] at h
  obtain ⟨v, hv, h⟩ := bind_eq_ok.1 h
  rw [evalFrom_cons] at h
  obtain ⟨v', hv', h⟩ := bind_eq_ok.1 h
  have hfirst : b'.expr.eval env between = .ok v' := by
    refine Carries.eq_ok (show Carries False _ _ from Expr.eval_carries ?_) hv'
    intro name hname
    apply resolve_carries False.elim
    have hname : b.name ≠ name := fun he => hb (he ▸ hname)
    simp [resolve?_insert, hname]
  have hsecond : b.expr.eval env (Assoc.insert between b'.name v') = .ok v := by
    refine Carries.eq_ok (show Carries False _ _ from Expr.eval_carries ?_) hv
    intro name hname
    apply resolve_carries False.elim
    have hname : b'.name ≠ name := fun he => hb' (he ▸ hname)
    simp [resolve?_insert, hname]
  refine bind_eq_ok.2 ⟨between, hbetween, ?_⟩
  rw [evalFrom_cons, hfirst]
  show evalFrom env (Assoc.insert between b'.name v') (b :: after) body = .ok fields
  rw [evalFrom_cons, hsecond]
  show evalFrom env (Assoc.insert (Assoc.insert between b'.name v') b.name v) after body = .ok fields
  -- The two scopes differ in the order of their names alone.
  refine Carries.eq_ok (show Carries False _ _ from evalFrom_carries False.elim ?_) h
  intro name _
  simp only [resolve?_insert]
  by_cases hname : b.name = name
  · have hname' : ¬ b'.name = name := fun he => hne (hname.trans he.symm)
    simp [hname, hname']
  · simp [hname]

/-- Environments that agree on the variables that are read give the same result or error. -/
theorem eval_environment {env' : Environment} {c : Document}
    (h : ∀ name, c.Reads name →
      (Scope.variableOf? name).bind env' = (Scope.variableOf? name).bind env) :
    c.eval env' = c.eval env := by
  apply Carries.eq
  apply evalFrom_carries fun _ => rfl
  intro name hname
  unfold Scope.resolve?
  simp only [Assoc.get?]
  rw [h name hname]

end

/-- **A result depends on what is referred to.** If a document has a value, it keeps it, order of
keys included, when a binding goes whose name is not read after it: neither by the bindings up to
the next one of the same name, nor by the body if there is none; and when neighbouring bindings of
different names change places that do not refer to each other. And it keeps its value or its error
under every environment that differs only in variables which no reference looks up because their
names are bound there. -/
theorem result_depends_on_references (env : Environment) (c : Document) :
    (∀ fields, c.eval env = .ok fields →
      (∀ before b after, c.bindings = some (before ++ b :: after) →
        ¬ Document.Reads ⟨some after, c.body⟩ b.name →
          Document.eval env ⟨some (before ++ after), c.body⟩ = .ok fields) ∧
      (∀ before b b' after, c.bindings = some (before ++ b :: b' :: after) →
        b.name ≠ b'.name → b.name ∉ b'.expr.inputs → b'.name ∉ b.expr.inputs →
          Document.eval env ⟨some (before ++ b' :: b :: after), c.body⟩ = .ok fields)) ∧
    ∀ env' : Environment,
      (∀ V, env' V ≠ env V → ∀ name, c.Reads name → Scope.variableOf? name ≠ some V) →
        c.eval env' = c.eval env := by
  obtain ⟨bindings, body⟩ := c
  refine ⟨fun fields h => ⟨?_, ?_⟩, fun env' h => eval_environment ?_⟩
  · rintro before b after rfl hb
    exact evalFrom_delete h hb
  · rintro before b b' after rfl hne hb hb'
    exact evalFrom_swap h hne hb hb'
  · intro name hname
    cases hvar : Scope.variableOf? name with
    | none => rfl
    | some V =>
      by_cases hV : env' V = env V
      · exact hV
      · exact absurd hvar (h V hV name hname)

/-- `$a` is bound twice: its first binding may go or follow that of `$b`, and `$_envHOME` is bound
before it is referred to, so the variable has no part in the value. -/
theorem result_depends_on_references_of_rebound :
    let first : Binding := ⟨"$a", .integer 1⟩
    let home : Binding := ⟨"$_envHOME", .string [.characters "x"]⟩
    let last : Binding := ⟨"$a", .input "$_envHOME"⟩
    let body : List Entry := [.pair ⟨"k", []⟩ (.input "$a")]
    Document.eval (fun _ => none) ⟨some [home, last], body⟩ = .ok [("k", .string "x")] ∧
      Document.eval (fun _ => none) ⟨some [home, first, last], body⟩ = .ok [("k", .string "x")] ∧
      Document.eval (fun _ => some "y") ⟨some [first, home, last], body⟩ =
        Document.eval (fun _ => none) ⟨some [first, home, last], body⟩ := by
  intro first home last body
  have hvalue : Document.eval (fun _ => none) ⟨some [first, home, last], body⟩ =
      .ok [("k", .string "x")] := rfl
  obtain ⟨hresult, henvironment⟩ :=
    result_depends_on_references (fun _ => none) ⟨some [first, home, last], body⟩
  obtain ⟨hdelete, hswap⟩ := hresult _ hvalue
  have hrest : ¬ Document.Reads ⟨some [home, last], body⟩ "$a" := by
    simp [reads_cons_iff, home, last, Expr.inputs, Part.inputs]
  refine ⟨hdelete [] first [home, last] rfl hrest,
    hswap [] first home [last] rfl (by decide) ?_ ?_, henvironment _ ?_⟩
  · simp [home, first, Expr.inputs, Part.inputs]
  · simp [home, first, Expr.inputs]
  · intro V _ name hname
    have hnone : ¬ Document.Reads ⟨some [first, home, last], body⟩ name := by
      simp [reads_cons_iff, reads_nil_iff, first, home, last, body, Expr.inputs, Part.inputs,
        entriesInputs, Entry.inputs]
      grind
    exact absurd hname hnone

end ConfigLang
