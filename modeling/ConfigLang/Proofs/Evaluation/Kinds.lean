import ConfigLang.Proofs.Evaluation.PathWrites

/-!
# Kinds without values

Which inputs have a value, and of what kind, can be read off a document. The check of these kinds
predicts how the evaluation ends, but for keys that go through something other than an object: these
depend on values.

* `Document.wellKinded`: the check.
* `Expr.decided`: for an expression, it decides between a result and an error of inputs.
* `bindAll_agrees`: along the bindings, kinds and scope stay in step.
* `kinds_decide_outcome`: the statement for documents.
-/

namespace ConfigLang

/-! ## Kinds of inputs and expressions -/

/-- The kinds of inputs; an input without a value has none. -/
abbrev Kinding := String → Option Kind

/-- The kinds before any binding: variables of the environment are strings. -/
def Kinding.ofEnvironment (env : Environment) : Kinding := fun name =>
  ((Scope.variableOf? name).bind env).map fun _ => .string

/-- The kind of the values of an expression. -/
def Expr.kind? (kinds : Kinding) : Expr → Option Kind
  | .null => some .null
  | .bool _ => some .bool
  | .integer _ => some .integer
  | .float _ => some .float
  | .string _ => some .string
  | .array _ => some .array
  | .object _ => some .object
  | .input name => kinds name

/-- The kinds after one more binding. -/
def Kinding.after (kinds : Kinding) (b : Binding) : Kinding := fun name =>
  if b.name = name then b.expr.kind? kinds else kinds name

/-- The kinds after further bindings. -/
def Kinding.afterAll (kinds : Kinding) (bs : List Binding) : Kinding := bs.foldl Kinding.after kinds

/-! ## The check -/

def Part.wellKinded (kinds : Kinding) : Part → Bool
  | .input name => kinds name = some .string
  | .characters _ | .escape _ => true

mutual

/-- Whether the inputs of an expression have values, of the kinds that their places ask for. -/
def Expr.wellKinded (kinds : Kinding) : Expr → Bool
  | .input name => (kinds name).isSome
  | .string parts => parts.all (Part.wellKinded kinds)
  | .array items => itemsWellKinded kinds items
  | .object entries => entriesWellKinded kinds entries
  | .null | .bool _ | .integer _ | .float _ => true

def itemsWellKinded (kinds : Kinding) : List Item → Bool
  | [] => true
  | item :: items => item.wellKinded kinds && itemsWellKinded kinds items

def Item.wellKinded (kinds : Kinding) : Item → Bool
  | .value e => e.wellKinded kinds
  | .spread name => kinds name = some .array

def entriesWellKinded (kinds : Kinding) : List Entry → Bool
  | [] => true
  | entry :: entries => entry.wellKinded kinds && entriesWellKinded kinds entries

def Entry.wellKinded (kinds : Kinding) : Entry → Bool
  | .pair _ e => e.wellKinded kinds
  | .spread name => kinds name = some .object

end

/-- Each binding is checked under the kinds that those before it leave. -/
def bindingsWellKinded (kinds : Kinding) : List Binding → Bool
  | [] => true
  | b :: bs => b.expr.wellKinded kinds && bindingsWellKinded (kinds.after b) bs

/-- **A document whose inputs have values of the right kinds.** -/
def Document.wellKinded (env : Environment) (c : Document) : Bool :=
  let kinds := Kinding.ofEnvironment env
  let bs := c.bindings.getD []
  bindingsWellKinded kinds bs && entriesWellKinded (kinds.afterAll bs) c.body

/-! ## Computations that a condition decides -/

/-- A computation that has a result only if `p`, and that fails though `p` only because of a key
that goes through something other than an object. -/
def DecidedBy {α : Type} (p : Prop) : Except EvalError α → Prop
  | .ok _ => p
  | .error (.chainedNonObject ..) => True
  | .error _ => ¬ p

namespace DecidedBy

variable {α β : Type} {p q : Prop} {x : Except EvalError α}

theorem bind {f : α → Except EvalError β} (hx : DecidedBy p x)
    (hf : ∀ a, x = .ok a → DecidedBy q (f a)) : DecidedBy (p ∧ q) (x >>= f) := by
  cases x with
  | ok a =>
    have h := hf a rfl
    have hbind : Except.ok a >>= f = f a := rfl
    rw [hbind]
    cases hfa : f a with
    | ok b =>
      rw [hfa] at h
      exact ⟨hx, h⟩
    | error e =>
      rw [hfa] at h
      cases e with
      | chainedNonObject segment found => trivial
      | _ => exact fun hpq => h hpq.2
  | error e =>
    cases e with
    | chainedNonObject segment found => trivial
    | _ => exact fun hpq => hx hpq.1

theorem map (hx : DecidedBy p x) (g : α → β) : DecidedBy p (x >>= fun a => .ok (g a)) := by
  have h : DecidedBy (p ∧ True) (x >>= fun a => .ok (g a)) := hx.bind fun a _ => trivial
  rwa [and_true] at h

theorem of_ok {a : α} (h : DecidedBy p x) (hx : x = .ok a) : p := by
  subst hx
  exact h

theorem ok_or_chained (h : DecidedBy p x) (hp : p) :
    (∃ a, x = .ok a) ∨ ∃ segment found, x = .error (.chainedNonObject segment found) := by
  cases x with
  | ok a => exact .inl ⟨a, rfl⟩
  | error e =>
    cases e with
    | chainedNonObject segment found => exact .inr ⟨segment, found, rfl⟩
    | _ => exact absurd hp h

end DecidedBy

theorem Path.insert_decided (path : Path) (fields : Assoc Value) (value : Value) :
    DecidedBy True (path.insert fields value) := by
  cases h : path.insert fields value with
  | ok fields' => trivial
  | error e =>
    obtain ⟨parents, last, found, -, rfl⟩ := Path.insert_eq_error_iff.1 h
    trivial

/-! ## Expressions -/

/-- The kinds are those of the values that inputs have. -/
def Kinding.Agrees (kinds : Kinding) (env : Environment) (scope : Scope) : Prop :=
  ∀ name, kinds name = (Scope.resolve? env scope name).map Value.kind

section
variable {kinds : Kinding} {env : Environment} {scope : Scope}

theorem resolve_decided (h : kinds.Agrees env scope) (name : String) :
    DecidedBy ((kinds name).isSome = true) (resolve env scope name) := by
  rw [h name, resolve]
  cases Scope.resolve? env scope name with
  | none => simp [DecidedBy]
  | some v => rfl

/-- An input that must be of a kind, where everything but this kind is refused. -/
theorem resolve_bind_decided {α : Type} (h : kinds.Agrees env scope) (name : String) {kind : Kind}
    {f : Value → Except EvalError α} (hf : ∀ v, DecidedBy (v.kind = kind) (f v)) :
    DecidedBy (kinds name = some kind) (resolve env scope name >>= f) := by
  rw [h name, resolve]
  cases Scope.resolve? env scope name with
  | none => simp [DecidedBy, bind, Except.bind]
  | some v =>
    rw [Option.map_some, Option.some.injEq]
    exact hf v

theorem resolveFields_decided (h : kinds.Agrees env scope) (name : String) :
    DecidedBy (kinds name = some .object) (resolveFields env scope name) :=
  resolve_bind_decided h name fun v => by
    cases v <;>
      simp [DecidedBy, Value.kind, pure, Except.pure, throw, throwThe, MonadExceptOf.throw]

theorem resolveItems_decided (h : kinds.Agrees env scope) (name : String) :
    DecidedBy (kinds name = some .array) (resolveItems env scope name) :=
  resolve_bind_decided h name fun v => by
    cases v <;>
      simp [DecidedBy, Value.kind, pure, Except.pure, throw, throwThe, MonadExceptOf.throw]

theorem resolveText_decided (h : kinds.Agrees env scope) (name : String) :
    DecidedBy (kinds name = some .string) (resolveText env scope name) :=
  resolve_bind_decided h name fun v => by
    cases v <;>
      simp [DecidedBy, Value.kind, pure, Except.pure, throw, throwThe, MonadExceptOf.throw]

theorem Part.decided (h : kinds.Agrees env scope) (part : Part) :
    DecidedBy (part.wellKinded kinds) (part.eval env scope) := by
  cases part with
  | input name =>
    rw [Part.wellKinded, decide_eq_true_eq]
    exact resolveText_decided h name
  | _ => rfl

theorem evalParts_decided (h : kinds.Agrees env scope) (parts : List Part) :
    DecidedBy (parts.all (Part.wellKinded kinds)) (evalParts env scope parts) := by
  induction parts with
  | nil => rfl
  | cons part parts ih =>
    rw [List.all_cons, Bool.and_eq_true, evalParts]
    exact (part.decided h).bind fun text _ => ih.map _

mutual

theorem Expr.decided (h : kinds.Agrees env scope) :
    ∀ e : Expr, DecidedBy (e.wellKinded kinds) (e.eval env scope)
  | .input name => resolve_decided h name
  | .string parts => by
    rw [Expr.wellKinded, Expr.eval]
    exact (evalParts_decided h parts).map _
  | .array items => by
    rw [Expr.wellKinded, Expr.eval]
    exact (evalItems_decided h items).map _
  | .object entries => by
    rw [Expr.wellKinded, Expr.eval]
    exact (evalEntries_decided h [] entries).map _
  | .null | .bool _ | .integer _ | .float _ => rfl

theorem evalItems_decided (h : kinds.Agrees env scope) :
    ∀ items : List Item, DecidedBy (itemsWellKinded kinds items) (evalItems env scope items)
  | [] => rfl
  | item :: items => by
    rw [itemsWellKinded, Bool.and_eq_true, evalItems]
    exact (item.decided h).bind fun values _ => (evalItems_decided h items).map _

theorem Item.decided (h : kinds.Agrees env scope) :
    ∀ item : Item, DecidedBy (item.wellKinded kinds) (item.eval env scope)
  | .value e => by
    rw [Item.wellKinded, Item.eval]
    exact (e.decided h).map _
  | .spread name => by
    rw [Item.wellKinded, decide_eq_true_eq, Item.eval]
    exact resolveItems_decided h name

theorem evalEntries_decided (h : kinds.Agrees env scope) (fields : Assoc Value) :
    ∀ entries : List Entry,
      DecidedBy (entriesWellKinded kinds entries) (evalEntries env scope fields entries)
  | [] => rfl
  | entry :: entries => by
    rw [entriesWellKinded, Bool.and_eq_true, evalEntries]
    exact (entry.decided h fields).bind fun fields' _ => evalEntries_decided h fields' entries

theorem Entry.decided (h : kinds.Agrees env scope) (fields : Assoc Value) :
    ∀ entry : Entry, DecidedBy (entry.wellKinded kinds) (entry.eval env scope fields)
  | .pair path e => by
    rw [Entry.wellKinded, Entry.eval, ← and_true (e.wellKinded kinds = true)]
    exact (e.decided h).bind fun v _ => path.insert_decided fields v
  | .spread name => by
    rw [Entry.wellKinded, decide_eq_true_eq, Entry.eval]
    exact (resolveFields_decided h name).map _

end

/-- The value of an expression is of the kind that was read off. -/
theorem Expr.kind?_of_eval (h : kinds.Agrees env scope) {e : Expr} {v : Value}
    (hv : e.eval env scope = .ok v) : e.kind? kinds = some v.kind := by
  cases e with
  | input name =>
    rw [Expr.eval, resolve] at hv
    rw [Expr.kind?, h name]
    cases hr : Scope.resolve? env scope name with
    | none =>
      rw [hr] at hv
      cases hv
    | some w =>
      rw [hr] at hv
      cases hv
      rfl
  | string parts | array items | object entries =>
    rw [Expr.eval] at hv
    obtain ⟨a, -, ha⟩ := bind_eq_ok.1 hv
    cases ha
    rfl
  | _ =>
    cases hv
    rfl

/-! ## Bindings -/

/-- A binding keeps kinds and scope in step. -/
theorem Kinding.Agrees.after (h : kinds.Agrees env scope) {b : Binding} {v : Value}
    (hv : b.expr.eval env scope = .ok v) :
    (kinds.after b).Agrees env (Assoc.insert scope b.name v) := by
  intro name
  rw [resolve?_insert, Kinding.after]
  split
  · rw [Expr.kind?_of_eval h hv, Option.map_some]
  · exact h name

theorem bindAll_agrees {scope' : Scope} {bs : List Binding} (h : kinds.Agrees env scope)
    (hbind : bindAll env scope bs = .ok scope') : (kinds.afterAll bs).Agrees env scope' := by
  induction bs generalizing kinds scope with
  | nil =>
    obtain rfl : scope = scope' := Except.ok.inj hbind
    exact h
  | cons b bs ih =>
    obtain ⟨v, hv, hbind⟩ := bind_eq_ok.1 hbind
    exact ih (h.after hv) hbind

theorem bindAll_decided {bs : List Binding} (h : kinds.Agrees env scope) :
    DecidedBy (bindingsWellKinded kinds bs) (bindAll env scope bs) := by
  induction bs generalizing kinds scope with
  | nil => rfl
  | cons b bs ih =>
    rw [bindingsWellKinded, Bool.and_eq_true, bindAll]
    exact (b.expr.decided h).bind fun v hv => ih (h.after hv)

end

theorem agrees_ofEnvironment (env : Environment) : (Kinding.ofEnvironment env).Agrees env [] := by
  intro name
  unfold Kinding.ofEnvironment Scope.resolve?
  rw [Assoc.get?]
  cases (Scope.variableOf? name).bind env <;> rfl

/-! ## Documents -/

theorem Document.decided (env : Environment) (c : Document) :
    DecidedBy (c.wellKinded env) (c.eval env) := by
  have h := agrees_ofEnvironment env
  rw [Document.wellKinded, Bool.and_eq_true, Document.eval]
  exact (bindAll_decided h).bind fun scope hscope =>
    evalEntries_decided (bindAll_agrees h hscope) [] c.body

/-- **Kinds decide the outcome.** A document that has a value is well kinded, and whatever is bound
after some of its bindings has the kind that was read off for it. A well-kinded document has a
value, or fails at a key that goes through something other than an object. -/
theorem kinds_decide_outcome (env : Environment) (c : Document) :
    (∀ fields, c.eval env = .ok fields →
      c.wellKinded env = true ∧
        ∀ before after, c.bindings.getD [] = before ++ after →
          ∃ scope, bindAll env [] before = .ok scope ∧
            ∀ name v, Assoc.get? scope name = some v →
              (Kinding.ofEnvironment env).afterAll before name = some v.kind) ∧
    (c.wellKinded env = true →
      (∃ fields, c.eval env = .ok fields) ∨
        ∃ segment found, c.eval env = .error (.chainedNonObject segment found)) := by
  refine ⟨fun fields hfields => ⟨(c.decided env).of_ok hfields, fun before after hbs => ?_⟩,
    (c.decided env).ok_or_chained⟩
  obtain ⟨final, hbind, -⟩ := bind_eq_ok.1 hfields
  rw [hbs, bindAll_append] at hbind
  obtain ⟨scope, hscope, -⟩ := bind_eq_ok.1 hbind
  refine ⟨scope, hscope, fun name v hv => ?_⟩
  rw [bindAll_agrees (agrees_ofEnvironment env) hscope name, Scope.resolve?, hv, Option.map_some]

/-- The kind of an input is that of its last binding. -/
theorem kinds_decide_outcome_of_rebound :
    Document.wellKinded (fun _ => none)
      ⟨some [⟨"$a", .integer 1⟩, ⟨"$a", .string [.characters "x"]⟩],
        [.pair ⟨"s", []⟩ (.string [.input "$a"])]⟩ = true :=
  ((kinds_decide_outcome _ _).1 [("s", .string "x")] rfl).1

end ConfigLang
