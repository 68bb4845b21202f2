import ConfigLang.Compilation

/-!
# What the steps of an evaluation do

The steps that later modules follow: how a computation that may fail goes on, what a write at a key
does at the first segment, what the parts of a list add to the whole, and which stages a compiled
value has passed.
-/

namespace ConfigLang

/-! ## Computations that may fail -/

section
variable {ε α β : Type} {x : Except ε α} {f : α → Except ε β}

theorem bind_eq_ok {b : β} : x >>= f = .ok b ↔ ∃ a, x = .ok a ∧ f a = .ok b := by
  cases x <;> simp [bind, Except.bind]

theorem bind_eq_error {e : ε} :
    x >>= f = .error e ↔ x = .error e ∨ ∃ a, x = .ok a ∧ f a = .error e := by
  cases x <;> simp [bind, Except.bind]

end

/-! ## Writes -/

/-- What a write that goes on below a segment finds there: an object, or a new one where nothing
stands yet. -/
def Enters (fields : Assoc Value) (segment : String) (child : Assoc Value) : Prop :=
  fields.get? segment = some (.object child) ∨ fields.get? segment = none ∧ child = []

/-- A write below a segment goes on in the object there, or fails where something else stands. -/
theorem insertAt_cons (fields : Assoc Value) (segment next : String) (rest : List String)
    (value : Value) :
    (∃ child, Enters fields segment child ∧
      insertAt fields segment (next :: rest) value = do
        let child' ← insertAt child next rest value
        return fields.insert segment (.object child')) ∨
    ∃ v, fields.get? segment = some v ∧ v.kind ≠ .object ∧
      insertAt fields segment (next :: rest) value = .error (.chainedNonObject segment v.kind) := by
  rw [insertAt]
  cases hget : fields.get? segment with
  | none => exact .inl ⟨[], .inr ⟨hget, rfl⟩, rfl⟩
  | some v =>
    cases v with
    | object child => exact .inl ⟨child, .inl hget, rfl⟩
    | _ => exact .inr ⟨_, rfl, by simp [Value.kind], rfl⟩

theorem insertAt_cons_eq_ok {fields fields' : Assoc Value} {segment next : String}
    {rest : List String} {value : Value}
    (h : insertAt fields segment (next :: rest) value = .ok fields') :
    ∃ child child' : Assoc Value, Enters fields segment child ∧
      insertAt child next rest value = .ok child' ∧
      fields' = fields.insert segment (.object child') := by
  rcases insertAt_cons fields segment next rest value with
    ⟨child, henters, hstep⟩ | ⟨v, -, -, hstep⟩
  · rw [hstep] at h
    obtain ⟨child', hchild, h⟩ := bind_eq_ok.1 h
    exact ⟨child, child', henters, hchild, (Except.ok.inj h).symm⟩
  · rw [hstep] at h
    cases h

theorem insertAt_cons_eq_error {fields : Assoc Value} {segment next : String} {rest : List String}
    {value : Value} {e : EvalError}
    (h : insertAt fields segment (next :: rest) value = .error e) :
    (∃ v, fields.get? segment = some v ∧ v.kind ≠ .object ∧
      e = .chainedNonObject segment v.kind) ∨
    ∃ child, Enters fields segment child ∧ insertAt child next rest value = .error e := by
  rcases insertAt_cons fields segment next rest value with
    ⟨child, henters, hstep⟩ | ⟨v, hget, hkind, hstep⟩
  · rw [hstep] at h
    rcases bind_eq_error.1 h with hchild | ⟨child', -, h⟩
    · exact .inr ⟨child, henters, hchild⟩
    · cases h
  · rw [hstep] at h
    exact .inl ⟨v, hget, hkind, (Except.error.inj h).symm⟩

/-! ## Parts of lists -/

section
variable (env : Environment) (scope : Scope)

theorem evalEntries_append (fields : Assoc Value) (before after : List Entry) :
    evalEntries env scope fields (before ++ after) =
      evalEntries env scope fields before >>= (evalEntries env scope · after) := by
  induction before generalizing fields with
  | nil => rfl
  | cons entry before ih =>
    rw [List.cons_append, evalEntries, evalEntries, bind_assoc]
    exact bind_congr fun fields' => ih fields'

theorem evalItems_append (before after : List Item) :
    evalItems env scope (before ++ after) = do
      let values ← evalItems env scope before
      return values ++ (← evalItems env scope after) := by
  induction before with
  | nil =>
    rw [List.nil_append, evalItems]
    exact (bind_pure _).symm
  | cons item before ih =>
    rw [List.cons_append, evalItems, evalItems, ih]
    simp only [bind_assoc, pure_bind, List.append_assoc]

theorem evalParts_append (before after : List Part) :
    evalParts env scope (before ++ after) = do
      let text ← evalParts env scope before
      return text ++ (← evalParts env scope after) := by
  induction before with
  | nil =>
    rw [List.nil_append, evalParts]
    refine Eq.trans ?_ (pure_bind "" _).symm
    simp only [String.empty_append, bind_pure]
  | cons part before ih =>
    rw [List.cons_append, evalParts, evalParts, ih]
    simp only [bind_assoc, pure_bind, String.append_assoc]

theorem bindAll_append (before after : List Binding) :
    bindAll env scope (before ++ after) =
      bindAll env scope before >>= (bindAll env · after) := by
  induction before generalizing scope with
  | nil => rfl
  | cons b before ih =>
    rw [List.cons_append, bindAll, bindAll, bind_assoc]
    exact bind_congr fun v => ih _

theorem resolve?_insert (name other : String) (v : Value) :
    Scope.resolve? env (Assoc.insert scope name v) other =
      if name = other then some v else Scope.resolve? env scope other := by
  by_cases h : name = other
  · subst h
    simp [Scope.resolve?, Assoc.get?_insert_self]
  · simp [Scope.resolve?, Assoc.get?_insert_of_ne _ _ h, h]

end

/-! ## Stages -/

/-- A compiled value has been read as a document and evaluated. -/
theorem compile_eq_ok_iff {env : Environment} {source : String} {v : Value} :
    compile env source = .ok v ↔
      ∃ c fields, documentOf source = .ok c ∧ c.eval env = .ok fields ∧ v = .object fields := by
  constructor
  · intro h
    obtain ⟨c, hc, h⟩ := bind_eq_ok.1 h
    obtain ⟨fields, hfields, h⟩ := bind_eq_ok.1 h
    refine ⟨c, fields, hc, ?_, (Except.ok.inj h).symm⟩
    cases heval : c.eval env with
    | error e =>
      rw [heval] at hfields
      cases hfields
    | ok fields' =>
      rw [heval] at hfields
      exact congrArg Except.ok (Except.ok.inj hfields)
  · rintro ⟨c, fields, hc, hfields, rfl⟩
    rw [compile, hc]
    dsimp only [bind, Except.bind]
    rw [hfields]
    rfl

theorem compile_of_documentOf {env : Environment} {source : String} {c : Document}
    {fields : Assoc Value} (hc : documentOf source = .ok c) (hfields : c.eval env = .ok fields) :
    compile env source = .ok (.object fields) :=
  compile_eq_ok_iff.2 ⟨c, fields, hc, hfields, rfl⟩

end ConfigLang
