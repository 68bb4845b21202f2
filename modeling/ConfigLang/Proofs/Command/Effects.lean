import ConfigLang.Command.Run

/-!
# What commands leave behind

A command reads, then leaves something, and nothing that can fail comes after that. So a command
that fails has left nothing, although its acts keep what they leave when they fail.

* `Silent`, `Certain`, `Atomic`: what an act may leave, with one rule for each way to build acts.
* `acts_atomic`, `left_of_exitCode`: all commands are built so, and what follows for their outcomes.
* `run_compile`, `run_eval`, `run_check`, `run_lex`, `run_parse`: what the acts of a command come
  to, stage by stage.
-/

namespace ConfigLang

namespace Action

variable {α β : Type}

/-! ## Judging acts -/

/-- The act leaves nothing, however it ends. -/
def Silent (a : Action α) : Prop := ∀ d r d', a.runFrom d = (r, d') → d' = d

/-- The act does not fail. -/
def Certain (a : Action α) : Prop := ∀ d e d', a.runFrom d ≠ (.error e, d')

/-- The act leaves nothing if it fails. -/
def Atomic (a : Action α) : Prop := ∀ d e d', a.runFrom d = (.error e, d') → d' = d

theorem Silent.lift (x : Except Error α) : Silent (liftM x : Action α) := by
  intro d r d' h
  cases h
  rfl

theorem Certain.print (text : String) : Certain (print text) := by
  intro d e d' h
  cases h

theorem Certain.tell (text : String) : Certain (tell text) := by
  intro d e d' h
  cases h

/-- A file that cannot be written stays as it is. -/
theorem Atomic.write (s : Surroundings) (path text : String) : Atomic (write s path text) := by
  intro d e d' h
  unfold Action.write at h
  split at h
  · cases h
  · cases h
    rfl

/-! Acts in sequence. -/

section
variable {a : Action α} {f : α → Action β} {d d' : Delivery}

theorem runFrom_bind_ok {x : α} (h : a.runFrom d = (.ok x, d')) :
    (a >>= f).runFrom d = (f x).runFrom d' := by
  unfold runFrom at h ⊢
  rw [ExceptT.run_bind, StateT.run_bind, h]
  rfl

theorem runFrom_bind_error {e : Error} (h : a.runFrom d = (.error e, d')) :
    (a >>= f).runFrom d = (.error e, d') := by
  unfold runFrom at h ⊢
  rw [ExceptT.run_bind, StateT.run_bind, h]
  rfl

/-- A sequence fails where one of its two acts does. -/
theorem runFrom_bind_eq_error {e : Error} (h : (a >>= f).runFrom d = (.error e, d')) :
    a.runFrom d = (.error e, d') ∨
      ∃ x d₁, a.runFrom d = (.ok x, d₁) ∧ (f x).runFrom d₁ = (.error e, d') := by
  cases ha : a.runFrom d with
  | mk r d₁ =>
    cases r with
    | error e₁ =>
      rw [runFrom_bind_error ha] at h
      cases h
      exact .inl rfl
    | ok x =>
      rw [runFrom_bind_ok ha] at h
      exact .inr ⟨x, d₁, rfl, h⟩

end

section
variable {a : Action α} {f : α → Action β}

theorem Certain.bind (ha : Certain a) (hf : ∀ x, Certain (f x)) : Certain (a >>= f) := by
  intro d e d' h
  rcases runFrom_bind_eq_error h with h | ⟨x, d₁, -, h⟩
  · exact ha d e d' h
  · exact hf x d₁ e d' h

/-- A loop over acts that do not fail does not fail. -/
theorem Certain.forM {f : α → Action Unit} (hf : ∀ x, Certain (f x)) (xs : List α) :
    Certain (xs.forM f) := by
  induction xs with
  | nil =>
    intro d e d' h
    cases h
  | cons x xs ih => exact (hf x).bind fun _ => ih

theorem Certain.atomic (ha : Certain a) : Atomic a :=
  fun d e d' h => absurd h (ha d e d')

/-- An act that leaves nothing may fail before one that leaves nothing if it fails. -/
theorem Silent.bind_atomic (ha : Silent a) (hf : ∀ x, Atomic (f x)) : Atomic (a >>= f) := by
  intro d e d' h
  rcases runFrom_bind_eq_error h with h | ⟨x, d₁, hx, h⟩
  · exact ha d _ d' h
  · rw [hf x d₁ e d' h, ha d _ d₁ hx]

/-- Behind an act that leaves nothing if it fails there may be one that does not fail. -/
theorem Atomic.bind_certain (ha : Atomic a) (hf : ∀ x, Certain (f x)) : Atomic (a >>= f) := by
  intro d e d' h
  rcases runFrom_bind_eq_error h with h | ⟨x, d₁, -, h⟩
  · exact ha d e d' h
  · exact absurd h (hf x d₁ e d')

end

/-- Acts that leave nothing if they fail leave nothing at all unless the program is done. -/
theorem Atomic.left_eq_nothing {a : Action Unit} (ha : Atomic a) (h : a.outcome.exitCode ≠ 0) :
    a.outcome.left = .nothing := by
  unfold outcome at h ⊢
  split at h
  · exact absurd rfl h
  · rename_i e d' hrun
    exact ha _ e d' hrun

end Action

/-! ## Commands -/

namespace Command

theorem place_atomic (s : Surroundings) (output : Option String) (document : String) :
    (place s output document).Atomic := by
  cases output with
  | none => exact (Action.Certain.print document).atomic
  | some path => exact (Action.Atomic.write s path document).bind_certain fun _ => .tell _

/-- Nothing that can fail comes after the first thing that a command leaves. -/
theorem acts_atomic (s : Surroundings) (c : Command) : (c.acts s).Atomic := by
  cases c with
  | compile source output format given isolated =>
    exact (Action.Silent.lift _).bind_atomic fun _ =>
      (Action.Silent.lift _).bind_atomic fun _ => place_atomic s output _
  | eval document format =>
    exact (Action.Silent.lift _).bind_atomic fun _ => (Action.Certain.print _).atomic
  | check source =>
    exact (Action.Silent.lift _).bind_atomic fun _ =>
      (Action.Silent.lift _).bind_atomic fun _ => (Action.Certain.tell _).atomic
  | lex source =>
    exact (Action.Silent.lift _).bind_atomic fun _ => (Action.Silent.lift _).bind_atomic fun _ =>
      (Action.Certain.forM (fun _ => .print _) _).atomic
  | parse source =>
    exact (Action.Silent.lift _).bind_atomic fun _ =>
      (Action.Silent.lift _).bind_atomic fun _ => (Action.Certain.print _).atomic

/-- A command that is not done has printed nothing and written no file. -/
theorem left_of_exitCode {s : Surroundings} {c : Command} (h : (c.run s).exitCode ≠ 0) :
    (c.run s).left = .nothing :=
  (acts_atomic s c).left_eq_nothing h

end Command

/-! ## Outcomes -/

/-- The outcome once a stage has its result: its error ends the command before it has left anything,
and else the command goes on. -/
def Outcome.after {α : Type} (result : Except Error α) (next : α → Outcome) : Outcome :=
  match result with
  | .ok a => next a
  | .error e => .failed e .nothing

@[simp] theorem Outcome.after_ok {α : Type} (a : α) (next : α → Outcome) :
    Outcome.after (.ok a) next = next a := rfl

@[simp] theorem Outcome.after_error {α : Type} (e : Error) (next : α → Outcome) :
    Outcome.after (.error e) next = .failed e .nothing := rfl

theorem Outcome.exitCode_eq_zero_iff {o : Outcome} : o.exitCode = 0 ↔ ∃ d, o = .done d := by
  constructor
  · intro h
    unfold Outcome.exitCode at h
    split at h
    · exact ⟨_, rfl⟩
    · cases h
    · cases h
    · cases h
  · intro h
    obtain ⟨d, rfl⟩ := h
    rfl

/-- A command goes well where its stage does and what it goes on with. -/
theorem Outcome.exitCode_after_eq_zero_iff {α : Type} {result : Except Error α}
    {next : α → Outcome} :
    (Outcome.after result next).exitCode = 0 ↔ ∃ a, result = .ok a ∧ (next a).exitCode = 0 := by
  cases result with
  | ok a => simp
  | error e => simp [exitCode_eq_zero_iff]

namespace Action

variable {α : Type}

theorem outcome_lift_bind (x : Except Error α) (f : α → Action Unit) :
    (liftM x >>= f : Action Unit).outcome = .after x fun a => (f a).outcome := by
  cases x <;> rfl

@[simp] theorem outcome_print (text : String) : (print text).outcome = .done ⟨text, "", []⟩ := by
  show Outcome.done ⟨"" ++ text, "", []⟩ = _
  rw [String.empty_append]

@[simp] theorem outcome_tell (text : String) : (tell text).outcome = .done ⟨"", text, []⟩ := by
  show Outcome.done ⟨"", "" ++ text, []⟩ = _
  rw [String.empty_append]

/-- Texts printed in turn are printed as one. -/
theorem runFrom_forM_print (f : α → String) (xs : List α) (d : Delivery) :
    (xs.forM fun x => print (f x)).runFrom d =
      (.ok (), { d with output := d.output ++ String.join (xs.map f) }) := by
  induction xs generalizing d with
  | nil =>
    show _ = (_, { d with output := d.output ++ "" })
    rw [String.append_empty]
    rfl
  | cons x xs ih =>
    have hprint : (print (f x)).runFrom d = (.ok (), { d with output := d.output ++ f x }) := rfl
    show (print (f x) >>= fun _ => xs.forM fun x => print (f x)).runFrom d = _
    rw [runFrom_bind_ok hprint, ih]
    simp [String.append_assoc]

theorem outcome_forM_print (f : α → String) (xs : List α) :
    (xs.forM fun x => print (f x)).outcome = .done ⟨String.join (xs.map f), "", []⟩ := by
  unfold outcome
  rw [runFrom_forM_print]
  show Outcome.done ⟨"" ++ _, "", []⟩ = _
  rw [String.empty_append]

end Action

namespace Command

variable {s : Surroundings} {source : Source}

theorem outcome_place_none (document : String) :
    (place s none document).outcome = .done ⟨document, "", []⟩ :=
  Action.outcome_print document

theorem outcome_place_of_canWrite {path : String} (h : s.canWrite path = true)
    (document : String) :
    (place s (some path) document).outcome =
      .done ⟨"", "Wrote " ++ path ++ "\n", [(path, document)]⟩ := by
  have hwrite : (Action.write s path document).runFrom .nothing =
      (.ok (), ⟨"", "", [(path, document)]⟩) := by
    unfold Action.write
    rw [if_pos h]
    rfl
  unfold Action.outcome place
  dsimp only
  rw [Action.runFrom_bind_ok hwrite]
  show Outcome.done ⟨"", "" ++ _, _⟩ = _
  rw [String.empty_append]

theorem outcome_place_of_cannot {path : String} (h : s.canWrite path = false)
    (document : String) :
    (place s (some path) document).outcome =
      .failed (.io ("failed to write " ++ path)) .nothing := by
  have hwrite : (Action.write s path document).runFrom .nothing =
      (.error (.io ("failed to write " ++ path)), .nothing) := by
    unfold Action.write
    rw [h]
    rfl
  unfold Action.outcome place
  dsimp only
  rw [Action.runFrom_bind_error hwrite]

theorem run_compile (output : Option String) (format : Option Format)
    (given : List (String × String)) (isolated : Bool) :
    (Command.compile source output format given isolated).run s =
      .after (source.read s) fun text =>
        .after (ConfigLang.compile (environment given isolated s.environment) text) fun v =>
          (place s output (endLine ((formatFor format output).render v))).outcome := by
  unfold run acts
  dsimp only
  rw [Action.outcome_lift_bind]
  simp only [Action.outcome_lift_bind]

theorem run_eval (document : String) (format : Format) :
    (Command.eval document format).run s =
      .after (ConfigLang.compile s.environment document) fun v =>
        .done ⟨trimEnd (format.render v) ++ "\n", "", []⟩ := by
  unfold run acts
  simp only [Action.outcome_lift_bind, Action.outcome_print]

theorem run_check :
    (Command.check source).run s =
      .after (source.read s) fun text =>
        .after (ConfigLang.compile s.environment text) fun _ =>
          .done ⟨"", source.name ++ ": OK\n", []⟩ := by
  unfold run acts
  simp only [Action.outcome_lift_bind, Action.outcome_tell]

theorem run_lex :
    (Command.lex source).run s =
      .after (source.read s) fun text => .after (tokensOf text) fun tokens =>
        .done ⟨String.join (tokens.map fun t => t.listing ++ "\n"), "", []⟩ := by
  unfold run acts
  simp only [Action.outcome_lift_bind, Action.outcome_forM_print]

theorem run_parse :
    (Command.parse source).run s =
      .after (source.read s) fun text => .after (documentOf text) fun document =>
        .done ⟨document.outline ++ "\n", "", []⟩ := by
  unfold run acts
  simp only [Action.outcome_lift_bind, Action.outcome_print]

end Command

end ConfigLang
