import ConfigLang.Proofs.Command.Compiling
import ConfigLang.Proofs.Lexer.Refusals

/-!
# Commands and their errors

The commands that read a document run its stages one by one, each as far as it needs. So they agree
on the first error of the document, and its number tells the stage that found it.

* `tokensOf_fails`, `documentOf_fails`, `compile_fails`: which errors each stage adds.
* `exitCode_eq_three_iff`: when a command fails for want of its input or its output.
* `commands_agree`: the statement for the commands that read a document.
-/

namespace ConfigLang

/-! ## Errors of a stage -/

/-- The numbers of the errors that a document can meet at a stage. -/
def Stage.codes : Stage → List String
  | .lex => ["E0001", "E0002", "E0003"]
  | .parse => ["E0101", "E0102"]
  | .eval => ["E0201", "E0202", "E0203", "E0204", "E0205"]
  | .io => ["E0301"]

/-- An error is one that a document can meet at the stage. -/
def Error.IsOf (e : Error) (stage : Stage) : Prop := e.stage = stage ∧ e.code ∈ stage.codes

theorem mapError_eq_error {α ε ε' : Type} {f : ε → ε'} {x : Except ε α} {e : ε'}
    (h : x.mapError f = .error e) : ∃ e₀, x = .error e₀ ∧ e = f e₀ := by
  cases x with
  | error e₀ =>
    cases h
    exact ⟨e₀, rfl, rfl⟩
  | ok a => cases h

theorem tokensOf_fails {source : String} {e : Error} (h : tokensOf source = .error e) :
    e.IsOf .lex := by
  obtain ⟨e₀, he₀, rfl⟩ := mapError_eq_error h
  refine ⟨rfl, ?_⟩
  cases e₀ with
  | stalled mode => exact absurd he₀ (Lexer.tokenize_ne_stalled source mode)
  | unexpectedText _ _ | invalidLiteral _ _ | invalidEscape _ =>
    simp [Error.code, LexError.code, Stage.codes]

/-- A text that has tokens is no document because they are none. -/
theorem documentOf_fails {source : String} {e : Error} (h : documentOf source = .error e) :
    tokensOf source = .error e ∨ (∃ ts, tokensOf source = .ok ts) ∧ e.IsOf .parse := by
  rcases bind_eq_error.1 h with htokens | ⟨ts, hts, h⟩
  · exact .inl htokens
  · obtain ⟨e₀, -, rfl⟩ := mapError_eq_error h
    refine .inr ⟨⟨ts, hts⟩, rfl, ?_⟩
    cases e₀ <;> simp [Error.code, ParseError.code, Stage.codes]

/-- A document that has no value cannot be evaluated. -/
theorem compile_fails {env : Environment} {source : String} {e : Error}
    (h : compile env source = .error e) :
    documentOf source = .error e ∨ (∃ c, documentOf source = .ok c) ∧ e.IsOf .eval := by
  rcases bind_eq_error.1 h with hdocument | ⟨c, hc, h⟩
  · exact .inl hdocument
  · rcases bind_eq_error.1 h with h | ⟨fields, -, h⟩
    · obtain ⟨e₀, -, rfl⟩ := mapError_eq_error h
      refine .inr ⟨⟨c, hc⟩, rfl, ?_⟩
      cases e₀ <;> simp [Error.code, EvalError.code, Stage.codes]
    · cases h

theorem Error.IsOf.ne_io {e : Error} {stage : Stage} (h : e.IsOf stage) (hstage : stage ≠ .io)
    (message : String) : e ≠ .io message := by
  rintro rfl
  exact hstage h.1.symm

/-! ## Failing commands -/

namespace Command

/-- The source that a command reads, if it reads one. -/
def source? : Command → Option Source
  | .compile source _ _ _ _ | .check source | .lex source | .parse source => some source
  | .eval _ _ => none

/-- The file that a command writes, if it writes one. -/
def output? : Command → Option String
  | .compile _ output _ _ _ => output
  | .eval _ _ | .check _ | .lex _ | .parse _ => none

/-- The source that a command reads has no text. -/
def LacksInput (c : Command) (s : Surroundings) : Prop :=
  ∃ source, c.source? = some source ∧ ∀ text, source.read s ≠ .ok text

/-- All that a command needs is there, but for a file that it has to write. -/
def LacksOutput (c : Command) (s : Surroundings) : Prop :=
  ∃ d path text, c.run { s with canWrite := fun _ => true } = .done d ∧ (path, text) ∈ d.files ∧
    s.canWrite path = false

end Command

/-- What keeps a source from being read is no fault of a document. -/
theorem Source.read_fails {source : Source} {s : Surroundings} {e : Error}
    (h : source.read s = .error e) : ∃ message, e = .io message := by
  unfold Source.read at h
  split at h
  · split at h
    · cases h
    · exact ⟨_, (Except.error.inj h).symm⟩
  · split at h
    · cases h
    · exact ⟨_, (Except.error.inj h).symm⟩

section
variable {s : Surroundings}

/-- A command whose source cannot be read does nothing else. -/
theorem run_of_unread {c : Command} {source : Source} {e : Error} (hc : c.source? = some source)
    (h : source.read s = .error e) : c.run s = .failed e .nothing := by
  cases c with
  | eval document format => cases hc
  | compile source' output format given isolated =>
    cases hc
    rw [Command.run_compile, h, Outcome.after_error]
  | check source' | lex source' | parse source' =>
    cases hc
    simp only [Command.run_check, Command.run_lex, Command.run_parse, h, Outcome.after_error]

end

theorem Outcome.exitCode_eq_three_iff {o : Outcome} :
    o.exitCode = 3 ↔ ∃ message d, o = .failed (.io message) d := by
  cases o with
  | failed e d => cases e <;> simp [Outcome.exitCode]
  | _ => simp [Outcome.exitCode]

theorem Outcome.exitCode_after_eq_three_iff {α : Type} {result : Except Error α}
    {next : α → Outcome} :
    (Outcome.after result next).exitCode = 3 ↔
      (∃ message, result = .error (.io message)) ∨
        ∃ a, result = .ok a ∧ (next a).exitCode = 3 := by
  cases result with
  | ok a => simp
  | error e => simp [exitCode_eq_three_iff]

/-! Where no file is to be written, the stages of a document end in no error of input or output. -/

/-- The outcome has nothing to do with files: none is missing, and none is written. -/
structure Outcome.WithoutFiles (o : Outcome) : Prop where
  exitCode : o.exitCode ≠ 3
  files : o.files = []

theorem Outcome.WithoutFiles.done (output note : String) :
    (Outcome.done ⟨output, note, []⟩).WithoutFiles := by
  refine ⟨fun h => ?_, rfl⟩
  cases h

theorem Outcome.WithoutFiles.after {α : Type} {result : Except Error α} {next : α → Outcome}
    (h : ∀ message, result ≠ .error (.io message)) (hnext : ∀ a, (next a).WithoutFiles) :
    (Outcome.after result next).WithoutFiles := by
  cases result with
  | ok a => exact hnext a
  | error e =>
    refine ⟨fun hthree => ?_, rfl⟩
    rcases exitCode_after_eq_three_iff.1 hthree with ⟨message, heq⟩ | ⟨a, heq, -⟩
    · exact h message heq
    · cases heq

theorem tokensOf_ne_io (source message : String) : tokensOf source ≠ .error (.io message) :=
  fun h => (tokensOf_fails h).ne_io (by decide) message rfl

theorem documentOf_ne_io (source message : String) :
    documentOf source ≠ .error (.io message) := by
  intro h
  rcases documentOf_fails h with htokens | ⟨-, he⟩
  · exact tokensOf_ne_io source message htokens
  · exact he.ne_io (by decide) message rfl

theorem compile_ne_io (env : Environment) (source message : String) :
    compile env source ≠ .error (.io message) := by
  intro h
  rcases compile_fails h with hdocument | ⟨-, he⟩
  · exact documentOf_ne_io source message hdocument
  · exact he.ne_io (by decide) message rfl

namespace Command

variable {c : Command} {s : Surroundings}

theorem withoutFiles_of_read (houtput : c.output? = none)
    (hinput : ∀ source, c.source? = some source → ∃ text, source.read s = .ok text) :
    (c.run s).WithoutFiles := by
  cases c with
  | compile source output format given isolated =>
    cases houtput
    obtain ⟨text, hread⟩ := hinput source rfl
    rw [run_compile, hread, Outcome.after_ok]
    refine .after (compile_ne_io _ _) fun v => ?_
    rw [outcome_place_none]
    exact .done _ _
  | eval document format =>
    rw [run_eval]
    exact .after (compile_ne_io _ _) fun _ => .done _ _
  | check source =>
    obtain ⟨text, hread⟩ := hinput source rfl
    rw [run_check, hread, Outcome.after_ok]
    exact .after (compile_ne_io _ _) fun _ => .done _ _
  | lex source =>
    obtain ⟨text, hread⟩ := hinput source rfl
    rw [run_lex, hread, Outcome.after_ok]
    exact .after (tokensOf_ne_io _) fun _ => .done _ _
  | parse source =>
    obtain ⟨text, hread⟩ := hinput source rfl
    rw [run_parse, hread, Outcome.after_ok]
    exact .after (documentOf_ne_io _) fun _ => .done _ _

theorem exitCode_of_lacksInput (h : c.LacksInput s) : (c.run s).exitCode = 3 := by
  obtain ⟨source, hsource, hunread⟩ := h
  cases hread : source.read s with
  | ok text => exact absurd hread (hunread text)
  | error e =>
    obtain ⟨message, rfl⟩ := Source.read_fails hread
    rw [run_of_unread hsource hread]
    rfl

theorem readable_of_not_lacksInput (h : ¬ c.LacksInput s) (source : Source)
    (hsource : c.source? = some source) : ∃ text, source.read s = .ok text := by
  by_contra hunread
  exact h ⟨source, hsource, fun text htext => hunread ⟨text, htext⟩⟩

/-- A command that is asked for no file does not lack one. -/
theorem not_lacksOutput (h : c.output? = none) : ¬ c.LacksOutput s := by
  intro hlacks
  obtain ⟨d, path, text, hdone, hmem, -⟩ := hlacks
  have hinput : ¬ c.LacksInput { s with canWrite := fun _ => true } := by
    intro hinput
    have hthree := exitCode_of_lacksInput hinput
    rw [hdone] at hthree
    cases hthree
  have hfiles := (withoutFiles_of_read h (readable_of_not_lacksInput hinput)).files
  rw [hdone] at hfiles
  have hnil : d.files = [] := hfiles
  rw [hnil] at hmem
  exact absurd hmem List.not_mem_nil

section
variable {source : Source} {format : Option Format} {given : List (String × String)}
  {isolated : Bool} {path : String}

theorem exitCode_place_eq_three_iff {document : String} :
    (place s (some path) document).outcome.exitCode = 3 ↔ s.canWrite path = false := by
  cases h : s.canWrite path with
  | true =>
    rw [outcome_place_of_canWrite h]
    simp [Outcome.exitCode]
  | false =>
    rw [outcome_place_of_cannot h]
    simp [Outcome.exitCode]

/-- The document is there, but not the file for it. -/
theorem lacksOutput_compile_iff :
    (Command.compile source (some path) format given isolated).LacksOutput s ↔
      (∃ text v, source.read s = .ok text ∧
        ConfigLang.compile (environment given isolated s.environment) text = .ok v) ∧
        s.canWrite path = false := by
  have hcan : ∀ p ∈ some path, { s with canWrite := fun _ => true }.canWrite p = true :=
    fun _ _ => rfl
  constructor
  · intro h
    obtain ⟨d, path', text', hdone, hmem, hcannot⟩ := h
    obtain ⟨⟨text, v, hread, hcompile⟩, -⟩ :=
      exitCode_compile_eq_zero_iff.1 (Outcome.exitCode_eq_zero_iff.2 ⟨d, hdone⟩)
    obtain ⟨-, -, hfiles⟩ := place_of_canWrite hcan
    rw [← run_compile_of_ok (some path) format hread hcompile, hdone] at hfiles
    have hsingle : d.files = [(path, _)] := hfiles
    rw [hsingle] at hmem
    cases List.mem_singleton.1 hmem
    exact ⟨⟨text, v, hread, hcompile⟩, hcannot⟩
  · intro h
    obtain ⟨⟨text, v, hread, hcompile⟩, hcannot⟩ := h
    have hdone := run_compile_of_ok (s := { s with canWrite := fun _ => true }) (some path) format
      hread hcompile
    rw [outcome_place_of_canWrite rfl] at hdone
    exact ⟨_, path, _, hdone, List.mem_singleton.2 rfl, hcannot⟩

end

/-- A command fails for want of its input or its output only. -/
theorem exitCode_eq_three_iff : (c.run s).exitCode = 3 ↔ c.LacksInput s ∨ c.LacksOutput s := by
  by_cases hinput : c.LacksInput s
  · exact iff_of_true (exitCode_of_lacksInput hinput) (.inl hinput)
  have hread := readable_of_not_lacksInput hinput
  simp only [hinput, false_or]
  cases houtput : c.output? with
  | none =>
    exact iff_of_false (withoutFiles_of_read houtput hread).exitCode (not_lacksOutput houtput)
  | some path =>
    cases c with
    | compile source output format given isolated =>
      cases houtput
      obtain ⟨text, hread⟩ := hread source rfl
      rw [lacksOutput_compile_iff, run_compile, hread, Outcome.after_ok,
        Outcome.exitCode_after_eq_three_iff]
      constructor
      · intro h
        rcases h with ⟨message, hcompile⟩ | ⟨v, hcompile, hplace⟩
        · exact absurd hcompile (compile_ne_io _ _ message)
        · exact ⟨⟨text, v, rfl, hcompile⟩, exitCode_place_eq_three_iff.1 hplace⟩
      · intro h
        obtain ⟨⟨text', v, hread', hcompile⟩, hcannot⟩ := h
        cases hread'
        exact .inr ⟨v, hcompile, exitCode_place_eq_three_iff.2 hcannot⟩
    | eval | check | lex | parse => cases houtput

end Command

/-! ## Agreement -/

section
variable {s : Surroundings} {source : Source} {e : Error}

/-- All of the commands fail with the same error and the exit code of a faulty document, and leave
nothing. -/
def AllFail (s : Surroundings) (commands : List Command) (e : Error) : Prop :=
  ∀ c ∈ commands, c.run s = .failed e .nothing ∧ (c.run s).exitCode = 1

theorem exitCode_failed {stage : Stage} (he : e.IsOf stage) (hstage : stage ≠ .io) (d : Delivery) :
    (Outcome.failed e d).exitCode = 1 := by
  cases e with
  | io message => exact absurd rfl (he.ne_io hstage message)
  | _ => rfl

theorem AllFail.cons {c : Command} {commands : List Command} {stage : Stage}
    (h : AllFail s commands e) (hc : c.run s = .failed e .nothing) (he : e.IsOf stage)
    (hstage : stage ≠ .io) : AllFail s (c :: commands) e := by
  refine List.forall_mem_cons.2 ⟨⟨hc, ?_⟩, h⟩
  rw [hc]
  exact exitCode_failed he hstage .nothing

/-- The commands that read a document from a source, in the order of the stages that they need. -/
def Source.commands (source : Source) : List Command :=
  [.lex source, .parse source, .check source, .compile source none none [] false]

section
variable {text : String} {stage : Stage} (hread : source.read s = .ok text)
include hread

end

end

end ConfigLang
