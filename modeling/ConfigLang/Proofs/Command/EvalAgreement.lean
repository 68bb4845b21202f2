import ConfigLang.Proofs.Command.Effects
import ConfigLang.Proofs.Evaluation.Evaluating
import ConfigLang.Proofs.Yaml.TextEnds

/-!
# Documents as arguments and documents in files

`eval` takes its document from the command line, `compile` from a file. They end alike on the same
document, and print the same text unless the YAML text of its value ends in a blank that belongs to
a string: `eval` strips it.

* `runArguments_eval`, `runArguments_compile`: what the two command lines come to.
* `eval_agrees_with_compile`: when they print the same.
-/

namespace ConfigLang

/-- A name by which the format is asked for. -/
def Format.name : Format → String
  | .json => "json"
  | .jsonPretty => "json-pretty"
  | .yaml => "yaml"

namespace Command

/-! ## Command lines -/

theorem ofName?_name (format : Format) : Format.ofName? format.name = some format := by
  cases format <;> decide +kernel

theorem ofString_name (format : Format) : Word.ofString format.name = .plain format.name := by
  cases format <;> rfl

/-- One argument of its own and the option for the format. -/
theorem read_arguments {name : Name} (hname : .format ∈ name.flags) {own : String}
    (hown : Word.ofString own = .plain own) (format : Format) :
    Arguments.read name ⟨[], []⟩ none [own, "-f", format.name] =
      some ⟨[own], [(.format, format.name)]⟩ := by
  have hflag : Word.ofString "-f" = .option (some .format) none := rfl
  simp [Arguments.read, hown, hflag, ofString_name, Flag.takesValue, Arguments.addOption, hname]

theorem format?_of_options (own : List String) (format : Format) :
    Arguments.format? ⟨own, [(.format, format.name)]⟩ = some (some format) := by
  have hvalues : Arguments.values ⟨own, [(.format, format.name)]⟩ .format = [format.name] := rfl
  unfold Arguments.format?
  rw [hvalues]
  dsimp only
  rw [ofName?_name]
  rfl

theorem ofStrings?_eval {document : String} (h : Word.ofString document = .plain document)
    (format : Format) :
    ofStrings? ["eval", document, "-f", format.name] = some (.eval document format) := by
  have hname : Name.ofString? "eval" = some .eval := rfl
  have hread : Arguments.read .eval ⟨[], []⟩ none [document, "-f", format.name] = _ :=
    read_arguments (by decide) h format
  unfold ofStrings?
  dsimp only
  rw [hname, Option.bind_eq_bind, Option.bind_some, hread]
  simp [ofArguments?, format?_of_options, Arguments.single?]

theorem source?_of_path {path : String} (hpath : path ∉ ["", "-", "/dev/stdin"])
    (options : List (Flag × String)) :
    Arguments.source? ⟨[path], options⟩ = some (.file path) := by
  simp only [List.mem_cons, List.not_mem_nil, or_false, not_or] at hpath
  obtain ⟨hempty, hdash, hdevice⟩ := hpath
  unfold Arguments.source? Arguments.single?
  split
  · rename_i h
    exact absurd (Option.some.inj h) hdash
  · rename_i h
    exact absurd (Option.some.inj h) hdevice
  · rename_i h
    exact absurd (Option.some.inj h) hempty
  · rename_i h
    cases h
  · rename_i h
    rw [Option.some.inj h]

theorem ofStrings?_compile {path : String} (h : Word.ofString path = .plain path)
    (hpath : path ∉ ["", "-", "/dev/stdin"]) (format : Format) :
    ofStrings? ["compile", path, "-f", format.name] =
      some (.compile (.file path) none (some format) [] false) := by
  have hname : Name.ofString? "compile" = some .compile := rfl
  have hread : Arguments.read .compile ⟨[], []⟩ none [path, "-f", format.name] = _ :=
    read_arguments (by decide) h format
  unfold ofStrings?
  dsimp only
  rw [hname, Option.bind_eq_bind, Option.bind_some, hread]
  simp [ofArguments?, source?_of_path hpath, format?_of_options, Arguments.values,
    Arguments.output?]

/-! ## Outcomes -/

theorem environment_default (process : Environment) : environment [] false process = process := rfl

/-- `eval` strips the end of the text and ends the line. -/
theorem runArguments_eval {s : Surroundings} {document : String}
    (h : Word.ofString document = .plain document) (format : Format) :
    runArguments s ["eval", document, "-f", format.name] =
      .after (ConfigLang.compile s.environment document)
        (fun v => .done ⟨trimEnd (format.render v) ++ "\n", "", []⟩) := by
  unfold runArguments
  rw [ofStrings?_eval h]
  exact run_eval document format

/-- `compile` without options ends the line. -/
theorem runArguments_compile {s : Surroundings} {document path : String}
    (h : Word.ofString path = .plain path) (hpath : path ∉ ["", "-", "/dev/stdin"])
    (hfile : s.fileText path = some document) (format : Format) :
    runArguments s ["compile", path, "-f", format.name] =
      .after (ConfigLang.compile s.environment document)
        (fun v => .done ⟨endLine (format.render v), "", []⟩) := by
  have hread : Source.read s (.file path) = .ok document := by
    unfold Source.read
    dsimp only
    rw [hfile]
  unfold runArguments
  rw [ofStrings?_compile h hpath]
  dsimp only
  rw [run_compile, hread, Outcome.after_ok, environment_default]
  simp only [outcome_place_none]
  rfl

/-- The value of a document is an object. -/
theorem compile_eq_object {env : Environment} {document : String} {v : Value}
    (h : ConfigLang.compile env document = .ok v) : ∃ fields, v = .object fields := by
  obtain ⟨-, fields, -, -, rfl⟩ := compile_eq_ok_iff.1 h
  exact ⟨fields, rfl⟩

/-- What `eval` strips is lost from YAML, and only from strings that end in blanks. -/
theorem trimEnd_render_eq_iff (format : Format) (fields : List (String × Value)) :
    trimEnd (format.render (.object fields)) ++ "\n" = endLine (format.render (.object fields)) ↔
      ¬ (format = .yaml ∧ (Value.object fields).EndsBlank) := by
  cases format with
  | json | jsonPretty => simp [Format.render, Json.trimEnd_text_eq]
  | yaml => simp [Format.render, Yaml.trimEnd_text_eq_iff]

end Command

open Command

/-- **When the two commands agree.** On a document of the command line and a file that holds it,
`eval` and `compile` end with the same exit code and the same diagnostic. `compile` prints the whole
text of the value with its last line ended. `eval` prints the same, but for YAML text whose last
leaf is a string without quotes that ends in a blank, and then something else. -/
theorem eval_agrees_with_compile {s : Surroundings} {document path : String}
    (hdocument : Word.ofString document = .plain document)
    (hpath : Word.ofString path = .plain path ∧ path ∉ ["", "-", "/dev/stdin"])
    (hfile : s.fileText path = some document) (format : Format) :
    let evaluated := runArguments s ["eval", document, "-f", format.name]
    let compiled := runArguments s ["compile", path, "-f", format.name]
    evaluated.exitCode = compiled.exitCode ∧ evaluated.diagnostic? = compiled.diagnostic? ∧
      (∀ v, compile s.environment document = .ok v →
        compiled.output = endLine (format.render v)) ∧
      (evaluated.output = compiled.output ↔
        ∀ v, compile s.environment document = .ok v → ¬ (format = .yaml ∧ v.EndsBlank)) := by
  intro evaluated compiled
  have he : evaluated = _ := runArguments_eval hdocument format
  have hc : compiled = _ := runArguments_compile hpath.1 hpath.2 hfile format
  rw [he, hc]
  cases hv : compile s.environment document with
  | error e => simp
  | ok v =>
    obtain ⟨fields, rfl⟩ := compile_eq_object hv
    refine ⟨rfl, rfl, ?_, ?_⟩
    · intro v h
      cases h
      rfl
    · simp only [Except.ok.injEq, forall_eq']
      exact trimEnd_render_eq_iff format fields

/-- A document whose only string ends in two line feeds. -/
def paddedDocument : String := "\x7b a = \"x\\n\\n\" \x7d"

/-- Surroundings with a file that holds `paddedDocument`. -/
def paddedSurroundings : Surroundings where
  standardInput := none
  environment := fun _ => none
  fileText := fun path => if path = "in.corn" then some paddedDocument else none
  canWrite := fun _ => false

theorem tokenize_padded :
    Lexer.tokenize paddedDocument = .ok [.symbol .braceOpen, .segment "a", .symbol .equals,
      .symbol .quote, .characters "x", .escape '\n', .escape '\n', .symbol .quote,
      .symbol .braceClose] := by
  decide +kernel

theorem compile_padded :
    compile paddedSurroundings.environment paddedDocument =
      .ok (.object [("a", .string "x\n\n")]) := by
  have hdocument : documentOf paddedDocument =
      .ok ⟨none, [.pair ⟨"a", []⟩ (.string [.characters "x", .escape '\n', .escape '\n'])]⟩ := by
    unfold documentOf tokensOf
    rw [tokenize_padded]
    rfl
  exact compile_of_documentOf hdocument rfl

theorem eval_agrees_with_compile_on_padded :
    let evaluated := runArguments paddedSurroundings ["eval", paddedDocument, "-f", "yaml"]
    let compiled := runArguments paddedSurroundings ["compile", "in.corn", "-f", "yaml"]
    evaluated.exitCode = compiled.exitCode ∧
      (evaluated.output = compiled.output ↔
        ∀ v, compile paddedSurroundings.environment paddedDocument = .ok v → ¬ v.EndsBlank) := by
  have hfile : paddedSurroundings.fileText "in.corn" = some paddedDocument := rfl
  obtain ⟨hexit, -, -, hout⟩ := eval_agrees_with_compile rfl ⟨rfl, by decide⟩ hfile .yaml
  simp only [true_and] at hout
  exact ⟨hexit, hout⟩

/-- One of the two line feeds at the end of the string is lost by `eval`. -/
theorem eval_loses_line_feed :
    (runArguments paddedSurroundings ["eval", paddedDocument, "-f", "yaml"]).output =
        "a: |+\n  x\n" ∧
      (runArguments paddedSurroundings ["compile", "in.corn", "-f", "yaml"]).output =
        "a: |+\n  x\n\n" := by
  have hfile : paddedSurroundings.fileText "in.corn" = some paddedDocument := rfl
  have hdocument : Word.ofString paddedDocument = .plain paddedDocument := rfl
  have heval := runArguments_eval (s := paddedSurroundings) hdocument .yaml
  have hcompile := runArguments_compile rfl (by decide) hfile .yaml
  rw [compile_padded] at heval hcompile
  constructor
  · exact (congrArg Outcome.output heval).trans (by decide)
  · exact (congrArg Outcome.output hcompile).trans (by decide)

end ConfigLang
