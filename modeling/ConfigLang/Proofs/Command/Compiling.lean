import ConfigLang.Proofs.Command.Effects
import ConfigLang.Proofs.Evaluation.Evaluating
import ConfigLang.Proofs.Lexer.Scanning

/-!
# Compiling by command line

The command `compile` leaves a document behind or nothing at all, and which variables the document
sees is settled by the arguments and the process alone.

* `read_values`: an option's values are the texts given for it, in the order of the arguments.
* `environment_supplies`: of several values given for a name the last counts, and the process is
  asked for what is not given.
* `exitCode_compile_eq_zero_iff`, `run_compile_of_ok`: when `compile` goes well, and with what.
* `compile_all_or_nothing`: the whole command, from its arguments to what it leaves.
-/

namespace ConfigLang

namespace Command

/-! ## Options among the arguments -/

/-- The texts that arguments give for an option, in order: behind the option in one argument, or
else the next argument. `pending` is the option that the first of the arguments belongs to, and an
option without a value gives the empty text. -/
def textsFor (flag : Flag) : (pending : Option Flag) → List String → List String
  | _, [] => []
  | some f, text :: args => (if f = flag then [text] else []) ++ textsFor flag none args
  | none, arg :: args =>
    match Word.ofString arg with
    | .terminator => []
    | .option (some f) (some text) => (if f = flag then [text] else []) ++ textsFor flag none args
    | .option (some f) none =>
      if f.takesValue then textsFor flag (some f) args
      else (if f = flag then [""] else []) ++ textsFor flag none args
    | .option none _ | .plain _ => textsFor flag none args

theorem plain_ofString {arg text : String} (h : Word.ofString arg = .plain text) : text = arg := by
  unfold Word.ofString at h
  split at h
  · cases h
  · cases h
  · cases h
  · exact (Word.plain.inj h).symm

theorem values_addOption {name : Name} {a b : Arguments} {f : Flag} {value : String}
    (h : a.addOption name f value = some b) (flag : Flag) :
    b.values flag = a.values flag ++ if f = flag then [value] else [] := by
  unfold Arguments.addOption at h
  split at h
  · cases h
    by_cases hf : f = flag <;> simp [Arguments.values, hf]
  · cases h

/-- No text given for an option is lost, and their order stays. -/
theorem read_values {name : Name} {a b : Arguments} {pending : Option Flag} {args : List String}
    (h : Arguments.read name a pending args = some b) (flag : Flag) :
    b.values flag = a.values flag ++ textsFor flag pending args := by
  induction args generalizing a pending with
  | nil =>
    cases pending with
    | none =>
      cases h
      exact (List.append_nil _).symm
    | some f => cases h
  | cons arg args ih =>
    cases pending with
    | some f =>
      rw [Arguments.read] at h
      split at h
      · rename_i text hword
        obtain ⟨c, hadd, h⟩ := Option.bind_eq_some_iff.1 h
        rw [ih h, values_addOption hadd, plain_ofString hword, textsFor, List.append_assoc]
      · cases h
    | none =>
      rw [Arguments.read] at h
      rw [textsFor]
      cases hword : Word.ofString arg with
      | terminator =>
        rw [hword] at h
        cases h
        exact (List.append_nil _).symm
      | plain text =>
        rw [hword] at h
        rw [ih h]
        rfl
      | option f value =>
        rw [hword] at h
        cases f with
        | none => cases h
        | some f =>
          cases value with
          | some text =>
            dsimp only at h ⊢
            split at h
            · obtain ⟨c, hadd, h⟩ := Option.bind_eq_some_iff.1 h
              rw [ih h, values_addOption hadd, List.append_assoc]
            · cases h
          | none =>
            dsimp only at h ⊢
            split at h
            · rename_i htakes
              rw [if_pos htakes]
              exact ih h
            · rename_i htakes
              obtain ⟨c, hadd, h⟩ := Option.bind_eq_some_iff.1 h
              rw [if_neg htakes, ih h, values_addOption hadd, List.append_assoc]

/-! ## Variables given by arguments -/

/-- The text gives a value to a name: they stand before and behind its first equals sign. -/
def Gives (text name value : String) : Prop :=
  '=' ∉ name.toList ∧ text = name ++ "=" ++ value

/-- No text gives a value to the name. -/
def Omits (texts : List String) (name : String) : Prop :=
  ∀ text ∈ texts, ∀ value, ¬ Gives text name value

/-- The last text that gives a value to the name gives this one. -/
def LastGiven (texts : List String) (name value : String) : Prop :=
  ∃ before text after, texts = before ++ text :: after ∧ Gives text name value ∧ Omits after name

/-- What a document sees of variables: the last value given for a name, or else, unless the process
is left out, the variable of the process. -/
def Supplies (texts : List String) (isolated : Bool) (process seen : Environment) : Prop :=
  ∀ name value, seen name = some value ↔
    LastGiven texts name value ∨
      Omits texts name ∧ isolated = false ∧ process name = some value

instance (text name value : String) : Decidable (Gives text name value) :=
  inferInstanceAs (Decidable (_ ∧ _))

theorem omits_cons {text : String} {texts : List String} {name : String} :
    Omits (text :: texts) name ↔ (∀ value, ¬ Gives text name value) ∧ Omits texts name :=
  List.forall_mem_cons

theorem lastGiven_cons {text : String} {texts : List String} {name value : String} :
    LastGiven (text :: texts) name value ↔
      LastGiven texts name value ∨ Gives text name value ∧ Omits texts name := by
  constructor
  · intro h
    obtain ⟨before, last, after, heq, hgives, homits⟩ := h
    cases before with
    | nil =>
      cases heq
      exact .inr ⟨hgives, homits⟩
    | cons first before =>
      cases heq
      exact .inl ⟨before, last, after, rfl, hgives, homits⟩
  · intro h
    rcases h with ⟨before, last, after, rfl, hgives, homits⟩ | ⟨hgives, homits⟩
    · exact ⟨text :: before, last, after, rfl, hgives, homits⟩
    · exact ⟨[], text, texts, rfl, hgives, homits⟩

theorem assignment?_eq_some_iff {text name value : String} :
    assignment? text = some (name, value) ↔ Gives text name value := by
  unfold assignment?
  constructor
  · intro h
    dsimp only at h
    generalize hrun : text.toList.takeWhile (· ≠ '=') = run at h
    obtain ⟨rest, htext, hname, hstops⟩ := Lexer.takeWhile_eq_iff.1 hrun
    rw [htext, List.drop_left] at h
    cases rest with
    | nil => cases h
    | cons c rest =>
      cases h
      have hc : c = '=' := by simpa using Lexer.stops_cons.1 hstops
      refine ⟨fun hmem => ?_, String.toList_injective ?_⟩
      · rw [String.toList_ofList] at hmem
        exact absurd rfl (of_decide_eq_true (hname _ hmem))
      · simp [htext, hc]
  · intro h
    obtain ⟨hname, rfl⟩ := h
    have htext : (name ++ "=" ++ value).toList = name.toList ++ '=' :: value.toList := by simp
    have hall : ∀ c ∈ name.toList, decide (c ≠ '=') = true := by
      intro c hc
      exact decide_eq_true fun h => hname (h ▸ hc)
    have hspan : (name ++ "=" ++ value).toList.takeWhile (· ≠ '=') = name.toList := by
      rw [htext]
      exact Lexer.takeWhile_append_of_stops hall (Lexer.stops_cons.2 rfl)
    dsimp only
    rw [hspan, htext, List.drop_left]
    simp

/-- The values given for a name, read in turn into `m`: the last one counts, and what `m` holds
stays where none is given. -/
theorem get?_insertAll_or {texts : List String} {given : List (String × String)}
    (h : texts.mapM assignment? = some given) (m : Assoc String) (name value : String)
    (other : Option String) :
    ((m.insertAll given).get? name).or other = some value ↔
      LastGiven texts name value ∨ Omits texts name ∧ (m.get? name).or other = some value := by
  induction texts generalizing given m with
  | nil =>
    cases h
    have hnone : ¬ LastGiven [] name value := by
      intro h
      obtain ⟨before, last, after, heq, -⟩ := h
      cases before <;> cases heq
    have homits : Omits [] name := List.forall_mem_nil _
    simp [Assoc.insertAll, hnone, homits]
  | cons text texts ih =>
    rw [List.mapM_cons] at h
    obtain ⟨⟨key, first⟩, hfirst, h⟩ := Option.bind_eq_some_iff.1 h
    obtain ⟨rest, hrest, h⟩ := Option.bind_eq_some_iff.1 h
    cases h
    have hgives : ∀ v, Gives text name v ↔ key = name ∧ first = v := by
      intro v
      rw [← assignment?_eq_some_iff, hfirst]
      simp
    have hstep : m.insertAll ((key, first) :: rest) = (m.insert key first).insertAll rest := rfl
    rw [hstep, ih hrest, lastGiven_cons, omits_cons, hgives]
    by_cases hkey : key = name
    · subst hkey
      have hsome : ¬ ∀ v, ¬ Gives text key v := fun h => h first ((hgives first).2 ⟨rfl, rfl⟩)
      rw [Assoc.get?_insert_self]
      simp [hsome, and_comm]
    · have hnone : ∀ v, ¬ Gives text name v := fun v h => hkey ((hgives v).1 h).1
      rw [Assoc.get?_insert_of_ne _ _ hkey]
      simp [hkey, hnone]

/-- What `compile` lets a document see. -/
theorem environment_supplies {texts : List String} {given : List (String × String)}
    (h : texts.mapM assignment? = some given) (isolated : Bool) (process : Environment) :
    Supplies texts isolated process (environment given isolated process) := by
  intro name value
  have hlookup : environment given isolated process name =
      ((Assoc.insertAll [] given).get? name).or (if isolated then none else process name) := by
    unfold environment
    cases (Assoc.insertAll [] given).get? name <;> rfl
  rw [hlookup, get?_insertAll_or h]
  cases isolated <;> simp [Assoc.get?]

/-! ## The format of the output -/

/-- A path has the extension of its last component, with a slash behind it or without. -/
theorem extension?_slash (path : String) : extension? (path ++ "/") = extension? path := by
  unfold extension?
  rw [String.toList_append, List.reverse_append]
  rfl

/-- A component that is a dot alone does not count. -/
theorem extension?_dot (path : String) : extension? (path ++ "/.") = extension? path := by
  unfold extension?
  rw [String.toList_append, List.reverse_append]
  rfl

/-! ## The command -/

section
variable {s : Surroundings} {output : Option String} {document : String}

/-- Where a document can be left, it is left whole and in one place. -/
theorem place_of_canWrite (h : ∀ path ∈ output, s.canWrite path = true) :
    (place s output document).outcome.exitCode = 0 ∧
      (place s output document).outcome.output = (if output = none then document else "") ∧
      (place s output document).outcome.files = (output.map (·, document)).toList := by
  cases output with
  | none =>
    rw [outcome_place_none]
    exact ⟨rfl, rfl, rfl⟩
  | some path =>
    rw [outcome_place_of_canWrite (h path rfl)]
    exact ⟨rfl, rfl, rfl⟩

theorem exitCode_place_eq_zero_iff :
    (place s output document).outcome.exitCode = 0 ↔ ∀ path ∈ output, s.canWrite path = true := by
  constructor
  · intro hzero path hpath
    cases hpath
    by_contra hcannot
    rw [outcome_place_of_cannot (Bool.eq_false_iff.2 hcannot)] at hzero
    cases hzero
  · intro h
    exact (place_of_canWrite h).1

end

section
variable {s : Surroundings} {source : Source} {output : Option String} {format : Option Format}
  {given : List (String × String)} {isolated : Bool}

/-- When `compile` goes well. -/
theorem exitCode_compile_eq_zero_iff :
    ((Command.compile source output format given isolated).run s).exitCode = 0 ↔
      (∃ text v, source.read s = .ok text ∧
        ConfigLang.compile (environment given isolated s.environment) text = .ok v) ∧
        ∀ path ∈ output, s.canWrite path = true := by
  rw [run_compile]
  simp only [Outcome.exitCode_after_eq_zero_iff, exitCode_place_eq_zero_iff]
  constructor
  · intro h
    obtain ⟨text, hread, v, hcompile, hwrite⟩ := h
    exact ⟨⟨text, v, hread, hcompile⟩, hwrite⟩
  · intro h
    obtain ⟨⟨text, v, hread, hcompile⟩, hwrite⟩ := h
    exact ⟨text, hread, v, hcompile, hwrite⟩

/-- From a value on, `compile` leaves the document. -/
theorem run_compile_of_ok (output : Option String) (format : Option Format) {text : String}
    {v : Value} (hread : source.read s = .ok text)
    (hcompile : ConfigLang.compile (environment given isolated s.environment) text = .ok v) :
    (Command.compile source output format given isolated).run s =
      (place s output (endLine ((formatFor format output).render v))).outcome := by
  rw [run_compile, hread]
  dsimp only [Outcome.after]
  rw [hcompile]

/-- Without the process, `compile` does not depend on its variables. -/
theorem run_compile_isolated (s : Surroundings) (process : Environment) :
    (Command.compile source output format given true).run { s with environment := process } =
      (Command.compile source output format given true).run s := by
  have hread : source.read { s with environment := process } = source.read s := rfl
  have hseen : environment given true process = environment given true s.environment := rfl
  rw [run_compile, run_compile, hread, hseen]
  rfl

end

theorem output?_eq_some {a : Arguments} {output : Option String} (h : a.output? = some output) :
    output = (a.values .output).head? := by
  unfold Arguments.output? at h
  cases hpaths : a.values .output with
  | nil =>
    rw [hpaths] at h
    cases h
    rfl
  | cons path paths =>
    rw [hpaths] at h
    dsimp only at h
    split at h
    · cases h
    · cases h
      rfl

theorem format?_eq_some {a : Arguments} {format : Option Format} (h : a.format? = some format) :
    format = (a.values .format).head?.bind Format.ofName? := by
  unfold Arguments.format? at h
  cases hnames : a.values .format with
  | nil =>
    rw [hnames] at h
    cases h
    rfl
  | cons name names =>
    rw [hnames] at h
    obtain ⟨f, hf, rfl⟩ := Option.map_eq_some_iff.1 h
    exact hf.symm

/-- What the arguments of `compile` say. -/
theorem ofStrings?_eq_compile {args : List String} {source : Source} {output : Option String}
    {format : Option Format} {given : List (String × String)} {isolated : Bool}
    (h : ofStrings? args = some (.compile source output format given isolated)) :
    ∃ rest, args = "compile" :: rest ∧ output = (textsFor .output none rest).head? ∧
      format = (textsFor .format none rest).head?.bind Format.ofName? ∧
      (isolated = true ↔ textsFor .isolated none rest ≠ []) ∧
      (textsFor .variable none rest).mapM assignment? = some given := by
  cases args with
  | nil => cases h
  | cons first rest =>
    obtain ⟨name, hname, h⟩ := Option.bind_eq_some_iff.1 h
    obtain ⟨a, hread, h⟩ := Option.bind_eq_some_iff.1 h
    have hvalues : ∀ flag, a.values flag = textsFor flag none rest := read_values hread
    cases name with
    | compile =>
      have hfirst : first = "compile" := by
        unfold Name.ofString? at hname
        split at hname <;> first | rfl | cases hname
      obtain ⟨given', hgiven, h⟩ := Option.bind_eq_some_iff.1 h
      obtain ⟨source', -, h⟩ := Option.bind_eq_some_iff.1 h
      obtain ⟨output', houtput, h⟩ := Option.bind_eq_some_iff.1 h
      obtain ⟨format', hformat, h⟩ := Option.bind_eq_some_iff.1 h
      cases h
      refine ⟨rest, by rw [hfirst], ?_, ?_, ?_, ?_⟩
      · rw [← hvalues]
        exact output?_eq_some houtput
      · rw [← hvalues]
        exact format?_eq_some hformat
      · rw [← hvalues]
        simp
      · rw [← hvalues]
        exact hgiven
    | eval =>
      obtain ⟨_, -, h⟩ := Option.bind_eq_some_iff.1 h
      obtain ⟨_, -, h⟩ := Option.bind_eq_some_iff.1 h
      cases h
    | check | lex | parse =>
      obtain ⟨_, -, h⟩ := Option.bind_eq_some_iff.1 h
      cases h

end Command

open Command

/-- `compile` leaves the whole document in one place, or nothing anywhere: a run that fails keeps
what it has left, but has left nothing. It is done exactly when its source can be read and compiled
and its file, if one is named, can be written; the document is compiled with the variables that the
arguments and the process supply, and without the process if the arguments say so. -/
theorem compile_all_or_nothing {args : List String} {source : Source} {output : Option String}
    {format : Option Format} {given : List (String × String)} {isolated : Bool}
    (h : ofStrings? args = some (.compile source output format given isolated))
    (s : Surroundings) :
    ∃ rest seen, args = "compile" :: rest ∧ output = (textsFor .output none rest).head? ∧
      format = (textsFor .format none rest).head?.bind Format.ofName? ∧
      (isolated = true ↔ textsFor .isolated none rest ≠ []) ∧
      Supplies (textsFor .variable none rest) isolated s.environment seen ∧
      ((runArguments s args).exitCode ≠ 0 →
        (runArguments s args).output = "" ∧ (runArguments s args).files = []) ∧
      ((runArguments s args).exitCode = 0 → ∃ text v document,
        source.read s = .ok text ∧ compile seen text = .ok v ∧
        document = endLine ((formatFor format output).render v) ∧
        (runArguments s args).output = (if output = none then document else "") ∧
        (runArguments s args).files = (output.map (·, document)).toList) ∧
      ((runArguments s args).exitCode = 0 ↔
        (∃ text v, source.read s = .ok text ∧ compile seen text = .ok v) ∧
          ∀ path ∈ output, s.canWrite path = true) ∧
      (isolated = true → ∀ process,
        runArguments { s with environment := process } args = runArguments s args) := by
  obtain ⟨rest, hargs, houtput, hformat, hisolated, hgiven⟩ := ofStrings?_eq_compile h
  have hrun : ∀ s, runArguments s args =
      (Command.compile source output format given isolated).run s := by
    intro s
    unfold runArguments
    rw [h]
  rw [hrun]
  refine ⟨rest, environment given isolated s.environment, hargs, houtput, hformat, hisolated,
    environment_supplies hgiven isolated s.environment, ?_, ?_, exitCode_compile_eq_zero_iff, ?_⟩
  · intro hfail
    have hleft := left_of_exitCode hfail
    exact ⟨congrArg Delivery.output hleft, congrArg Delivery.files hleft⟩
  · intro hzero
    obtain ⟨⟨text, v, hread, hcompile⟩, hwrite⟩ := exitCode_compile_eq_zero_iff.1 hzero
    obtain ⟨-, hout, hfiles⟩ := place_of_canWrite hwrite
    rw [run_compile_of_ok output format hread hcompile]
    exact ⟨text, v, _, hread, hcompile, rfl, hout, hfiles⟩
  · intro htrue process
    rw [hrun, htrue]
    exact run_compile_isolated s process

/-- One variable is given twice, and the process has it too. -/
def overridingArguments : List String :=
  ["compile", "in.corn", "--env", "A=1", "--env=A=2=3", "--no-os-env"]

/-- A file whose document asks for a variable. -/
def oneFile : Surroundings where
  standardInput := none
  environment := fun _ => some "9"
  fileText := fun path => if path = "in.corn" then some "\x7ba=$_envA\x7d" else none
  canWrite := fun _ => false

theorem tokenize_oneFile :
    Lexer.tokenize "\x7ba=$_envA\x7d" = .ok [.symbol .braceOpen, .segment "a", .symbol .equals,
      .input "$_envA", .symbol .braceClose] := by
  decide +kernel

/-- The last value counts, with all that follows the first equals sign. -/
theorem compile_all_or_nothing_of_overriding :
    ofStrings? overridingArguments =
        some (.compile (.file "in.corn") none none [("A", "1"), ("A", "2=3")] true) ∧
      (runArguments oneFile overridingArguments).exitCode = 0 ∧
      (runArguments oneFile overridingArguments).output = "\x7b\n  \"a\": \"2=3\"\n\x7d\n" ∧
      ∀ process, runArguments { oneFile with environment := process } overridingArguments =
        runArguments oneFile overridingArguments := by
  have hargs : ofStrings? overridingArguments =
      some (.compile (.file "in.corn") none none [("A", "1"), ("A", "2=3")] true) := by
    decide +kernel
  obtain ⟨rest, seen, hrest, -, -, -, hseen, -, hzero, hiff, hisolated⟩ :=
    compile_all_or_nothing hargs oneFile
  cases hrest
  have hA : seen "A" = some "2=3" :=
    (hseen "A" "2=3").2 (.inl ⟨["A=1"], "A=2=3", [], by decide +kernel, by decide +kernel,
      List.forall_mem_nil _⟩)
  have hresolve : resolve seen [] "$_envA" = .ok (.string "2=3") := by
    have hname : Scope.variableOf? "$_envA" = some "A" := by decide +kernel
    simp [resolve, Scope.resolve?, Assoc.get?, hname, hA]
  have hdocument : documentOf "\x7ba=$_envA\x7d" =
      .ok ⟨none, [.pair ⟨"a", []⟩ (.input "$_envA")]⟩ := by
    unfold documentOf tokensOf
    rw [tokenize_oneFile]
    rfl
  have heval : Document.eval seen ⟨none, [.pair ⟨"a", []⟩ (.input "$_envA")]⟩ =
      .ok [("a", .string "2=3")] := by
    show evalEntries seen [] [] _ = _
    rw [evalEntries, Entry.eval, Expr.eval, hresolve]
    rfl
  have hcompile := compile_of_documentOf hdocument heval
  have hdone := hiff.2 ⟨⟨_, _, rfl, hcompile⟩, fun _ h => absurd h (Option.not_mem_none _)⟩
  obtain ⟨text, v, document, hread, hv, rfl, hout, -⟩ := hzero hdone
  cases hread
  cases hcompile.symm.trans hv
  exact ⟨hargs, hdone, hout, hisolated rfl⟩

end ConfigLang
