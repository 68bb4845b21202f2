import ConfigLang.Lexer.Scan

/-!
# Lexer runs

A lexer is the text still to be read and the stack of modes. Each step skips trivia, unless a
string is open, and reads one token; a step that fails moves past the trivia and nothing else.
-/

namespace ConfigLang

/-- The state of reading a document: the text ahead and the open modes, innermost first. -/
structure Lexer where
  rest : List Char
  modes : List Lexer.Mode
deriving DecidableEq, Repr

namespace Lexer

/-- A lexer at the start of a text. -/
def ofText (source : List Char) : Lexer := ⟨source, [.topLevel]⟩

/-! ## Trivia -/

mutual

/-- The text after white space and comments. -/
def skipTrivia : List Char → List Char
  | [] => []
  | c :: cs =>
    if Text.isBlank c then skipTrivia cs
    else if c = '/' ∧ cs.head? = some '/' then skipComment cs
    else c :: cs

/-- The text after the rest of a comment, which ends with its line, and the trivia behind it. -/
def skipComment : List Char → List Char
  | [] => []
  | c :: cs => if c = '\n' then skipTrivia cs else skipComment cs

end

mutual

theorem skipTrivia_suffix : ∀ cs : List Char, skipTrivia cs <:+ cs
  | [] => by simp [skipTrivia]
  | c :: cs => by
    rw [skipTrivia]
    split
    · exact (skipTrivia_suffix cs).trans (List.suffix_cons c cs)
    · split
      · exact (skipComment_suffix cs).trans (List.suffix_cons c cs)
      · exact List.suffix_rfl

theorem skipComment_suffix : ∀ cs : List Char, skipComment cs <:+ cs
  | [] => by simp [skipComment]
  | c :: cs => by
    rw [skipComment]
    split
    · exact (skipTrivia_suffix cs).trans (List.suffix_cons c cs)
    · exact (skipComment_suffix cs).trans (List.suffix_cons c cs)

end

/-! ## Steps -/

/-- The text at which the next token must start. -/
def ahead (l : Lexer) : List Char :=
  if l.modes.head? = some .string then l.rest else skipTrivia l.rest

/-- The token at the start of a text, with what it does to the modes; none where the text ends. -/
def read : List Mode → List Char → Except LexError (Option (Lexeme × Move))
  | _, [] => .ok none
  | [], cs => .error (.unexpectedText none (String.ofList (Text.excerpt cs)))
  | mode :: _, cs =>
    match firstMatch mode.rules cs with
    | .error e => .error e
    | .ok none => .error (.unexpectedText (some mode) (String.ofList (Text.excerpt cs)))
    | .ok (some (lexeme, move)) =>
      if lexeme.text.isEmpty then .error (.stalled mode) else .ok (some (lexeme, move))

/-- Reads the next token, or finds that the text has ended. -/
def next (l : Lexer) : Except LexError (Option Lexeme) × Lexer :=
  match read l.modes l.ahead with
  | .error e => (.error e, ⟨l.ahead, l.modes⟩)
  | .ok none => (.ok none, ⟨l.ahead, l.modes⟩)
  | .ok (some (lexeme, move)) =>
    (.ok (some lexeme), ⟨l.ahead.drop lexeme.text.length, move.apply l.modes⟩)

/-- What is skipped stands before the next token. -/
theorem ahead_suffix (l : Lexer) : l.ahead <:+ l.rest := by
  unfold ahead
  split
  · exact List.suffix_rfl
  · exact skipTrivia_suffix l.rest

/-- A token is read from text that is there, and covers some of it. -/
theorem read_nonempty {modes : List Mode} {cs : List Char} {lexeme : Lexeme} {move : Move}
    (h : read modes cs = .ok (some (lexeme, move))) : cs ≠ [] ∧ lexeme.text ≠ [] := by
  fun_cases read modes cs <;> simp_all [read]

/-- A step that reads a token leaves less text. -/
theorem length_next_lt {l l' : Lexer} {lexeme : Lexeme} (h : l.next = (.ok (some lexeme), l')) :
    l'.rest.length < l.rest.length := by
  have hle := l.ahead_suffix.length_le
  unfold next at h
  split at h
  · simp at h
  · simp at h
  · rename_i hread
    obtain ⟨⟨⟩, rfl⟩ := Prod.mk.inj h
    obtain ⟨h₁, h₂⟩ := read_nonempty hread
    have h₁ := List.length_pos_iff.2 h₁
    have h₂ := List.length_pos_iff.2 h₂
    simp only [List.length_drop]
    omega

/-! ## Runs -/

/-- What a lexer has done when it stops. -/
structure Run where
  /-- The tokens read, each with the modes open after it. -/
  steps : List (Lexeme × List Mode)
  /-- Where the lexer stopped. -/
  last : Lexer
  /-- Why it stopped before the end of the text. -/
  error : Option LexError
deriving DecidableEq, Repr

/-- Reads tokens until the text ends or a step fails. -/
def run (l : Lexer) : Run :=
  match h : l.next with
  | (.ok (some lexeme), l') =>
    have := length_next_lt h
    let rest := run l'
    { rest with steps := (lexeme, l'.modes) :: rest.steps }
  | (.ok none, l') => ⟨[], l', none⟩
  | (.error e, l') => ⟨[], l', some e⟩
termination_by l.rest.length

/-- The tokens of a run that reached the end of the text. -/
def Run.tokens (r : Run) : Except LexError (List Token) :=
  match r.error with
  | some e => .error e
  | none => .ok (r.steps.map fun step => step.1.token)

/-- The tokens of a document. -/
def tokenize (source : String) : Except LexError (List Token) :=
  (ofText source.toList).run.tokens

end Lexer

end ConfigLang
