import ConfigLang.Proofs.Lexer.Refusals
import Mathlib.Tactic.FinCases

/-!
# The stack of modes keeps its shape

Whatever text a lexer reads, the document stays open at the bottom of its stack of modes, and the
modes above lie in one another as the constructs of a document do.

* `Mode.opensIn`, `Nested`: which construct may be open directly inside which, all the way down.
* `move_fits`: every rule of every table respects this. Only here are the tables looked at.
* `Nested.next`, `nested_afterSteps`: one step, and any number of them, on any text.
* `modes_stay_nested`: the shape of the stack, at every moment of every run.
-/

namespace ConfigLang.Lexer

/-! ## Constructs inside constructs -/

/-- Whether a construct may be open directly inside another. -/
def Mode.opensIn : Mode → Mode → Bool
  | .bindings, .topLevel | .object, .topLevel => true
  | .value, .bindings | .value, .object => true
  | .object, .bindings | .object, .object | .object, .array => true
  | .array, .bindings | .array, .object | .array, .array => true
  | .string, .bindings | .string, .object | .string, .array => true
  | _, _ => false

/-- Each mode of the stack is open inside the next, and the outermost is the document. -/
structure Nested (modes : List Mode) : Prop where
  inside : modes.IsChain fun inner outer => inner.opensIn outer
  outermost : modes.getLast? = some .topLevel

/-- A move that leaves the modes nested when it is made in `mode`. -/
def Move.Fits (mode : Mode) : Move → Prop
  | .stay => True
  | .push inner => inner.opensIn mode
  | .replace inner => mode ≠ .topLevel ∧ ∀ outer, mode.opensIn outer → inner.opensIn outer
  | .pop => mode ≠ .topLevel

theorem move_fits {mode : Mode} {rule : Rule} (h : rule ∈ mode.rules) : rule.move.Fits mode := by
  -- Only a value is replaced, by a construct that may be open wherever a value may.
  cases mode <;> fin_cases h <;>
    first
    | trivial
    | exact Mode.noConfusion
    | exact ⟨Mode.noConfusion, fun outer => by cases outer <;> decide⟩

section
variable {mode : Mode} {outer : List Mode}

theorem nested_start : Nested [.topLevel] := ⟨.singleton _, rfl⟩

/-- Above the document stands at least one mode more than below. -/
theorem Nested.exists_outer (h : Nested (mode :: outer)) (hmode : mode ≠ .topLevel) :
    ∃ next rest, outer = next :: rest := by
  cases outer with
  | nil => exact absurd (Option.some.inj h.outermost) hmode
  | cons next rest => exact ⟨next, rest, rfl⟩

theorem Nested.apply {move : Move} (h : Nested (mode :: outer)) (hfits : move.Fits mode) :
    Nested (move.apply (mode :: outer)) := by
  cases move with
  | stay => exact h
  | push inner => exact ⟨.cons_cons hfits h.inside, h.outermost⟩
  | replace inner =>
    obtain ⟨next, rest, rfl⟩ := h.exists_outer hfits.1
    obtain ⟨hnext, hrest⟩ := List.isChain_cons_cons.1 h.inside
    exact ⟨.cons_cons (hfits.2 next hnext) hrest, h.outermost⟩
  | pop =>
    obtain ⟨next, rest, rfl⟩ := h.exists_outer hfits
    exact ⟨(List.isChain_cons_cons.1 h.inside).2, h.outermost⟩

end

/-! ## Steps -/

/-- The lexer after a number of steps, whether or not they have read a token. -/
def afterSteps (l : Lexer) : Nat → Lexer
  | 0 => l
  | k + 1 => (l.afterSteps k).next.2

theorem Nested.next {l : Lexer} (h : Nested l.modes) : Nested l.next.2.modes := by
  unfold Lexer.next
  split
  · exact h
  · exact h
  · rename_i lexeme move hread
    obtain ⟨mode, outer, hmodes, hfirst⟩ := read_eq_ok_some hread
    obtain ⟨before, rule, after, hrules, -, -, rfl⟩ := rule_of_firstMatch hfirst
    have hrule : rule ∈ mode.rules := by simp [hrules]
    show Nested (rule.move.apply l.modes)
    rw [hmodes] at h ⊢
    exact h.apply (move_fits hrule)

theorem nested_afterSteps (source : List Char) (k : Nat) :
    Nested ((ofText source).afterSteps k).modes := by
  induction k with
  | zero => exact nested_start
  | succ k ih => exact ih.next

/-! ## Shape -/

/-- The shape of a stack of modes, innermost first. The document is at the bottom and nowhere else.
The bindings are open in the document only, and nothing but them and an object is open there. A
value that is still to come is innermost, in an object or the bindings; a string is innermost, in an
object, an array or the bindings. -/
structure StackShape (modes : List Mode) : Prop where
  document : ∃ inner, modes = inner ++ [.topLevel] ∧ .topLevel ∉ inner
  inDocument : ∀ inner mode, modes = inner ++ [mode, .topLevel] →
    mode = .bindings ∨ mode = .object
  bindings : ∀ inner outer, modes = inner ++ .bindings :: outer → outer = [.topLevel]
  value : ∀ inner outer, modes = inner ++ .value :: outer →
    inner = [] ∧ ∃ rest, outer = .object :: rest ∨ outer = .bindings :: rest
  string : ∀ inner outer, modes = inner ++ .string :: outer →
    inner = [] ∧
      ∃ rest, outer = .object :: rest ∨ outer = .array :: rest ∨ outer = .bindings :: rest

section
variable {mode : Mode} {inner outer : List Mode}

theorem Nested.drop (h : Nested (inner ++ mode :: outer)) : Nested (mode :: outer) where
  inside := h.inside.right_of_append
  outermost := by simpa using h.outermost

/-- What is open in a mode, if anything, may be open there. -/
theorem Nested.exists_inner (h : Nested (inner ++ mode :: outer)) (hne : inner ≠ []) :
    ∃ last : Mode, last.opensIn mode := by
  obtain ⟨first, last, rfl⟩ := (List.eq_nil_or_concat inner).resolve_left hne
  have hchain := h.inside
  rw [List.concat_eq_append, List.append_assoc] at hchain
  exact ⟨last, (List.isChain_append_cons_cons.1 hchain).2.1⟩

/-- A mode other than the document is open in one where it may be. -/
theorem Nested.exists_opensIn (h : Nested (inner ++ mode :: outer)) (hmode : mode ≠ .topLevel) :
    ∃ next rest, outer = next :: rest ∧ mode.opensIn next := by
  obtain ⟨next, rest, rfl⟩ := h.drop.exists_outer hmode
  exact ⟨next, rest, rfl, (List.isChain_cons_cons.1 h.drop.inside).1⟩

/-- The document is open in nothing. -/
theorem Nested.outer_of_topLevel (h : Nested (inner ++ .topLevel :: outer)) : outer = [] := by
  cases outer with
  | nil => rfl
  | cons next rest =>
    have hnext := (List.isChain_cons_cons.1 h.drop.inside).1
    cases next <;> cases hnext

/-- A mode in which nothing may be open is innermost. -/
theorem Nested.innermost (h : Nested (inner ++ mode :: outer))
    (hmode : ∀ other : Mode, other.opensIn mode = false) : inner = [] := by
  by_contra hne
  obtain ⟨last, hlast⟩ := h.exists_inner hne
  rw [hmode last] at hlast
  cases hlast

theorem Nested.shape {modes : List Mode} (h : Nested modes) : StackShape modes where
  document := by
    obtain ⟨inner, rfl⟩ := List.getLast?_eq_some_iff.1 h.outermost
    refine ⟨inner, rfl, fun hmem => ?_⟩
    obtain ⟨above, below, rfl⟩ := List.append_of_mem hmem
    rw [List.append_assoc, List.cons_append] at h
    have hbelow := h.outer_of_topLevel
    simp at hbelow
  inDocument := by
    intro inner mode he
    subst he
    have hmode := (List.isChain_append_cons_cons.1 h.inside).2.1
    cases mode <;> simp_all [Mode.opensIn]
  bindings := by
    intro inner outer he
    subst he
    obtain ⟨next, rest, rfl, hnext⟩ := h.exists_opensIn (by decide)
    obtain rfl : next = .topLevel := by cases next <;> simp_all [Mode.opensIn]
    have hbindings : Nested ([.bindings] ++ .topLevel :: rest) := h.drop
    rw [hbindings.outer_of_topLevel]
  value := by
    intro inner outer he
    subst he
    obtain ⟨next, rest, rfl, hnext⟩ := h.exists_opensIn (by decide)
    refine ⟨h.innermost (by intro other; cases other <;> rfl), rest, ?_⟩
    cases next <;> simp_all [Mode.opensIn]
  string := by
    intro inner outer he
    subst he
    obtain ⟨next, rest, rfl, hnext⟩ := h.exists_opensIn (by decide)
    refine ⟨h.innermost (by intro other; cases other <;> rfl), rest, ?_⟩
    cases next <;> simp_all [Mode.opensIn]

end

/-! ## Runs -/

theorem Nested.run_last {l : Lexer} (h : Nested l.modes) : Nested l.run.last.modes := by
  fun_induction run l with
  | case1 l lexeme l' hnext _ rest ih =>
    have hstep := h.next
    rw [hnext] at hstep
    exact ih hstep
  | case2 l l' hnext | case3 l e l' hnext =>
    obtain rfl := next_of_not_some hnext (by simp)
    exact h

/-- Text follows the end of the document only where no mode is open. -/
theorem modes_of_read_closed {modes : List Mode} {cs : List Char} {excerpt : String}
    (h : read modes cs = .error (.unexpectedText none excerpt)) : modes = [] := by
  unfold read at h
  split at h
  · cases h
  · rfl
  · split at h
    · rename_i hfirst
      cases h
      obtain ⟨p, hscan⟩ := firstMatch_eq_error hfirst
      obtain ⟨literal, flaw, he⟩ | ⟨sequence, he⟩ := scan_eq_error hscan
      · cases he
      · cases he
    · cases h
    · split at h <;> cases h

theorem Nested.read_ne_closed {modes : List Mode} (h : Nested modes) (cs : List Char)
    (excerpt : String) : read modes cs ≠ .error (.unexpectedText none excerpt) := by
  intro hread
  have houtermost := h.outermost
  rw [modes_of_read_closed hread] at houtermost
  cases houtermost

theorem Nested.next_ne_closed {l : Lexer} (h : Nested l.modes) (excerpt : String) :
    l.next.1 ≠ .error (.unexpectedText none excerpt) := by
  intro hnext
  unfold Lexer.next at hnext
  split at hnext
  · rename_i hread
    obtain rfl := Except.error.inj hnext
    exact h.read_ne_closed _ excerpt hread
  · cases hnext
  · cases hnext

/-- **The stack of modes keeps its shape.** After any number of steps on any text, steps that fail
or find the end of the text among them, the document is at the bottom of the stack and the modes
above it lie as `StackShape` says. So no text closes the document: no step finds text behind its
end, and no run fails for that. -/
theorem modes_stay_nested (source : String) :
    (∀ k, StackShape ((ofText source.toList).afterSteps k).modes ∧
      ∀ excerpt, ((ofText source.toList).afterSteps k).next.1 ≠
        .error (.unexpectedText none excerpt)) ∧
      ∀ excerpt, tokenize source ≠ .error (.unexpectedText none excerpt) := by
  refine ⟨fun k => ?_, fun excerpt htokenize => ?_⟩
  · have h := nested_afterSteps source.toList k
    exact ⟨h.shape, h.next_ne_closed⟩
  · have h : Nested (ofText source.toList).run.last.modes := Nested.run_last nested_start
    unfold tokenize Run.tokens at htokenize
    split at htokenize
    · rename_i herror
      obtain rfl := Except.error.inj htokenize
      exact h.read_ne_closed _ excerpt ((run_last _).2 _ herror)
    · cases htokenize

/-- Braces in the block of bindings open nothing, and a bracket ends a value that is not there. -/
example : ((ofText "let\x7b\x7b $a = ]\x7d in \x7b = \"".toList).afterSteps 11).modes =
    [.string, .object, .topLevel] := by decide +kernel

end ConfigLang.Lexer
