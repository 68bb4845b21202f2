import ConfigLang.Document.Draft

/-!
# Reading documents

A reader takes documents from a sequence of tokens. Where it fails it stays: the token that no
document continues with is still ahead, a bracket that nests too deep has been taken, and the
constructs left open still count towards the nesting of what is read next.
-/

namespace ConfigLang

/-- The tokens ahead, and how many objects and arrays are open. -/
structure Reader where
  rest : List Token
  depth : Nat
deriving DecidableEq, Repr

namespace Reader

/-- A reader at the start of a sequence of tokens. -/
def ofTokens (tokens : List Token) : Reader := ⟨tokens, 0⟩

/-- Continues a draft to the end of the tokens. Nesting is counted from `base`. -/
def finish (base : Nat) : Draft → List Token → Except ParseError Document × Reader
  | .complete document, [] => (.ok document, ⟨[], base⟩)
  | d, [] => (.error (d.unexpected none), ⟨[], base + d.depth⟩)
  | d, t :: ts =>
    match d.feed base t with
    | .ok d' => finish base d' ts
    | .error (.nestingTooDeep limit) =>
      (.error (.nestingTooDeep limit), ⟨ts, base + d.depth + 1⟩)
    | .error e => (.error e, ⟨t :: ts, base + d.depth⟩)

/-- Reads one document, which takes all tokens ahead. -/
def read (r : Reader) : Except ParseError Document × Reader := finish r.depth .start r.rest

end Reader

/-- The document that a sequence of tokens writes. -/
def Document.ofTokens (tokens : List Token) : Except ParseError Document :=
  (Reader.ofTokens tokens).read.1

end ConfigLang
