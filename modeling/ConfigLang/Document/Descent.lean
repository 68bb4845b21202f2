import ConfigLang.Document.Reader

/-!
# Reading by recursive descent

A document can be read by functions that call one another, one for each construct. They share the
index of the next token and a counter of open objects and arrays, which goes up behind an opening
bracket and down behind a closing one. A journal keeps what they do to the two, and where the rounds
of their loops begin and end.

No loop has more rounds than there are tokens, and no value more levels. This bounds the recursion
of the definitions; that no reading comes to the bound is not part of them.
-/

namespace ConfigLang

/-- The tokens of a reading, the index of the next one, and a counter of open objects and arrays. -/
structure Descent where
  tokens : List Token
  position : Nat
  depth : Nat
deriving DecidableEq, Repr

namespace Descent

/-- At the start of a sequence of tokens. -/
def ofTokens (tokens : List Token) : Descent := ⟨tokens, 0, 0⟩

/-- The next token, if there is one. -/
def current (p : Descent) : Option Token := p.tokens[p.position]?

/-- Whether no token is left. -/
def isAtEnd (p : Descent) : Bool := decide (p.tokens.length ≤ p.position)

/-! ## Acts and journals -/

/-- What can happen to the index and the counter. -/
inductive Act where
  | advance
  | enter
  | leave
deriving DecidableEq, Repr

/-- The index stops behind the last token, and the counter at zero. -/
def Act.apply : Act → Descent → Descent
  | .advance, p => if p.isAtEnd then p else { p with position := p.position + 1 }
  | .enter, p => { p with depth := p.depth + 1 }
  | .leave, p => { p with depth := p.depth - 1 }

/-- A reading after acts, one after another. -/
def replay (p : Descent) (acts : List Act) : Descent := acts.foldl (fun p act => act.apply p) p

/-- The loops of a reading. -/
inductive Loop where
  | bindings
  | entries
  | segments
  | items
  | parts
deriving DecidableEq, Repr

/-- A round of a loop that has come back to the head of the loop, from one index to another. -/
structure Round where
  loop : Loop
  start : Nat
  stop : Nat
deriving DecidableEq, Repr

/-- A reading, with all acts and rounds so far. -/
structure Journal where
  now : Descent
  acts : List Act
  rounds : List Round
deriving DecidableEq, Repr

namespace Journal

/-- Nothing has been read yet. -/
def ofTokens (tokens : List Token) : Journal := ⟨.ofTokens tokens, [], []⟩

def perform (j : Journal) (act : Act) : Journal :=
  { j with now := act.apply j.now, acts := j.acts ++ [act] }

def note (j : Journal) (loop : Loop) (start : Nat) : Journal :=
  { j with rounds := j.rounds ++ [⟨loop, start, j.now.position⟩] }

end Journal

/-- What functions of a reading do: they change the journal, fail, or come to a bound. -/
abbrev Parsing (α : Type) := ExceptT ParseError (StateT Journal Option) α

def exhausted {α : Type} : Parsing α := ExceptT.mk fun _ => none

/-! ## Tokens -/

def perform (act : Act) : Parsing Unit := modify fun j => j.perform act

/-- The next token, if there is one. -/
def peek : Parsing (Option Token) := return (← get).now.current

def index : Parsing Nat := return (← get).now.position

def unexpected {α : Type} (expected : List String) : Parsing α := do
  throw (.unexpectedToken expected (Token.labelOf (← peek)))

def check (s : Symbol) : Parsing Bool := return decide ((← peek) = some (.symbol s))

def expect (s : Symbol) : Parsing Unit := do
  if ← check s then perform .advance else unexpected [s.text]

def expectInput : Parsing String := do
  match ← peek with
  | some (.input name) =>
    perform .advance
    return name
  | _ => unexpected ["<input>"]

def expectSegment : Parsing String := do
  match ← peek with
  | some (.segment s) =>
    perform .advance
    return s
  | _ => unexpected ["<path_seg>"]

/-- Counts an object or array, also one that is refused for being nested too deep. -/
def enter : Parsing Unit := do
  perform .enter
  if nestingLimit < (← get).now.depth then throw (.nestingTooDeep nestingLimit)

def leave : Parsing Unit := perform .leave

/-! ## Loops -/

/-- Notes a round that began at an index. -/
def endRound (loop : Loop) (start : Nat) : Parsing Unit := modify fun j => j.note loop start

/-- A loop that goes on as the next token says. Results are kept with the last one first. -/
def rounds {α : Type} (loop : Loop) (goesOn : Option Token → Bool) (round : Parsing α) :
    Nat → List α → Parsing (List α)
  | 0, _ => exhausted
  | n + 1, done => do
    if goesOn (← peek) then
      let start ← index
      let a ← round
      endRound loop start
      rounds loop goesOn round n (a :: done)
    else return done.reverse

def roundsWhile {α : Type} (loop : Loop) (goesOn : Option Token → Bool) (round : Parsing α) :
    Parsing (List α) := do
  rounds loop goesOn round ((← get).now.tokens.length + 1) []

/-- A loop up to a symbol, which is left ahead. -/
def roundsUntil {α : Type} (loop : Loop) (s : Symbol) (round : Parsing α) : Parsing (List α) :=
  roundsWhile loop (fun found => decide (found ≠ some (.symbol s))) round

/-! ## Keys, strings and spreads -/

/-- A dot and the segment behind it. -/
def parseSegment : Parsing String := do
  perform .advance
  expectSegment

def parsePath : Parsing Path := do
  let first ← expectSegment
  return ⟨first, ← roundsWhile .segments (fun found => decide (found = some (.symbol .dot)))
    parseSegment⟩

def parsePart : Parsing Part := do
  match (← peek).bind Part.ofToken? with
  | some part =>
    perform .advance
    return part
  | none => unexpected ["<char_seq>", "<char_esc>", "<input>"]

def parseString : Parsing (List Part) := do
  expect .quote
  let parts ← roundsUntil .parts .quote parsePart
  expect .quote
  return parts

def parseSpread : Parsing String := do
  expect .spread
  expectInput

/-! ## Expressions

Values inside an object or array are read by `value`. -/

section
variable (value : Parsing Expr)

def parseEntry : Parsing Entry := do
  match ← peek with
  | some (.symbol .spread) => return .spread (← parseSpread)
  | some (.segment _) =>
    let path ← parsePath
    expect .equals
    return .pair path (← value)
  | _ => unexpected [Symbol.spread.text, "<path_seg>"]

def parseObject : Parsing (List Entry) := do
  expect .braceOpen
  enter
  let entries ← roundsUntil .entries .braceClose (parseEntry value)
  expect .braceClose
  leave
  return entries

def parseItem : Parsing Item := do
  if ← check .spread then return .spread (← parseSpread)
  else return .value (← value)

def parseArray : Parsing (List Item) := do
  expect .bracketOpen
  enter
  let items ← roundsUntil .items .bracketClose (parseItem value)
  expect .bracketClose
  leave
  return items

end

/-- A value, with as many levels as the bound allows. -/
def parseValue : Nat → Parsing Expr
  | 0 => exhausted
  | n + 1 => do
    match ← peek with
    | some (.symbol .quote) => return .string (← parseString)
    | some (.symbol .braceOpen) => return .object (← parseObject (parseValue n))
    | some (.symbol .bracketOpen) => return .array (← parseArray (parseValue n))
    | found =>
      match found.bind Expr.ofToken? with
      | some e =>
        perform .advance
        return e
      | none => unexpected ["<value>"]

/-! ## Documents -/

section
variable (value : Parsing Expr)

def parseBinding : Parsing Binding := do
  let name ← expectInput
  expect .equals
  return ⟨name, ← value⟩

def parseBlock : Parsing (List Binding) := do
  expect .letWord
  expect .braceOpen
  let bindings ← roundsUntil .bindings .braceClose (parseBinding value)
  expect .braceClose
  expect .inWord
  return bindings

/-- The block of bindings, if there is one. -/
def parseBlock? : Parsing (Option (List Binding)) := do
  if ← check .letWord then return some (← parseBlock value) else return none

def parseDocumentWith : Parsing Document := do
  let bindings ← parseBlock? value
  let body ← parseObject value
  if (← get).now.isAtEnd then return ⟨bindings, body⟩ else unexpected [Token.endLabel]

end

def parseDocument : Parsing Document := do
  parseDocumentWith (parseValue ((← get).now.tokens.length + 1))

/-- The journal after a number of readings, each of which goes on where the one before stopped. -/
def Journal.afterReadings (j : Journal) : Nat → Option Journal
  | 0 => some j
  | k + 1 => do
    let (_, j) ← parseDocument.run.run (← j.afterReadings k)
    return j

end Descent

end ConfigLang
