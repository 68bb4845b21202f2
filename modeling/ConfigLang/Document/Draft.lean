import ConfigLang.Document.Basic
import ConfigLang.Token

/-!
# Drafts

A draft is a document read up to some token: what is complete so far, and every construct still
open around the place reached. Each token either extends the draft or is the first that no document
continues with. The parts of an open construct are kept with the last one first.
-/

namespace ConfigLang

/-- Why a sequence of tokens is no document. -/
inductive ParseError where
  /-- The labels of the tokens that could have come, and the label of what came. -/
  | unexpectedToken (expected : List String) (found : String)
  | nestingTooDeep (limit : Nat)
deriving DecidableEq, Repr

/-- The deepest nesting of objects and arrays in a document. -/
def nestingLimit : Nat := 128

/-- The place of an expression that is being read, with everything before it. -/
inductive Context where
  /-- The value of a binding. -/
  | binding (done : List Binding) (name : String)
  /-- The value of an entry of the document's own object. -/
  | bodyEntry (bindings : Option (List Binding)) (done : List Entry) (path : Path)
  /-- The value of an entry of an object. -/
  | entry (outer : Context) (done : List Entry) (path : Path)
  /-- An item of an array. -/
  | item (outer : Context) (done : List Item)

/-- Whose entries are being read. -/
inductive Owner where
  | body (bindings : Option (List Binding))
  | expr (outer : Context)

/-- A document read up to some token. -/
inductive Draft where
  /-- Before the first token. -/
  | start
  /-- After `let`. -/
  | block
  /-- Inside the block of bindings, before a name. -/
  | bindings (done : List Binding)
  /-- After the name of a binding. -/
  | bindingName (done : List Binding) (name : String)
  /-- After the block of bindings. -/
  | blockEnd (done : List Binding)
  /-- Before the object of a document with a block. -/
  | body (bindings : List Binding)
  /-- Before an expression that is not an item of an array. -/
  | value (place : Context)
  /-- Inside an object, before an entry. -/
  | entries (owner : Owner) (done : List Entry)
  /-- After the dots of a spread in an object. -/
  | entrySpread (owner : Owner) (done : List Entry)
  /-- After a segment of a key. -/
  | key (owner : Owner) (done : List Entry) (path : Path)
  /-- After a dot inside a key. -/
  | keyDot (owner : Owner) (done : List Entry) (path : Path)
  /-- Inside an array, before an item. -/
  | items (place : Context) (done : List Item)
  /-- After the dots of a spread in an array. -/
  | itemSpread (place : Context) (done : List Item)
  /-- Inside a string. -/
  | parts (place : Context) (done : List Part)
  /-- After the last token of a document. -/
  | complete (document : Document)

/-! ## Nesting -/

/-- How many objects and arrays are open around an expression. -/
def Context.depth : Context → Nat
  | .binding .. => 0
  | .bodyEntry .. => 1
  | .entry outer .. => outer.depth + 1
  | .item outer .. => outer.depth + 1

/-- How many objects and arrays are open inside an object, itself included. -/
def Owner.depth : Owner → Nat
  | .body _ => 1
  | .expr outer => outer.depth + 1

/-- How many objects and arrays are open. -/
def Draft.depth : Draft → Nat
  | .value place | .parts place _ => place.depth
  | .entries owner _ | .entrySpread owner _ | .key owner .. | .keyDot owner .. => owner.depth
  | .items place _ | .itemSpread place _ => place.depth + 1
  | .start | .block | .bindings _ | .bindingName .. | .blockEnd _ | .body _ | .complete _ => 0

/-! ## Completing a construct -/

/-- The draft after the expression that `place` waits for. -/
def Context.fill (place : Context) (e : Expr) : Draft :=
  match place with
  | .binding done name => .bindings (⟨name, e⟩ :: done)
  | .bodyEntry bindings done path => .entries (.body bindings) (.pair path e :: done)
  | .entry outer done path => .entries (.expr outer) (.pair path e :: done)
  | .item outer done => .items outer (.value e :: done)

/-- The draft after the closing brace of an object. -/
def Owner.close (owner : Owner) (done : List Entry) : Draft :=
  match owner with
  | .body bindings => .complete ⟨bindings, done.reverse⟩
  | .expr outer => outer.fill (.object done.reverse)

/-- The place of the value of an entry. -/
def Owner.entry (owner : Owner) (done : List Entry) (path : Path) : Context :=
  match owner with
  | .body bindings => .bodyEntry bindings done path
  | .expr outer => .entry outer done path

/-! ## Reading a token -/

/-- The expression that a single token makes. -/
def Expr.ofToken? : Token → Option Expr
  | .float x => some (.float x)
  | .integer n => some (.integer n)
  | .input name => some (.input name)
  | .symbol .trueWord => some (.bool true)
  | .symbol .falseWord => some (.bool false)
  | .symbol .nullWord => some .null
  | _ => none

/-- The piece of a string that a token makes. -/
def Part.ofToken? : Token → Option Part
  | .characters text => some (.characters text)
  | .escape c => some (.escape c)
  | .input name => some (.input name)
  | _ => none

/-- The labels of the tokens that a draft can be continued with, as messages list them. -/
def Draft.expected : Draft → List String
  | .start | .block | .body _ => [Symbol.braceOpen.text]
  | .bindings _ | .entrySpread .. | .itemSpread .. => ["<input>"]
  | .bindingName .. | .key .. => [Symbol.equals.text]
  | .blockEnd _ => [Symbol.inWord.text]
  | .value _ | .items .. => ["<value>"]
  | .entries .. => [Symbol.spread.text, "<path_seg>"]
  | .keyDot .. => ["<path_seg>"]
  | .parts .. => ["<char_seq>", "<char_esc>", "<input>"]
  | .complete _ => [Token.endLabel]

/-- The error for a draft that the next token, or the end, does not continue. -/
def Draft.unexpected (d : Draft) (found : Option Token) : ParseError :=
  .unexpectedToken d.expected (Token.labelOf found)

/-- The draft after the first token `t` of an expression at `place`. -/
def Context.start (place : Context) (t : Token) : Option Draft :=
  match t with
  | .symbol .quote => some (.parts place [])
  | .symbol .braceOpen => some (.entries (.expr place) [])
  | .symbol .bracketOpen => some (.items place [])
  | t => (Expr.ofToken? t).map place.fill

/-- A draft continued by one token, however deep it nests; none where no document goes on so. -/
def Draft.extend (d : Draft) (t : Token) : Option Draft :=
  match d, t with
  | .start, .symbol .letWord => some .block
  | .start, .symbol .braceOpen => some (.entries (.body none) [])
  | .block, .symbol .braceOpen => some (.bindings [])
  | .bindings done, .symbol .braceClose => some (.blockEnd done)
  | .bindings done, .input name => some (.bindingName done name)
  | .bindingName done name, .symbol .equals => some (.value (.binding done name))
  | .blockEnd done, .symbol .inWord => some (.body done.reverse)
  | .body bs, .symbol .braceOpen => some (.entries (.body (some bs)) [])
  | .value place, t => place.start t
  | .entries owner done, .symbol .braceClose => some (owner.close done)
  | .entries owner done, .symbol .spread => some (.entrySpread owner done)
  | .entries owner done, .segment s => some (.key owner done ⟨s, []⟩)
  | .entrySpread owner done, .input name => some (.entries owner (.spread name :: done))
  | .key owner done path, .symbol .dot => some (.keyDot owner done path)
  | .key owner done path, .symbol .equals => some (.value (owner.entry done path))
  | .keyDot owner done path, .segment s => some (.key owner done (path.push s))
  | .items place done, .symbol .bracketClose => some (place.fill (.array done.reverse))
  | .items place done, .symbol .spread => some (.itemSpread place done)
  | .items place done, t => (Context.item place done).start t
  | .itemSpread place done, .input name => some (.items place (.spread name :: done))
  | .parts place done, .symbol .quote => some (place.fill (.string done.reverse))
  | .parts place done, t => (Part.ofToken? t).map fun part => .parts place (part :: done)
  | _, _ => none

/-- A draft continued by one token. A token that opens an object or array is refused where the
nesting, with `base` counted in, would pass the limit. -/
def Draft.feed (base : Nat) (d : Draft) (t : Token) : Except ParseError Draft :=
  match d.extend t with
  | none => .error (d.unexpected t)
  | some d' =>
    if d.depth < d'.depth ∧ nestingLimit < base + d'.depth then
      .error (.nestingTooDeep nestingLimit)
    else .ok d'

end ConfigLang
