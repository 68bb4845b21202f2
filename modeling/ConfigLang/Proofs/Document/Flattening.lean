import ConfigLang.Document.Basic
import ConfigLang.Lexer.Mode

/-!
# The grammar of documents

Each construct of a document has one sequence of tokens. The grammar is the flattening of documents
into such sequences, and it comes in two forms:

* `Document.tokens`: the tokens alone, in order.
* `Document.trace`: the tokens, each with the constructs that are open after it, innermost first
  (`trace_map_fst`: the same tokens).

`Document.depth` is the deepest nesting of objects and arrays, counted from the root of each value
of a binding and from the body.
-/

namespace ConfigLang

open Lexer (Mode)

/-! ## Tokens -/

/-- The token of a piece of a string. -/
def Part.token : Part → Token
  | .characters text => .characters text
  | .escape c => .escape c
  | .input name => .input name

/-- Segments with dots between them. -/
def Path.tokens (p : Path) : List Token :=
  .segment p.first :: p.rest.flatMap fun s => [.symbol .dot, .segment s]

mutual

/-- The tokens of an expression. -/
def Expr.tokens : Expr → List Token
  | .null => [.symbol .nullWord]
  | .bool true => [.symbol .trueWord]
  | .bool false => [.symbol .falseWord]
  | .integer n => [.integer n]
  | .float x => [.float x]
  | .input name => [.input name]
  | .string parts => .symbol .quote :: parts.map Part.token ++ [.symbol .quote]
  | .array items => .symbol .bracketOpen :: itemsTokens items ++ [.symbol .bracketClose]
  | .object entries => .symbol .braceOpen :: entriesTokens entries ++ [.symbol .braceClose]

def itemsTokens : List Item → List Token
  | [] => []
  | item :: items => item.tokens ++ itemsTokens items

def Item.tokens : Item → List Token
  | .value e => e.tokens
  | .spread name => [.symbol .spread, .input name]

def entriesTokens : List Entry → List Token
  | [] => []
  | entry :: entries => entry.tokens ++ entriesTokens entries

def Entry.tokens : Entry → List Token
  | .pair path e => path.tokens ++ .symbol .equals :: e.tokens
  | .spread name => [.symbol .spread, .input name]

end

def Binding.tokens (b : Binding) : List Token := .input b.name :: .symbol .equals :: b.expr.tokens

/-- The tokens of a block of bindings, if there is one. -/
def blockTokens : Option (List Binding) → List Token
  | none => []
  | some bs =>
    .symbol .letWord :: .symbol .braceOpen :: bs.flatMap Binding.tokens ++
      [.symbol .braceClose, .symbol .inWord]

/-- The tokens of a document. -/
def Document.tokens (c : Document) : List Token :=
  blockTokens c.bindings ++ (Expr.object c.body).tokens

/-! ## Tokens with open constructs -/

/-- Every token of the list with the same constructs open after it. -/
def keeping (modes : List Mode) (ts : List Token) : List (Token × List Mode) :=
  ts.map fun t => (t, modes)

mutual

/-- The tokens of an expression inside the constructs `modes`. A construct is open from its first
token until its last. -/
def Expr.trace (modes : List Mode) : Expr → List (Token × List Mode)
  | .string parts =>
    (.symbol .quote, .string :: modes) :: keeping (.string :: modes) (parts.map Part.token) ++
      [(.symbol .quote, modes)]
  | .array items =>
    (.symbol .bracketOpen, .array :: modes) :: itemsTrace (.array :: modes) items ++
      [(.symbol .bracketClose, modes)]
  | .object entries =>
    (.symbol .braceOpen, .object :: modes) :: entriesTrace (.object :: modes) entries ++
      [(.symbol .braceClose, modes)]
  | e => keeping modes e.tokens

def itemsTrace (modes : List Mode) : List Item → List (Token × List Mode)
  | [] => []
  | item :: items => item.trace modes ++ itemsTrace modes items

def Item.trace (modes : List Mode) : Item → List (Token × List Mode)
  | .value e => e.trace modes
  | .spread name => keeping modes [.symbol .spread, .input name]

def entriesTrace (modes : List Mode) : List Entry → List (Token × List Mode)
  | [] => []
  | entry :: entries => entry.trace modes ++ entriesTrace modes entries

/-- The tokens of an entry inside the constructs `modes`. A value is awaited from the equals sign
until its first token. -/
def Entry.trace (modes : List Mode) : Entry → List (Token × List Mode)
  | .pair path e =>
    keeping modes path.tokens ++ (.symbol .equals, .value :: modes) :: e.trace modes
  | .spread name => keeping modes [.symbol .spread, .input name]

end

/-- The tokens of a binding inside the constructs `modes`. -/
def Binding.trace (modes : List Mode) (b : Binding) : List (Token × List Mode) :=
  (.input b.name, modes) :: (.symbol .equals, .value :: modes) :: b.expr.trace modes

/-- The tokens of a block of bindings, which is open from `let` until `in`. -/
def blockTrace : Option (List Binding) → List (Token × List Mode)
  | none => []
  | some bs =>
    keeping [.bindings, .topLevel] [.symbol .letWord, .symbol .braceOpen] ++
      bs.flatMap (Binding.trace [.bindings, .topLevel]) ++
      [(.symbol .braceClose, [.bindings, .topLevel]), (.symbol .inWord, [.topLevel])]

/-- The tokens of a document, each with the constructs open after it. -/
def Document.trace (c : Document) : List (Token × List Mode) :=
  blockTrace c.bindings ++ (Expr.object c.body).trace [.topLevel]

/-! ## Nesting -/

/-- The greatest of the depths of the members of a list. -/
def deepest {α : Type} (depth : α → Nat) (l : List α) : Nat :=
  l.foldr (fun a n => max (depth a) n) 0

mutual

/-- How deep objects and arrays are nested in an expression. -/
def Expr.depth : Expr → Nat
  | .array items => itemsDepth items + 1
  | .object entries => entriesDepth entries + 1
  | .null | .bool _ | .integer _ | .float _ | .input _ | .string _ => 0

def itemsDepth : List Item → Nat
  | [] => 0
  | item :: items => max item.depth (itemsDepth items)

def Item.depth : Item → Nat
  | .value e => e.depth
  | .spread _ => 0

def entriesDepth : List Entry → Nat
  | [] => 0
  | entry :: entries => max entry.depth (entriesDepth entries)

def Entry.depth : Entry → Nat
  | .pair _ e => e.depth
  | .spread _ => 0

end

def Binding.depth (b : Binding) : Nat := b.expr.depth

/-- How deep objects and arrays are nested in a document. -/
def Document.depth (c : Document) : Nat :=
  max (deepest Binding.depth (c.bindings.getD [])) (Expr.object c.body).depth

/-! ## Sequences -/

theorem itemsTokens_eq (items : List Item) : itemsTokens items = items.flatMap Item.tokens := by
  induction items with
  | nil => rfl
  | cons item items ih => rw [itemsTokens, ih, List.flatMap_cons]

theorem entriesTokens_eq (entries : List Entry) :
    entriesTokens entries = entries.flatMap Entry.tokens := by
  induction entries with
  | nil => rfl
  | cons entry entries ih => rw [entriesTokens, ih, List.flatMap_cons]

theorem itemsDepth_eq (items : List Item) : itemsDepth items = deepest Item.depth items := by
  induction items with
  | nil => rfl
  | cons item items ih => rw [itemsDepth, ih]; rfl

theorem entriesDepth_eq (entries : List Entry) :
    entriesDepth entries = deepest Entry.depth entries := by
  induction entries with
  | nil => rfl
  | cons entry entries ih => rw [entriesDepth, ih]; rfl

@[simp]
theorem deepest_nil {α : Type} (depth : α → Nat) : deepest depth [] = 0 := rfl

@[simp]
theorem deepest_cons {α : Type} (depth : α → Nat) (a : α) (l : List α) :
    deepest depth (a :: l) = max (depth a) (deepest depth l) := rfl

@[simp]
theorem deepest_reverse {α : Type} (depth : α → Nat) (l : List α) :
    deepest depth l.reverse = deepest depth l := by
  refine (List.reverse_perm l).foldr_eq' (fun _ _ _ _ _ => ?_) 0
  exact Nat.max_left_comm ..

/-! ## Both forms have the same tokens -/

@[simp]
theorem keeping_map_fst (modes : List Mode) (ts : List Token) :
    (keeping modes ts).map Prod.fst = ts := by
  simp [keeping, Function.comp_def]

mutual

theorem Expr.trace_map_fst (modes : List Mode) : ∀ e : Expr, (e.trace modes).map Prod.fst = e.tokens
  | .string parts => by simp [Expr.trace, Expr.tokens]
  | .array items => by simp [Expr.trace, Expr.tokens, itemsTrace_map_fst _ items]
  | .object entries => by simp [Expr.trace, Expr.tokens, entriesTrace_map_fst _ entries]
  | .null | .bool _ | .integer _ | .float _ | .input _ => by simp [Expr.trace]

theorem itemsTrace_map_fst (modes : List Mode) :
    ∀ items : List Item, (itemsTrace modes items).map Prod.fst = itemsTokens items
  | [] => rfl
  | item :: items => by
    rw [itemsTrace, List.map_append, item.trace_map_fst modes, itemsTrace_map_fst modes items,
      itemsTokens]

theorem Item.trace_map_fst (modes : List Mode) :
    ∀ item : Item, (item.trace modes).map Prod.fst = item.tokens
  | .value e => by rw [Item.trace, e.trace_map_fst modes, Item.tokens]
  | .spread name => by simp [Item.trace, Item.tokens]

theorem entriesTrace_map_fst (modes : List Mode) :
    ∀ entries : List Entry, (entriesTrace modes entries).map Prod.fst = entriesTokens entries
  | [] => rfl
  | entry :: entries => by
    rw [entriesTrace, List.map_append, entry.trace_map_fst modes,
      entriesTrace_map_fst modes entries, entriesTokens]

theorem Entry.trace_map_fst (modes : List Mode) :
    ∀ entry : Entry, (entry.trace modes).map Prod.fst = entry.tokens
  | .pair path e => by simp [Entry.trace, Entry.tokens, e.trace_map_fst modes]
  | .spread name => by simp [Entry.trace, Entry.tokens]

end

theorem blockTrace_map_fst (bindings : Option (List Binding)) :
    (blockTrace bindings).map Prod.fst = blockTokens bindings := by
  have h (modes : List Mode) (b : Binding) : (b.trace modes).map Prod.fst = b.tokens := by
    simp [Binding.trace, Binding.tokens, b.expr.trace_map_fst]
  cases bindings with
  | none => rfl
  | some bs => simp [blockTrace, blockTokens, List.map_flatMap, h]

theorem Document.trace_map_fst (c : Document) : c.trace.map Prod.fst = c.tokens := by
  rw [Document.trace, List.map_append, blockTrace_map_fst, Expr.trace_map_fst, Document.tokens]

end ConfigLang
