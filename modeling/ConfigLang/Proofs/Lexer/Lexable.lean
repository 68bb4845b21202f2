import ConfigLang.Document.Draft
import ConfigLang.Proofs.Document.Flattening
import ConfigLang.Proofs.Lexer.Scanning
import Mathlib.Data.List.Chain

/-!
# Documents that can be written

A document need not have a text: a name may hold a space, and two runs of characters may stand side
by side in a string, where a lexer would read one. `Document.Lexable` says of a document that this
does not happen, construct by construct. For tokens it is a property of each token (`Token.Lexable`)
and of each pair of neighbours (`Token.MayPrecede`).

* `lexable_iff_fits`: both say the same.
-/

namespace ConfigLang

open Lexer

/-! ## Documents -/

/-- What may be written as a segment without quotes: characters of segments that do not start as
another token, or as a comment. -/
def IsBareSegment (cs : List Char) : Prop :=
  cs ≠ [] ∧ (∀ c ∈ cs, isSegmentChar c) ∧ (∀ c ∈ cs.head?, c ≠ '\'' ∧ c ≠ '\x7d') ∧
    ¬ ['/', '/'] <+: cs ∧ ∀ c rest, cs = '$' :: c :: rest → isNameStart c = false

/-- A segment can be quoted or can stand without quotes. -/
def SegmentLexable (s : String) : Prop := '\'' ∉ s.toList ∨ IsBareSegment s.toList

/-- A name of an input as it is written. -/
def NameLexable (name : String) : Prop := IsName name.toList

/-- A piece of a string that can be written. Escapes reach the characters of four hexadecimal
digits. -/
def Part.Lexable : Part → Prop
  | .characters text => text.toList ≠ [] ∧ ∀ c ∈ text.toList, isPlainChar c
  | .escape c => c.toNat ≤ 0xFFFF
  | .input name => NameLexable name

/-- What may follow a piece of a string: characters would be read into the characters or the name
before them. -/
def Part.MayPrecede : Part → Part → Prop
  | .characters _, .characters _ => False
  | .input _, .characters text => Stops isNameChar text.toList
  | _, _ => True

def Path.Lexable (p : Path) : Prop := ∀ s ∈ p.segments, SegmentLexable s

mutual

/-- An expression that can be written, nesting apart. -/
def Expr.Lexable : Expr → Prop
  | .float x => x.isFinite
  | .input name => NameLexable name
  | .string parts => (∀ p ∈ parts, p.Lexable) ∧ parts.IsChain Part.MayPrecede
  | .array items => itemsLexable items
  | .object entries => entriesLexable entries
  | .null | .bool _ | .integer _ => True

def itemsLexable : List Item → Prop
  | [] => True
  | item :: items => item.Lexable ∧ itemsLexable items

def Item.Lexable : Item → Prop
  | .value e => e.Lexable
  | .spread name => NameLexable name

def entriesLexable : List Entry → Prop
  | [] => True
  | entry :: entries => entry.Lexable ∧ entriesLexable entries

def Entry.Lexable : Entry → Prop
  | .pair path e => path.Lexable ∧ e.Lexable
  | .spread name => NameLexable name

end

def Binding.Lexable (b : Binding) : Prop := NameLexable b.name ∧ b.expr.Lexable

/-- **A document that can be written.** -/
def Document.Lexable (c : Document) : Prop :=
  (∀ b ∈ c.bindings.getD [], b.Lexable) ∧ entriesLexable c.body ∧ c.depth ≤ nestingLimit

/-! ## Tokens -/

/-- A token that can be written. -/
def Token.Lexable : Token → Prop
  | .symbol _ | .integer _ => True
  | .segment s => SegmentLexable s
  | .float x => x.isFinite
  | .escape c => c.toNat ≤ 0xFFFF
  | .characters text => text.toList ≠ [] ∧ ∀ c ∈ text.toList, isPlainChar c
  | .input name => NameLexable name

/-- What may follow a token. -/
def Token.MayPrecede : Token → Token → Prop
  | .characters _, .characters _ => False
  | .input _, .characters text => Stops isNameChar text.toList
  | _, _ => True

/-- Tokens that can be written one after another. -/
def Fits (ts : List Token) : Prop := (∀ t ∈ ts, t.Lexable) ∧ ts.IsChain Token.MayPrecede

/-- A token before which every token may stand. -/
def Token.IsFree : Token → Prop
  | .characters _ => False
  | _ => True

theorem mayPrecede_of_isFree (t : Token) {t' : Token} (h : t'.IsFree) : t.MayPrecede t' := by
  cases t' with
  | characters text => exact h.elim
  | _ => cases t <;> trivial

theorem fits_nil : Fits [] := ⟨by simp, .nil⟩

theorem fits_append {a b : List Token} (hb : ∀ t ∈ b.head?, t.IsFree) :
    Fits (a ++ b) ↔ Fits a ∧ Fits b := by
  unfold Fits
  rw [List.isChain_append, List.forall_mem_append]
  constructor
  · rintro ⟨⟨ha, hb'⟩, hca, hcb, -⟩
    exact ⟨⟨ha, hca⟩, hb', hcb⟩
  · rintro ⟨⟨ha, hca⟩, hb', hcb⟩
    exact ⟨⟨ha, hb'⟩, hca, hcb, fun t _ t' ht' => mayPrecede_of_isFree t (hb t' ht')⟩

theorem fits_singleton {t : Token} : Fits [t] ↔ t.Lexable := by
  simp [Fits]

theorem fits_cons {t : Token} {ts : List Token} (h : ∀ t' ∈ ts.head?, t'.IsFree) :
    Fits (t :: ts) ↔ t.Lexable ∧ Fits ts := by
  rw [← List.singleton_append, fits_append h, fits_singleton]

theorem fits_symbol_cons {s : Symbol} {ts : List Token} : Fits (.symbol s :: ts) ↔ Fits ts := by
  cases ts with
  | nil => simp [Fits, Token.Lexable]
  | cons t ts =>
    unfold Fits
    rw [List.forall_mem_cons, List.isChain_cons_cons]
    simp [Token.Lexable, Token.MayPrecede]

/-- Symbols around tokens leave open only whether these can be written. -/
theorem fits_enclosed {left right : Symbol} {ts : List Token} :
    Fits (.symbol left :: ts ++ [.symbol right]) ↔ Fits ts := by
  rw [List.cons_append, fits_symbol_cons, fits_append (by simp [Token.IsFree]), fits_symbol_cons]
  exact and_iff_left fits_nil

theorem fits_of_isFree {ts : List Token} (h : ∀ t ∈ ts, t.IsFree) :
    Fits ts ↔ ∀ t ∈ ts, t.Lexable := by
  induction ts with
  | nil => simp [fits_nil]
  | cons t ts ih =>
    obtain ⟨-, hts⟩ := List.forall_mem_cons.1 h
    rw [fits_cons (fun t' ht' => hts t' (List.mem_of_mem_head? ht')), ih hts, List.forall_mem_cons]

/-! ## Both say the same -/

theorem Path.fits_tokens (p : Path) : Fits p.tokens ↔ p.Lexable := by
  have hfree : ∀ t ∈ p.tokens, t.IsFree := by
    intro t ht
    simp only [Path.tokens, List.mem_cons, List.mem_flatMap, List.not_mem_nil, or_false] at ht
    rcases ht with rfl | ⟨s, -, rfl | rfl⟩ <;> trivial
  rw [fits_of_isFree hfree]
  unfold Path.tokens Path.Lexable Path.segments
  rw [List.forall_mem_cons, List.forall_mem_cons]
  refine and_congr_right fun _ => ⟨?_, ?_⟩
  · intro h s hs
    exact h (.segment s) (List.mem_flatMap.2 ⟨s, hs, by simp⟩)
  · intro h t ht
    obtain ⟨s, hs, ht⟩ := List.mem_flatMap.1 ht
    simp only [List.mem_cons, List.not_mem_nil, or_false] at ht
    rcases ht with rfl | rfl
    · trivial
    · exact h s hs

theorem parts_fits (parts : List Part) :
    Fits (parts.map Part.token) ↔
      (∀ p ∈ parts, p.Lexable) ∧ parts.IsChain Part.MayPrecede := by
  have hlex (p : Part) : p.token.Lexable ↔ p.Lexable := by cases p <;> rfl
  have hpre (p p' : Part) : p.token.MayPrecede p'.token ↔ p.MayPrecede p' := by
    cases p <;> cases p' <;> rfl
  unfold Fits
  rw [List.forall_mem_map, List.isChain_map]
  simp only [hlex, hpre]

theorem Expr.head_isFree (e : Expr) : e.tokens ≠ [] ∧ ∀ t ∈ e.tokens.head?, t.IsFree := by
  cases e with
  | bool b => cases b <;> simp [Expr.tokens, Token.IsFree]
  | _ => simp [Expr.tokens, Token.IsFree]

theorem head_append_isFree {a b : List Token} (ha : a ≠ [] ∧ ∀ t ∈ a.head?, t.IsFree) :
    ∀ t ∈ (a ++ b).head?, t.IsFree := by
  rw [List.head?_append_of_ne_nil _ ha.1]
  exact ha.2

theorem Item.head_isFree (item : Item) : item.tokens ≠ [] ∧ ∀ t ∈ item.tokens.head?, t.IsFree := by
  cases item with
  | value e => exact e.head_isFree
  | spread name => simp [Item.tokens, Token.IsFree]

theorem Entry.head_isFree (entry : Entry) :
    entry.tokens ≠ [] ∧ ∀ t ∈ entry.tokens.head?, t.IsFree := by
  cases entry <;> simp [Entry.tokens, Path.tokens, Token.IsFree]

theorem itemsTokens_isFree (items : List Item) : ∀ t ∈ (itemsTokens items).head?, t.IsFree := by
  cases items with
  | nil => simp [itemsTokens]
  | cons item items => exact head_append_isFree item.head_isFree

theorem entriesTokens_isFree (entries : List Entry) :
    ∀ t ∈ (entriesTokens entries).head?, t.IsFree := by
  cases entries with
  | nil => simp [entriesTokens]
  | cons entry entries => exact head_append_isFree entry.head_isFree

theorem fits_spread (name : String) :
    Fits [.symbol .spread, .input name] ↔ NameLexable name := by
  rw [fits_symbol_cons, fits_singleton, Token.Lexable]

mutual

theorem Expr.fits_tokens : ∀ e : Expr, Fits e.tokens ↔ e.Lexable
  | .string parts => by rw [Expr.tokens, fits_enclosed, parts_fits, Expr.Lexable]
  | .array items => by rw [Expr.tokens, fits_enclosed, itemsTokens_fits items, Expr.Lexable]
  | .object entries => by
    rw [Expr.tokens, fits_enclosed, entriesTokens_fits entries, Expr.Lexable]
  | .bool true | .bool false => by
    rw [Expr.tokens, fits_singleton, Expr.Lexable, Token.Lexable]
  | .null | .integer _ | .float _ | .input _ => by
    rw [Expr.tokens, fits_singleton, Expr.Lexable, Token.Lexable]

theorem itemsTokens_fits : ∀ items : List Item, Fits (itemsTokens items) ↔ itemsLexable items
  | [] => by simp [itemsTokens, fits_nil, itemsLexable]
  | item :: items => by
    rw [itemsTokens, fits_append (itemsTokens_isFree items), item.fits_tokens,
      itemsTokens_fits items, itemsLexable]

theorem Item.fits_tokens : ∀ item : Item, Fits item.tokens ↔ item.Lexable
  | .value e => by rw [Item.tokens, e.fits_tokens, Item.Lexable]
  | .spread name => by rw [Item.tokens, fits_spread, Item.Lexable]

theorem entriesTokens_fits :
    ∀ entries : List Entry, Fits (entriesTokens entries) ↔ entriesLexable entries
  | [] => by simp [entriesTokens, fits_nil, entriesLexable]
  | entry :: entries => by
    rw [entriesTokens, fits_append (entriesTokens_isFree entries), entry.fits_tokens,
      entriesTokens_fits entries, entriesLexable]

theorem Entry.fits_tokens : ∀ entry : Entry, Fits entry.tokens ↔ entry.Lexable
  | .pair path e => by
    rw [Entry.tokens, fits_append (by simp [Token.IsFree]), fits_symbol_cons, path.fits_tokens,
      e.fits_tokens, Entry.Lexable]
  | .spread name => by rw [Entry.tokens, fits_spread, Entry.Lexable]

end

theorem Binding.fits_tokens (b : Binding) : Fits b.tokens ↔ b.Lexable := by
  rw [Binding.tokens, fits_cons (by simp [Token.IsFree]), fits_symbol_cons, b.expr.fits_tokens,
    Token.Lexable, Binding.Lexable]

theorem bindings_fits (bs : List Binding) :
    Fits (bs.flatMap Binding.tokens) ↔ ∀ b ∈ bs, b.Lexable := by
  induction bs with
  | nil => simp [fits_nil]
  | cons b bs ih =>
    have hhead : ∀ t ∈ (bs.flatMap Binding.tokens).head?, t.IsFree := by
      cases bs <;> simp [Binding.tokens, Token.IsFree]
    rw [List.flatMap_cons, fits_append hhead, b.fits_tokens, ih, List.forall_mem_cons]

theorem block_fits (bindings : Option (List Binding)) :
    Fits (blockTokens bindings) ↔ ∀ b ∈ bindings.getD [], b.Lexable := by
  cases bindings with
  | none => simp [blockTokens, fits_nil]
  | some bs =>
    rw [blockTokens, List.cons_append, List.cons_append, fits_symbol_cons, fits_symbol_cons,
      fits_append (by simp [Token.IsFree]), fits_symbol_cons, fits_symbol_cons, bindings_fits,
      Option.getD_some]
    simp [fits_nil]

/-- A document can be written exactly if its tokens can, and it is nested no deeper than the
limit. -/
theorem lexable_iff_fits (c : Document) :
    c.Lexable ↔ Fits c.tokens ∧ c.depth ≤ nestingLimit := by
  rw [Document.tokens, fits_append (Expr.head_isFree _).2, block_fits, Expr.fits_tokens,
    Expr.Lexable, Document.Lexable, and_assoc]

end ConfigLang
