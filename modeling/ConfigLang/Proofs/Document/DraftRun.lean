import ConfigLang.Document.Draft
import ConfigLang.Proofs.Document.Flattening

/-!
# What drafts have read

A draft determines the tokens that led to it (`Draft.tokens`), the constructs open after them
(`Draft.modes`) and how deep it has nested so far (`Draft.height`).

* `extend_tokens`: a draft continued by a token has read that token and no other.
* `extend_height`: it is as high as before, or as high as its own depth.
* `traces_document`: the tokens of a document, one after another, lead from the start to the
  complete document, and the constructs open on the way are those of its trace.
-/

namespace ConfigLang

open Lexer (Mode)

/-! ## Tokens -/

/-- The tokens before an expression. -/
def Context.tokens : Context → List Token
  | .binding done name =>
    [.symbol .letWord, .symbol .braceOpen] ++ done.reverse.flatMap Binding.tokens ++
      [.input name, .symbol .equals]
  | .bodyEntry bindings done path =>
    blockTokens bindings ++ [.symbol .braceOpen] ++ entriesTokens done.reverse ++
      path.tokens ++ [.symbol .equals]
  | .entry outer done path =>
    outer.tokens ++ [.symbol .braceOpen] ++ entriesTokens done.reverse ++ path.tokens ++
      [.symbol .equals]
  | .item outer done => outer.tokens ++ [.symbol .bracketOpen] ++ itemsTokens done.reverse

/-- The tokens before the entries of an object. -/
def Owner.tokens : Owner → List Token
  | .body bindings => blockTokens bindings ++ [.symbol .braceOpen]
  | .expr outer => outer.tokens ++ [.symbol .braceOpen]

/-- The tokens that lead to a draft. -/
def Draft.tokens : Draft → List Token
  | .start => []
  | .block => [.symbol .letWord]
  | .bindings done =>
    [.symbol .letWord, .symbol .braceOpen] ++ done.reverse.flatMap Binding.tokens
  | .bindingName done name =>
    [.symbol .letWord, .symbol .braceOpen] ++ done.reverse.flatMap Binding.tokens ++ [.input name]
  | .blockEnd done =>
    [.symbol .letWord, .symbol .braceOpen] ++ done.reverse.flatMap Binding.tokens ++
      [.symbol .braceClose]
  | .body bs => blockTokens (some bs)
  | .value place => place.tokens
  | .entries owner done => owner.tokens ++ entriesTokens done.reverse
  | .entrySpread owner done => owner.tokens ++ entriesTokens done.reverse ++ [.symbol .spread]
  | .key owner done path => owner.tokens ++ entriesTokens done.reverse ++ path.tokens
  | .keyDot owner done path =>
    owner.tokens ++ entriesTokens done.reverse ++ path.tokens ++ [.symbol .dot]
  | .items place done => place.tokens ++ [.symbol .bracketOpen] ++ itemsTokens done.reverse
  | .itemSpread place done =>
    place.tokens ++ [.symbol .bracketOpen] ++ itemsTokens done.reverse ++ [.symbol .spread]
  | .parts place done => place.tokens ++ [.symbol .quote] ++ done.reverse.map Part.token
  | .complete c => c.tokens

theorem fill_tokens (place : Context) (e : Expr) :
    (place.fill e).tokens = place.tokens ++ e.tokens := by
  cases place <;>
    simp [Context.fill, Draft.tokens, Context.tokens, Owner.tokens, Binding.tokens, Entry.tokens,
      Item.tokens, entriesTokens_eq, itemsTokens_eq]

theorem close_tokens (owner : Owner) (done : List Entry) :
    (owner.close done).tokens =
      owner.tokens ++ entriesTokens done.reverse ++ [.symbol .braceClose] := by
  cases owner with
  | body bindings => simp [Owner.close, Draft.tokens, Document.tokens, Owner.tokens, Expr.tokens]
  | expr outer => simp [Owner.close, fill_tokens, Owner.tokens, Expr.tokens]

theorem entry_tokens (owner : Owner) (done : List Entry) (path : Path) :
    (owner.entry done path).tokens =
      owner.tokens ++ entriesTokens done.reverse ++ path.tokens ++ [.symbol .equals] := by
  cases owner <;> simp [Owner.entry, Context.tokens, Owner.tokens]

theorem tokens_of_exprOfToken? {t : Token} {e : Expr} (h : Expr.ofToken? t = some e) :
    e.tokens = [t] := by
  cases t with
  | symbol s => cases s <;> cases h <;> rfl
  | float x => cases h; rfl
  | integer n => cases h; rfl
  | input name => cases h; rfl
  | _ => cases h

theorem token_of_partOfToken? {t : Token} {part : Part} (h : Part.ofToken? t = some part) :
    part.token = t := by
  unfold Part.ofToken? at h
  split at h <;> cases h <;> rfl

theorem start_tokens {place : Context} {t : Token} {d : Draft} (h : place.start t = some d) :
    d.tokens = place.tokens ++ [t] := by
  unfold Context.start at h
  split at h
  · cases h; simp [Draft.tokens]
  · cases h; simp [Draft.tokens, Owner.tokens, entriesTokens]
  · cases h; simp [Draft.tokens, itemsTokens]
  · obtain ⟨e, he, rfl⟩ := Option.map_eq_some_iff.1 h
    rw [fill_tokens, tokens_of_exprOfToken? he]

/-- A draft continued by a token has read that token and no other. -/
theorem extend_tokens {d d' : Draft} {t : Token} (h : d.extend t = some d') :
    d'.tokens = d.tokens ++ [t] := by
  fun_cases Draft.extend d t <;> simp only [Draft.extend, Option.some.injEq, reduceCtorEq] at h
  case case9 place => exact start_tokens h
  case case10 owner done =>
    subst h
    exact close_tokens owner done
  case case15 owner done path =>
    subst h
    exact entry_tokens owner done path
  case case17 place done =>
    subst h
    rw [fill_tokens]
    simp [Draft.tokens, Expr.tokens]
  case case19 place done _ _ => exact start_tokens h
  case case21 place done =>
    subst h
    rw [fill_tokens]
    simp [Draft.tokens, Expr.tokens]
  case case22 place done _ =>
    obtain ⟨part, hp, rfl⟩ := Option.map_eq_some_iff.1 h
    simp [Draft.tokens, token_of_partOfToken? hp]
  all_goals
    subst h
    simp [Draft.tokens, Context.tokens, Owner.tokens, Path.tokens, Path.push, entriesTokens_eq,
      itemsTokens_eq, Entry.tokens, Item.tokens, blockTokens]

/-! ## Nesting -/

/-- The deepest nesting before an expression, the constructs around it included. -/
def Context.height : Context → Nat
  | .binding done _ => deepest Binding.depth done
  | .bodyEntry bindings done _ =>
    max (deepest Binding.depth (bindings.getD [])) (deepest Entry.depth done + 1)
  | .entry outer done _ => max outer.height (outer.depth + 1 + deepest Entry.depth done)
  | .item outer done => max outer.height (outer.depth + 1 + deepest Item.depth done)

/-- The deepest nesting inside an object after some of its entries. -/
def Owner.height (owner : Owner) (done : List Entry) : Nat :=
  match owner with
  | .body bindings =>
    max (deepest Binding.depth (bindings.getD [])) (deepest Entry.depth done + 1)
  | .expr outer => max outer.height (outer.depth + 1 + deepest Entry.depth done)

/-- The deepest nesting that has led to a draft. -/
def Draft.height : Draft → Nat
  | .start | .block => 0
  | .bindings done | .bindingName done _ | .blockEnd done => deepest Binding.depth done
  | .body bs => deepest Binding.depth bs
  | .value place | .parts place _ => place.height
  | .entries owner done | .entrySpread owner done => owner.height done
  | .key owner done _ | .keyDot owner done _ => owner.height done
  | .items place done | .itemSpread place done => (Context.item place done).height
  | .complete c => c.depth

theorem Context.depth_le_height (place : Context) : place.depth ≤ place.height := by
  cases place <;> simp only [Context.depth, Context.height] <;> omega

theorem Owner.depth_le_height (owner : Owner) (done : List Entry) :
    owner.depth ≤ owner.height done := by
  cases owner <;> simp only [Owner.depth, Owner.height] <;> omega

theorem Draft.depth_le_height (d : Draft) : d.depth ≤ d.height := by
  cases d with
  | value place | parts place => exact place.depth_le_height
  | entries owner done | entrySpread owner done => exact owner.depth_le_height done
  | key owner done | keyDot owner done => exact owner.depth_le_height done
  | items place done | itemSpread place done => exact (Context.item place done).depth_le_height
  | _ => exact Nat.zero_le _

theorem fill_depth (place : Context) (e : Expr) : (place.fill e).depth = place.depth := by
  cases place <;> rfl

theorem fill_height (place : Context) (e : Expr) :
    (place.fill e).height = max place.height (place.depth + e.depth) := by
  cases place <;>
    simp only [Context.fill, Draft.height, Owner.height, Context.height, Context.depth,
      deepest_cons, Binding.depth, Entry.depth, Item.depth] <;>
    omega

theorem close_height (owner : Owner) (done : List Entry) :
    (owner.close done).height = owner.height done := by
  cases owner with
  | body bindings =>
    simp [Owner.close, Draft.height, Owner.height, Document.depth, Expr.depth, entriesDepth_eq]
  | expr outer =>
    rw [Owner.close, fill_height]
    simp only [Owner.height, Expr.depth, entriesDepth_eq, deepest_reverse]
    omega

theorem close_depth (owner : Owner) (done : List Entry) :
    (owner.close done).depth + 1 = owner.depth := by
  cases owner with
  | body bindings => rfl
  | expr outer => exact congrArg Nat.succ (fill_depth outer _)

theorem close_depth_le (owner : Owner) (done : List Entry) :
    (owner.close done).depth ≤ owner.depth :=
  Nat.le_of_succ_le (Nat.le_of_eq (close_depth owner done))

theorem entry_height (owner : Owner) (done : List Entry) (path : Path) :
    (owner.entry done path).height = owner.height done := by
  cases owner <;> rfl

theorem depth_of_exprOfToken? {t : Token} {e : Expr} (h : Expr.ofToken? t = some e) :
    e.depth = 0 := by
  cases t with
  | symbol s => cases s <;> cases h <;> rfl
  | float x => cases h; rfl
  | integer n => cases h; rfl
  | input name => cases h; rfl
  | _ => cases h

theorem start_height {place : Context} {t : Token} {d : Draft} (h : place.start t = some d) :
    d.height = max place.height d.depth := by
  have hle := place.depth_le_height
  unfold Context.start at h
  split at h
  · cases h
    simp only [Draft.height, Draft.depth]
    omega
  · cases h; rfl
  · cases h; rfl
  · obtain ⟨e, he, rfl⟩ := Option.map_eq_some_iff.1 h
    rw [fill_height, fill_depth, depth_of_exprOfToken? he, Nat.add_zero]

/-- A token nests as deep as the draft is after it, and no deeper. -/
theorem extend_height {d d' : Draft} {t : Token} (h : d.extend t = some d') :
    d'.height = max d.height d'.depth := by
  have hle := d.depth_le_height
  fun_cases Draft.extend d t <;> simp only [Draft.extend, Option.some.injEq, reduceCtorEq] at h
  case case9 place => exact start_height h
  case case10 owner done =>
    subst h
    have hc := close_depth_le owner done
    have ho := owner.depth_le_height done
    rw [close_height]
    exact (Nat.max_eq_left (Nat.le_trans hc ho)).symm
  case case13 owner done name =>
    subst h
    cases owner <;>
      simp only [Draft.height, Draft.depth, Owner.height, Owner.depth, deepest_cons,
        Entry.depth] at hle ⊢ <;>
      omega
  case case15 owner done path =>
    subst h
    have hd : (owner.entry done path).depth = owner.depth := by cases owner <;> rfl
    simp only [Draft.height, Draft.depth, entry_height, hd] at hle ⊢
    omega
  case case17 place done =>
    subst h
    rw [fill_height, fill_depth]
    simp only [Draft.height, Context.height, Expr.depth, itemsDepth_eq, deepest_reverse]
    omega
  case case19 place done _ _ => exact start_height h
  case case21 place done =>
    subst h
    rw [fill_height, fill_depth]
    simp only [Draft.height, Expr.depth]
    omega
  case case22 place done _ =>
    obtain ⟨part, -, rfl⟩ := Option.map_eq_some_iff.1 h
    simp only [Draft.height, Draft.depth] at hle ⊢
    omega
  all_goals
    subst h
    simp only [Draft.height, Draft.depth, Owner.height, Owner.depth, Context.height, Context.depth,
      deepest_cons, deepest_nil, deepest_reverse, Item.depth, Option.getD_none,
      Option.getD_some] at hle ⊢ <;>
    omega

/-! ## Open constructs -/

/-- The constructs open around an expression, innermost first. -/
def Context.modes : Context → List Mode
  | .binding .. => [.bindings, .topLevel]
  | .bodyEntry .. => [.object, .topLevel]
  | .entry outer .. => .object :: outer.modes
  | .item outer _ => .array :: outer.modes

/-- The constructs open among the entries of an object. -/
def Owner.modes : Owner → List Mode
  | .body _ => [.object, .topLevel]
  | .expr outer => .object :: outer.modes

/-- The constructs open in a draft, innermost first. -/
def Draft.modes : Draft → List Mode
  | .start | .body _ | .complete _ => [.topLevel]
  | .block | .bindings _ | .bindingName .. | .blockEnd _ => [.bindings, .topLevel]
  | .value place => .value :: place.modes
  | .entries owner _ | .entrySpread owner _ | .key owner .. | .keyDot owner .. => owner.modes
  | .items place _ | .itemSpread place _ => .array :: place.modes
  | .parts place _ => .string :: place.modes

theorem fill_modes (place : Context) (e : Expr) : (place.fill e).modes = place.modes := by
  cases place <;> rfl

theorem entry_modes (owner : Owner) (done : List Entry) (path : Path) :
    (owner.entry done path).modes = owner.modes := by
  cases owner <;> rfl

/-! ## Runs -/

/-- A draft continued by tokens one after another. -/
def Draft.extendAll (d : Draft) : List Token → Option Draft
  | [] => some d
  | t :: ts => (d.extend t).bind fun d' => d'.extendAll ts

/-- The tokens of a run of drafts, each with the constructs open after it. -/
inductive Draft.Traces : Draft → List (Token × List Mode) → Draft → Prop
  | nil (d : Draft) : Traces d [] d
  | cons {d e f : Draft} {t : Token} {steps : List (Token × List Mode)} (h : d.extend t = some e)
      (rest : Traces e steps f) : Traces d ((t, e.modes) :: steps) f

namespace Draft.Traces

theorem append {d d' d'' : Draft} {a b : List (Token × List Mode)} (h₁ : Traces d a d')
    (h₂ : Traces d' b d'') : Traces d (a ++ b) d'' := by
  induction h₁ with
  | nil => exact h₂
  | cons h _ ih => exact .cons h (ih h₂)

/-- A run of one token, with the constructs open after it read off the last draft. -/
theorem single {d d' : Draft} {t : Token} {modes : List Mode} (h : d.extend t = some d')
    (hm : d'.modes = modes) : Traces d [(t, modes)] d' := by
  subst hm
  exact .cons h (.nil d')

theorem extendAll {d d' : Draft} {steps : List (Token × List Mode)} (h : Traces d steps d') :
    d.extendAll (steps.map Prod.fst) = some d' := by
  induction h with
  | nil => rfl
  | cons h _ ih => simp [Draft.extendAll, h, ih]

/-- A run of drafts passes through one behind each of its steps. -/
theorem split {d d' : Draft} {a b : List (Token × List Mode)} (h : Traces d (a ++ b) d') :
    ∃ e, Traces d a e ∧ Traces e b d' := by
  induction a generalizing d with
  | nil => exact ⟨d, .nil d, h⟩
  | cons step a ih =>
    cases h with
    | cons hstep hrest =>
      obtain ⟨e, ha, hb⟩ := ih hrest
      exact ⟨e, .cons hstep ha, hb⟩

/-- The last step of a run says which constructs are open after it. -/
theorem last_modes {d d' : Draft} {steps : List (Token × List Mode)} (h : Traces d steps d') :
    (steps.map Prod.snd).getLast?.getD d.modes = d'.modes := by
  induction h with
  | nil => rfl
  | cons _ _ ih =>
    rw [List.map_cons, List.getLast?_cons, Option.getD_some]
    exact ih

end Draft.Traces

open Draft (Traces)

/-- Where a value may follow, an item may start with the same token. -/
theorem extend_items {place : Context} {done : List Item} {t : Token} {d : Draft}
    (h : (Draft.value (.item place done)).extend t = some d) :
    (Draft.items place done).extend t = some d := by
  cases t with
  | symbol s =>
    cases s
    case bracketClose | spread => cases h
    all_goals exact h
  | _ => exact h

theorem traces_items_of_value {place : Context} {done : List Item} {d : Draft}
    {steps : List (Token × List Mode)} (hs : steps ≠ [])
    (h : Traces (.value (.item place done)) steps d) : Traces (.items place done) steps d := by
  cases h with
  | nil => exact absurd rfl hs
  | cons h rest => exact .cons (extend_items h) rest

theorem traces_parts (place : Context) (parts : List Part) :
    ∀ done : List Part, Traces (.parts place done)
      (keeping (.string :: place.modes) (parts.map Part.token))
      (.parts place (parts.reverse ++ done)) := by
  induction parts with
  | nil => exact fun done => .nil _
  | cons part parts ih =>
    intro done
    have h : (Draft.parts place done).extend part.token = some (.parts place (part :: done)) := by
      cases part <;> rfl
    rw [List.reverse_cons, List.append_assoc]
    exact .cons h (ih (part :: done))

theorem traces_segments (owner : Owner) (done : List Entry) (segments : List String) :
    ∀ path : Path, Traces (.key owner done path)
      (keeping owner.modes (segments.flatMap fun s => [.symbol .dot, .segment s]))
      (.key owner done ⟨path.first, path.rest ++ segments⟩) := by
  induction segments with
  | nil =>
    intro path
    simpa [keeping] using Traces.nil (.key owner done path)
  | cons segment segments ih =>
    intro path
    have h : Traces (.key owner done path)
        [(.symbol .dot, owner.modes), (.segment segment, owner.modes)]
        (.key owner done (path.push segment)) :=
      .cons (e := .keyDot owner done path) rfl (.single rfl rfl)
    simpa [keeping, Path.push] using h.append (ih (path.push segment))

theorem traces_path (owner : Owner) (done : List Entry) (path : Path) :
    Traces (.entries owner done) (keeping owner.modes path.tokens) (.key owner done path) :=
  .cons (e := .key owner done ⟨path.first, []⟩) rfl
    (traces_segments owner done path.rest ⟨path.first, []⟩)

theorem trace_ne_nil (modes : List Mode) (e : Expr) : e.trace modes ≠ [] := by
  cases e with
  | bool b => cases b <;> simp [Expr.trace, keeping, Expr.tokens]
  | _ => simp [Expr.trace, keeping, Expr.tokens]

mutual

/-- The tokens of an expression fill the place of a value. -/
theorem traces_expr (place : Context) :
    ∀ e : Expr, Traces (.value place) (e.trace place.modes) (place.fill e)
  | .string parts => by
    have h := traces_parts place parts []
    rw [List.append_nil] at h
    refine .cons (e := .parts place []) rfl (h.append (.single ?_ (fill_modes _ _)))
    simp [Draft.extend]
  | .array items => by
    have h := traces_items place items []
    rw [List.append_nil] at h
    refine .cons (e := .items place []) rfl (h.append (.single ?_ (fill_modes _ _)))
    simp [Draft.extend]
  | .object entries => by
    have h := traces_entries (.expr place) entries []
    rw [List.append_nil] at h
    refine .cons (e := .entries (.expr place) []) rfl (h.append (.single ?_ (fill_modes _ _)))
    simp [Draft.extend, Owner.close]
  | .bool true | .bool false => .single rfl (fill_modes _ _)
  | .null | .integer _ | .float _ | .input _ => .single rfl (fill_modes _ _)

/-- The tokens of items continue an array. -/
theorem traces_items (place : Context) :
    ∀ (items done : List Item), Traces (.items place done)
      (itemsTrace (.array :: place.modes) items) (.items place (items.reverse ++ done))
  | [], done => .nil _
  | item :: items, done => by
    have h := (traces_item place item done).append (traces_items place items (item :: done))
    simpa [itemsTrace] using h

/-- The tokens of an item continue an array. -/
theorem traces_item (place : Context) :
    ∀ (item : Item) (done : List Item), Traces (.items place done)
      (item.trace (.array :: place.modes)) (.items place (item :: done))
  | .value e, done =>
    traces_items_of_value (trace_ne_nil _ e) (traces_expr (.item place done) e)
  | .spread name, done => .cons (e := .itemSpread place done) rfl (.single rfl rfl)

/-- The tokens of entries continue an object. -/
theorem traces_entries (owner : Owner) :
    ∀ (entries done : List Entry), Traces (.entries owner done) (entriesTrace owner.modes entries)
      (.entries owner (entries.reverse ++ done))
  | [], done => .nil _
  | entry :: entries, done => by
    have h := (traces_entry owner entry done).append (traces_entries owner entries (entry :: done))
    simpa [entriesTrace] using h

/-- The tokens of an entry continue an object. -/
theorem traces_entry (owner : Owner) :
    ∀ (entry : Entry) (done : List Entry), Traces (.entries owner done) (entry.trace owner.modes)
      (.entries owner (entry :: done))
  | .pair path e, done => by
    have h := traces_expr (owner.entry done path) e
    rw [entry_modes] at h
    have hf : (owner.entry done path).fill e = .entries owner (.pair path e :: done) := by
      cases owner <;> rfl
    rw [hf] at h
    have hm : (Draft.value (owner.entry done path)).modes = .value :: owner.modes := by
      rw [Draft.modes, entry_modes]
    rw [Entry.trace, ← hm]
    exact (traces_path owner done path).append (.cons rfl h)
  | .spread name, done => .cons (e := .entrySpread owner done) rfl (.single rfl rfl)

end

theorem traces_bindings (bs : List Binding) :
    ∀ done : List Binding, Traces (.bindings done)
      (bs.flatMap (Binding.trace [.bindings, .topLevel])) (.bindings (bs.reverse ++ done)) := by
  induction bs with
  | nil => exact fun done => .nil _
  | cons b bs ih =>
    intro done
    have h : Traces (.bindings done) (b.trace [.bindings, .topLevel]) (.bindings (b :: done)) :=
      .cons (e := .bindingName done b.name) rfl
        (.cons (e := .value (.binding done b.name)) rfl (traces_expr (.binding done b.name) b.expr))
    simpa using h.append (ih (b :: done))

theorem traces_block (bs : List Binding) : Traces .start (blockTrace (some bs)) (.body bs) := by
  have h := traces_bindings bs []
  rw [List.append_nil] at h
  have hb : (Draft.blockEnd bs.reverse).extend (.symbol .inWord) = some (.body bs) := by
    simp [Draft.extend]
  have hopen : Traces .start
      (keeping [.bindings, .topLevel] [.symbol .letWord, .symbol .braceOpen]) (.bindings []) :=
    .cons (e := .block) rfl (.single rfl rfl)
  exact (hopen.append h).append (.cons (e := .blockEnd bs.reverse) rfl (.single hb rfl))

/-- **The tokens of a document** lead from the start to the complete document. -/
theorem traces_document (c : Document) : Traces .start c.trace (.complete c) := by
  obtain ⟨bindings, body⟩ := c
  have hbody : Traces (.entries (.body bindings) [])
      (entriesTrace [.object, .topLevel] body ++ [(.symbol .braceClose, [.topLevel])])
      (.complete ⟨bindings, body⟩) := by
    have h := traces_entries (.body bindings) body []
    rw [List.append_nil] at h
    refine h.append (.single ?_ rfl)
    simp [Draft.extend, Owner.close]
  cases bindings with
  | none => exact .cons (e := .entries (.body none) []) rfl hbody
  | some bs =>
    exact (traces_block bs).append (.cons (e := .entries (.body (some bs)) []) rfl hbody)

/-! ## Runs and what they have read -/

theorem extendAll_tokens {d d' : Draft} {ts : List Token} (h : d.extendAll ts = some d') :
    d'.tokens = d.tokens ++ ts := by
  induction ts generalizing d with
  | nil =>
    cases h
    simp
  | cons t ts ih =>
    obtain ⟨d₁, h₁, h⟩ := Option.bind_eq_some_iff.1 h
    rw [ih h, extend_tokens h₁, List.append_assoc, List.singleton_append]

theorem extendAll_height_le {d d' : Draft} {ts : List Token} (h : d.extendAll ts = some d') :
    d.height ≤ d'.height := by
  induction ts generalizing d with
  | nil =>
    cases h
    exact Nat.le_refl _
  | cons t ts ih =>
    obtain ⟨d₁, h₁, h⟩ := Option.bind_eq_some_iff.1 h
    have hle := ih h
    have hh := extend_height h₁
    omega

/-- **Flattening is inverted by reading**, however deep the nesting. -/
theorem extendAll_start_iff {ts : List Token} {c : Document} :
    Draft.start.extendAll ts = some (.complete c) ↔ ts = c.tokens := by
  constructor
  · intro h
    exact (extendAll_tokens h).symm
  · rintro rfl
    rw [← c.trace_map_fst]
    exact (traces_document c).extendAll

end ConfigLang
