import ConfigLang.Proofs.Evaluation.LastWrite
import ConfigLang.Proofs.Evaluation.LiteralText

/-!
# Compiled values

A value that a document compiles to is an object whose keys are apart at every depth, whose numbers
and keys are tokens of the document, so that every float is finite, and whose top-level keys stand
in the order in which they are first written.

* `Value.MadeOf`: a value whose numbers and keys are among given tokens.
* `eval_madeOf`: evaluation keeps to the tokens of the document.
* `keys_writeAll`: writes keep the keys that are there in place and add the others in order.
* `compiled_value_shape`: the statement for compiled values.
-/

namespace ConfigLang

/-! ## Numbers and keys are tokens -/

/-- A number that is one of the tokens, an object whose keys are segments among them, or anything
else. -/
def Value.StandsIn (ts : List Token) : Value → Prop
  | .integer n => .integer n ∈ ts
  | .float x => .float x ∈ ts
  | .object fields => ∀ key ∈ Assoc.keys fields, .segment key ∈ ts
  | .null | .bool _ | .string _ | .array _ => True

/-- A value whose numbers and keys, at every depth, are among the tokens. -/
def Value.MadeOf (ts : List Token) (v : Value) : Prop := v.Everywhere (Value.StandsIn ts)

theorem standsIn_kept (ts : List Token) : Kept ts (Value.StandsIn ts) where
  null := trivial
  bool _ := trivial
  integer _ h := h
  float _ h := h
  string _ := trivial
  array _ := trivial
  empty := by simp [Value.StandsIn, Assoc.keys]
  insert := by
    intro fields key v hfields hkey k hk
    have hnew : .segment key ∈ ts := by
      rcases hkey with hkey | ⟨source, hsource, hkey⟩
      · exact hkey
      · exact hsource key hkey
    rw [Assoc.keys_insert] at hk
    split at hk
    · exact hfields k hk
    · rcases List.mem_append.1 hk with hk | hk
      · exact hfields k hk
      · rw [List.mem_singleton.1 hk]
        exact hnew

theorem bindings_tokens_subset (c : Document) :
    ∀ b ∈ c.bindings.getD [], b.expr.tokens ⊆ c.tokens := by
  intro b hb t ht
  unfold Document.tokens
  cases hbindings : c.bindings with
  | none => simp [hbindings] at hb
  | some bs =>
    rw [hbindings] at hb
    have hmem : t ∈ bs.flatMap Binding.tokens :=
      List.mem_flatMap.2 ⟨b, hb, by simp [Binding.tokens, ht]⟩
    simp [blockTokens, hmem]

theorem body_tokens_subset (c : Document) : entriesTokens c.body ⊆ c.tokens := by
  intro t ht
  simp [Document.tokens, Expr.tokens, ht]

/-- **The value of a document is made of its tokens.** -/
theorem eval_madeOf {env : Environment} {c : Document} {fields : Assoc Value}
    (h : c.eval env = .ok fields) : (Value.object fields).MadeOf c.tokens := by
  obtain ⟨scope, hscope, hfields⟩ := bind_eq_ok.1 h
  have hkept := standsIn_kept c.tokens
  have hstart : Scope.Everywhere (Value.StandsIn c.tokens) [] := by simp [Scope.Everywhere]
  have hinputs := bindAll_everywhere hkept hstart (bindings_tokens_subset c) hscope
  exact evalEntries_everywhere hkept hinputs (empty_everywhere hkept) (body_tokens_subset c) hfields

theorem eval_hasDistinctKeys {env : Environment} {c : Document} {fields : Assoc Value}
    (h : c.eval env = .ok fields) : (Value.object fields).HasDistinctKeys := by
  obtain ⟨scope, hscope, hfields⟩ := bind_eq_ok.1 h
  have hkept := keysApart_kept c.tokens
  have hstart : Scope.Everywhere Value.KeysApart [] := by simp [Scope.Everywhere]
  have hinputs := bindAll_everywhere hkept hstart (bindings_tokens_subset c) hscope
  exact evalEntries_everywhere hkept hinputs (empty_everywhere hkept) (body_tokens_subset c) hfields

/-- Tokens that can be written hold finite numbers only. -/
theorem Value.MadeOf.isFinite {ts : List Token} (hts : ∀ t ∈ ts, t.Lexable) {v : Value}
    (h : v.MadeOf ts) : v.IsFinite := by
  refine h.mono fun w hw => ?_
  cases w with
  | float x => exact hts _ hw
  | _ => trivial

/-! ## Order of keys -/

/-- Writes leave the keys of the object in place; new ones follow in the order in which they are
first written. -/
theorem keys_writeAll {fields built : Assoc Value} {ws : List Write}
    (h : writeAll fields ws = .ok built) :
    Assoc.keys built = Assoc.keys fields ++
      ((ws.map fun w => w.path.first).filter (· ∉ Assoc.keys fields)).eraseDups := by
  induction ws generalizing fields with
  | nil =>
    obtain rfl : fields = built := Except.ok.inj h
    simp
  | cons w ws ih =>
    obtain ⟨fields', hw, h⟩ := bind_eq_ok.1 h
    rw [ih h, keys_insertAt hw, List.map_cons]
    exact Assoc.append_new_cons _ _ _

/-- The top-level keys of an object are the first segments of its writes, each where it comes
first. -/
theorem keys_writeAll_nil {built : Assoc Value} {ws : List Write} (h : writeAll [] ws = .ok built) :
    Assoc.keys built = (ws.map fun w => w.path.first).eraseDups := by
  simpa [Assoc.keys] using keys_writeAll h

/-- No later write moves or removes a key. -/
theorem keys_writeAll_prefix {fields built : Assoc Value} {before after : List Write}
    (h : writeAll fields (before ++ after) = .ok built) :
    ∃ between, writeAll fields before = .ok between ∧ Assoc.keys between <+: Assoc.keys built := by
  rw [writeAll_append] at h
  obtain ⟨between, hbetween, h⟩ := bind_eq_ok.1 h
  refine ⟨between, hbetween, ?_⟩
  rw [keys_writeAll h]
  exact List.prefix_append _ _

/-- Entries that have been evaluated come to writes. -/
theorem writesOf_of_evalEntries {env : Environment} {scope : Scope} {entries : List Entry}
    {fields built : Assoc Value} (h : evalEntries env scope fields entries = .ok built) :
    ∃ ws, writesOf env scope entries = .ok ws := by
  induction entries generalizing fields with
  | nil => exact ⟨[], rfl⟩
  | cons entry entries ih =>
    rw [evalEntries] at h
    obtain ⟨fields', hentry, h⟩ := bind_eq_ok.1 h
    obtain ⟨others, hothers⟩ := ih h
    have hown : ∃ own, entry.writes env scope = .ok own := by
      cases entry with
      | pair path e =>
        rw [Entry.eval] at hentry
        obtain ⟨v, hv, -⟩ := bind_eq_ok.1 hentry
        exact ⟨_, bind_eq_ok.2 ⟨v, hv, rfl⟩⟩
      | spread name =>
        rw [Entry.eval] at hentry
        obtain ⟨source, hsource, -⟩ := bind_eq_ok.1 hentry
        exact ⟨_, bind_eq_ok.2 ⟨source, hsource, rfl⟩⟩
    obtain ⟨own, hown⟩ := hown
    exact ⟨own ++ others, bind_eq_ok.2 ⟨own, hown, bind_eq_ok.2 ⟨others, hothers, rfl⟩⟩⟩

/-- **The shape of compiled values.** What a text compiles to is an object; its keys are apart at
every depth, its numbers and keys are tokens of the text, and its floats are finite. Its body comes
to writes, one for each key with a value and one for each field of a spread object: the keys of the
object are the first segments of these writes, in the order in which they come first, and no later
write moves or removes one. -/
theorem compiled_value_shape {env : Environment} {source : String} {v : Value}
    (h : compile env source = .ok v) :
    ∃ fields, v = .object fields ∧ v.HasDistinctKeys ∧ v.IsFinite ∧
      (∃ ts, tokensOf source = .ok ts ∧ v.MadeOf ts) ∧
      ∃ c scope ws, documentOf source = .ok c ∧ bindAll env [] (c.bindings.getD []) = .ok scope ∧
        writesOf env scope c.body = .ok ws ∧
        Assoc.keys fields = (ws.map fun w => w.path.first).eraseDups ∧
        ∀ before after, ws = before ++ after →
          ∃ between, writeAll [] before = .ok between ∧
            Assoc.keys between <+: Assoc.keys fields := by
  obtain ⟨c, fields, hc, hfields, rfl⟩ := compile_eq_ok_iff.1 h
  obtain ⟨htokens, -⟩ := documentOf_eq_ok_iff.1 hc
  have hmade := eval_madeOf hfields
  have hlexable : ∀ t ∈ c.tokens, t.Lexable :=
    ((lexable_iff_fits c).1 (lexable_of_documentOf hc)).1.1
  obtain ⟨scope, hscope, hbody⟩ := bind_eq_ok.1 hfields
  obtain ⟨ws, hws⟩ := writesOf_of_evalEntries hbody
  rw [evalEntries_eq_writeAll hws] at hbody
  refine ⟨fields, rfl, eval_hasDistinctKeys hfields, hmade.isFinite hlexable,
    ⟨c.tokens, ?_, hmade⟩, c, scope, ws, hc, hscope, hws, keys_writeAll_nil hbody, ?_⟩
  · rw [tokensOf, htokens]
    rfl
  · rintro before after rfl
    exact keys_writeAll_prefix hbody

/-- A text whose object is written at `a`, and then spread over at `b` and `a`. -/
def overwrittenText : String := "let\x7b$o=\x7bb=2 a=[0.5]\x7d\x7din\x7ba.x=1 ..$o\x7d"

theorem tokenize_overwrittenText :
    Lexer.tokenize overwrittenText = .ok
      [.symbol .letWord, .symbol .braceOpen, .input "$o", .symbol .equals, .symbol .braceOpen,
        .segment "b", .symbol .equals, .integer 2, .segment "a", .symbol .equals,
        .symbol .bracketOpen, .float ⟨0x3fe0000000000000⟩, .symbol .bracketClose,
        .symbol .braceClose, .symbol .braceClose, .symbol .inWord, .symbol .braceOpen,
        .segment "a", .symbol .dot, .segment "x", .symbol .equals, .integer 1, .symbol .spread,
        .input "$o", .symbol .braceClose] := by
  decide +kernel

/-- The spread finds `a` in place, and puts `b` behind it. -/
theorem compiled_value_shape_of_overwritten :
    let v : Value := .object [("a", .array [.float ⟨0x3fe0000000000000⟩]), ("b", .integer 2)]
    compile (fun _ => none) overwrittenText = .ok v ∧ v.HasDistinctKeys ∧ v.IsFinite ∧
      ∃ ts, tokensOf overwrittenText = .ok ts ∧ v.MadeOf ts := by
  intro v
  have hv : compile (fun _ => none) overwrittenText = .ok v := by
    unfold compile documentOf tokensOf
    rw [tokenize_overwrittenText]
    rfl
  obtain ⟨fields, -, hkeys, hfinite, hmade, -⟩ := compiled_value_shape hv
  exact ⟨hv, hkeys, hfinite, hmade⟩

end ConfigLang
