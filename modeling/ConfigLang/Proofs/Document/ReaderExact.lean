import ConfigLang.Document.Reader
import ConfigLang.Proofs.Document.DraftRun

/-!
# Reading is exact

`Document.ofTokens` accepts the flattenings of documents within the nesting limit and nothing else,
and gives back the document that was flattened.

* `feed_eq_ok_iff`: within the limit a reader follows `Draft.extend` for as long as the draft stays
  within the limit.
* `finish_eq_ok_iff`: the same for all tokens to the end, from any draft.
* `ofTokens_eq_ok_iff`: the statement for whole documents.
* `reading_exact`: with it, that documents with the same tokens are the same.
-/

namespace ConfigLang

/-- A reader follows `Draft.extend` for as long as the draft stays within the limit. -/
theorem feed_eq_ok_iff {base : Nat} {d d' : Draft} {t : Token}
    (hd : base + d.height ≤ nestingLimit) :
    d.feed base t = .ok d' ↔ d.extend t = some d' ∧ base + d'.height ≤ nestingLimit := by
  have hle := d.depth_le_height
  unfold Draft.feed
  cases he : d.extend t with
  | none => simp
  | some d₁ =>
    have hh := extend_height he
    simp only [Option.some.injEq]
    split
    · rename_i hdeep
      simp only [reduceCtorEq, false_iff, not_and]
      rintro rfl
      omega
    · rename_i hdeep
      simp only [Except.ok.injEq]
      constructor
      · rintro rfl
        exact ⟨rfl, by omega⟩
      · exact fun h => h.1

/-- The end of the tokens completes a draft only if the draft is complete already. -/
theorem finish_nil_eq_ok_iff {base : Nat} {d : Draft} {c : Document} :
    (Reader.finish base d []).1 = .ok c ↔ d = .complete c := by
  cases d <;> simp [Reader.finish]

/-- A reader completes a draft exactly where `Draft.extend` does and the document stays within the
limit. -/
theorem finish_eq_ok_iff {base : Nat} {d : Draft} {ts : List Token} {c : Document}
    (hd : base + d.height ≤ nestingLimit) :
    (Reader.finish base d ts).1 = .ok c ↔
      d.extendAll ts = some (.complete c) ∧ base + c.depth ≤ nestingLimit := by
  induction ts generalizing d with
  | nil =>
    rw [finish_nil_eq_ok_iff, Draft.extendAll, Option.some.injEq]
    constructor
    · rintro rfl
      exact ⟨rfl, hd⟩
    · exact fun h => h.1
  | cons t ts ih =>
    rw [Reader.finish, Draft.extendAll]
    cases hf : d.feed base t with
    | ok d' =>
      obtain ⟨he, hd'⟩ := (feed_eq_ok_iff hd).1 hf
      rw [he]
      exact ih hd'
    | error e =>
      constructor
      · intro h
        cases e <;> cases h
      · rintro ⟨h, hc⟩
        obtain ⟨d', he, hrest⟩ := Option.bind_eq_some_iff.1 h
        -- A document is at least as deep as the drafts that lead to it.
        have hmono : d'.height ≤ c.depth := extendAll_height_le hrest
        rw [(feed_eq_ok_iff hd).2 ⟨he, by omega⟩] at hf
        cases hf

/-- A sequence of tokens reads as a document exactly when it is the flattening of that document and
the document is nested no deeper than the limit. -/
theorem ofTokens_eq_ok_iff {ts : List Token} {c : Document} :
    Document.ofTokens ts = .ok c ↔ ts = c.tokens ∧ c.depth ≤ nestingLimit := by
  have hstart : 0 + Draft.start.height ≤ nestingLimit := by decide
  have h : (Reader.finish 0 .start ts).1 = .ok c ↔ _ := finish_eq_ok_iff hstart
  rw [extendAll_start_iff, Nat.zero_add] at h
  exact h

/-- Documents with the same tokens are the same. -/
theorem tokens_injective : Function.Injective Document.tokens := by
  intro c c' h
  have hc := extendAll_start_iff.2 h
  rw [extendAll_start_iff.2 rfl] at hc
  cases hc
  rfl

/-- **Reading is exact.** The token sequences that read as a document are its flattening, if it is
nested no deeper than the limit, and no others; every key has a first segment by its type.
Flattening forgets nothing, not even a block without bindings. -/
theorem reading_exact :
    (∀ (ts : List Token) (c : Document),
      Document.ofTokens ts = .ok c ↔ ts = c.tokens ∧ c.depth ≤ nestingLimit) ∧
    Function.Injective Document.tokens ∧
    ∀ body body' : List Entry,
      Document.tokens ⟨some [], body⟩ ≠ Document.tokens ⟨none, body'⟩ := by
  refine ⟨fun ts c => ofTokens_eq_ok_iff, tokens_injective, fun body body' h => ?_⟩
  cases tokens_injective h

end ConfigLang
