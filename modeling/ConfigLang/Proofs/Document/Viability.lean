import ConfigLang.Proofs.Document.ReaderExact

/-!
# Beginnings of documents

A sequence of tokens that a run of drafts has read can still become a document, and the tokens that
are missing need not nest deeper than those that are there.

* `Draft.completable`: every draft is completed by some tokens, and nests no deeper by them than it
  has nested already; only the document's own object may come new.
* `startsDocument_iff`: tokens begin a sequence that reads as a document exactly when a run of
  drafts reads them within the nesting limit.
-/

namespace ConfigLang

/-- Tokens that read as a document. -/
def IsDocument (ts : List Token) : Prop := ∃ c, Document.ofTokens ts = .ok c

/-- The first tokens of a sequence that reads as a document. -/
def StartsDocument (ts : List Token) : Prop := ∃ rest, IsDocument (ts ++ rest)

theorem isDocument_iff {ts : List Token} :
    IsDocument ts ↔
      ∃ c, Draft.start.extendAll ts = some (.complete c) ∧ c.depth ≤ nestingLimit := by
  simp only [IsDocument, ofTokens_eq_ok_iff, extendAll_start_iff]

/-! ## Completing a draft -/

/-- Some tokens complete the draft and nest no deeper than it has nested, the document's own object
apart. -/
def Draft.Completable (d : Draft) : Prop :=
  ∃ ts c, d.extendAll ts = some (.complete c) ∧ c.depth ≤ max d.height 1

theorem Draft.Completable.of_extend {d d' : Draft} (h' : d'.Completable) (t : Token)
    (h : d.extend t = some d') (hdepth : d'.depth ≤ max d.depth 1) : d.Completable := by
  obtain ⟨ts, c, hts, hc⟩ := h'
  refine ⟨t :: ts, c, ?_, ?_⟩
  · rw [Draft.extendAll, h]
    exact hts
  · have hle := d.depth_le_height
    have hheight := extend_height h
    omega

theorem completable_complete (c : Document) : (Draft.complete c).Completable :=
  ⟨[], c, rfl, Nat.le_max_left ..⟩

theorem completable_of_close {owner : Owner} {done : List Entry}
    (h : (owner.close done).Completable) : (Draft.entries owner done).Completable :=
  h.of_extend (.symbol .braceClose) rfl
    (Nat.le_trans (close_depth_le owner done) (Nat.le_max_left ..))

theorem completable_bodyEntries (bindings : Option (List Binding)) (done : List Entry) :
    (Draft.entries (.body bindings) done).Completable :=
  completable_of_close (completable_complete _)

theorem completable_body (bs : List Binding) : (Draft.body bs).Completable :=
  (completable_bodyEntries (some bs) []).of_extend (.symbol .braceOpen) rfl (Nat.le_refl 1)

theorem completable_blockEnd (done : List Binding) : (Draft.blockEnd done).Completable :=
  (completable_body done.reverse).of_extend (.symbol .inWord) rfl (Nat.zero_le _)

theorem completable_bindings (done : List Binding) : (Draft.bindings done).Completable :=
  (completable_blockEnd done).of_extend (.symbol .braceClose) rfl (Nat.zero_le _)

/-- With an expression in its place the constructs around it can be closed one by one. -/
theorem completable_fill (place : Context) : ∀ e : Expr, (place.fill e).Completable := by
  induction place with
  | binding done name => exact fun e => completable_bindings _
  | bodyEntry bindings done path => exact fun e => completable_bodyEntries _ _
  | entry outer done path ih => exact fun e => completable_of_close (ih _)
  | item outer done ih =>
    intro e
    refine (ih _).of_extend (.symbol .bracketClose) rfl ?_
    rw [fill_depth]
    exact Nat.le_trans (Nat.le_succ _) (Nat.le_max_left ..)

/-- A token that ends an expression leaves a draft that can be completed. -/
theorem completable_of_fill {d : Draft} {place : Context} {e : Expr} (t : Token)
    (h : d.extend t = some (place.fill e)) (hdepth : place.depth ≤ d.depth) : d.Completable := by
  refine (completable_fill place e).of_extend t h ?_
  rw [fill_depth]
  exact Nat.le_trans hdepth (Nat.le_max_left ..)

theorem completable_entries (owner : Owner) (done : List Entry) :
    (Draft.entries owner done).Completable := by
  cases owner with
  | body bindings => exact completable_bodyEntries bindings done
  | expr outer => exact completable_of_close (completable_fill outer _)

theorem completable_value (place : Context) : (Draft.value place).Completable :=
  completable_of_fill (e := .null) (.symbol .nullWord) rfl (Nat.le_refl _)

theorem completable_key (owner : Owner) (done : List Entry) (path : Path) :
    (Draft.key owner done path).Completable := by
  refine (completable_value (owner.entry done path)).of_extend (.symbol .equals) rfl ?_
  have hdepth : (owner.entry done path).depth = owner.depth := by cases owner <;> rfl
  rw [Draft.depth, hdepth]
  exact Nat.le_max_left ..

theorem completable_items (place : Context) (done : List Item) :
    (Draft.items place done).Completable :=
  completable_of_fill (.symbol .bracketClose) rfl (Nat.le_succ _)

/-- **Every draft can be completed**, as shallow as it is. -/
theorem Draft.completable (d : Draft) : d.Completable := by
  cases d with
  | start =>
    exact (completable_bodyEntries none []).of_extend (.symbol .braceOpen) rfl (Nat.le_refl 1)
  | block => exact (completable_bindings []).of_extend (.symbol .braceOpen) rfl (Nat.zero_le _)
  | bindings done => exact completable_bindings done
  | bindingName done name =>
    exact (completable_value _).of_extend (.symbol .equals) rfl (Nat.zero_le _)
  | blockEnd done => exact completable_blockEnd done
  | body bs => exact completable_body bs
  | value place => exact completable_value place
  | entries owner done => exact completable_entries owner done
  | entrySpread owner done =>
    exact (completable_entries owner _).of_extend (.input "$a") rfl (Nat.le_max_left ..)
  | key owner done path => exact completable_key owner done path
  | keyDot owner done path =>
    exact (completable_key owner done _).of_extend (.segment "a") rfl (Nat.le_max_left ..)
  | items place done => exact completable_items place done
  | itemSpread place done =>
    exact (completable_items place _).of_extend (.input "$a") rfl (Nat.le_max_left ..)
  | parts place done => exact completable_of_fill (.symbol .quote) rfl (Nat.le_refl _)
  | complete c => exact completable_complete c

/-! ## Runs that are not finished -/

theorem extendAll_append (d : Draft) (a b : List Token) :
    d.extendAll (a ++ b) = (d.extendAll a).bind fun d' => d'.extendAll b := by
  induction a generalizing d with
  | nil => rfl
  | cons t a ih => simp only [List.cons_append, Draft.extendAll, Option.bind_assoc, ih]

theorem extendAll_concat_eq_some_iff {d d' : Draft} {ts : List Token} {t : Token} :
    d.extendAll (ts ++ [t]) = some d' ↔ ∃ e, d.extendAll ts = some e ∧ e.extend t = some d' := by
  simp [extendAll_append, Option.bind_eq_some_iff, Draft.extendAll]

/-- **Beginnings of documents** are the sequences that a run of drafts reads within the limit. -/
theorem startsDocument_iff {ts : List Token} :
    StartsDocument ts ↔ ∃ d, Draft.start.extendAll ts = some d ∧ d.height ≤ nestingLimit := by
  constructor
  · rintro ⟨rest, hrest⟩
    obtain ⟨c, hc, hdepth⟩ := isDocument_iff.1 hrest
    rw [extendAll_append] at hc
    obtain ⟨d, hd, hdc⟩ := Option.bind_eq_some_iff.1 hc
    exact ⟨d, hd, Nat.le_trans (extendAll_height_le hdc) hdepth⟩
  · rintro ⟨d, hd, hheight⟩
    obtain ⟨rest, c, hrest, hdepth⟩ := d.completable
    refine ⟨rest, isDocument_iff.2 ⟨c, ?_, ?_⟩⟩
    · rw [extendAll_append, hd]
      exact hrest
    · exact Nat.le_trans hdepth (Nat.max_le.2 ⟨hheight, by decide⟩)

end ConfigLang
