import ConfigLang.Proofs.Lexer.FrontEnd
import ConfigLang.Proofs.Evaluation.ValueDepth

/-!
# The deepest values

The bound on the depth of compiled values is reached, for every length of keys and every number of
bindings: by towers of objects, as many as the nesting limit allows, each standing on the one bound
before it.

* `tallDocument_eval`: how deep the value of such a document is.
* `exists_deepest`: documents of every shape that reach the bound.
* `limit_times_key_times_bindings`: the bound, where it is the limit, and that it is reached.
* `dotted_key_passes_limit`: a value deeper than the limit, from a document with one pair of
  brackets.
-/

namespace ConfigLang

open Lexer (Mode)

/-! ## Towers -/

/-- A value inside objects with one field each, under the segments of a key. -/
def Value.under (v : Value) : List String → Value
  | [] => v
  | segment :: segments => .object [(segment, v.under segments)]

theorem Value.depth_under (v : Value) (segments : List String) :
    (v.under segments).depth = segments.length + v.depth := by
  induction segments with
  | nil => exact (Nat.zero_add _).symm
  | cons segment segments ih =>
    rw [Value.under, Value.depth, fieldsDepth, fieldsDepth, ih, Nat.max_zero, List.length_cons]
    omega

theorem insertAt_nil (segment : String) (rest : List String) (v : Value) :
    insertAt [] segment rest v = .ok [(segment, v.under rest)] := by
  induction rest generalizing segment with
  | nil => rfl
  | cons next rest ih =>
    rw [insertAt, Assoc.get?]
    dsimp only
    rw [ih]
    rfl

theorem eval_single (env : Environment) {scope : Scope} {e : Expr} {v : Value} (path : Path)
    (h : e.eval env scope = .ok v) :
    evalEntries env scope [] [.pair path e] = .ok [(path.first, v.under path.rest)] := by
  rw [evalEntries, Entry.eval, h]
  change Path.insert path [] v >>= _ = _
  rw [Path.insert, insertAt_nil]
  rfl

/-- An expression inside `n` objects, each with the same key. -/
def Expr.tower (path : Path) (e : Expr) : Nat → Expr
  | 0 => e
  | n + 1 => .object [.pair path (e.tower path n)]

theorem Expr.tower_eval {env : Environment} {scope : Scope} {e : Expr} {v : Value} (path : Path)
    (h : e.eval env scope = .ok v) (n : Nat) :
    ∃ w, (e.tower path n).eval env scope = .ok w ∧
      w.depth = n * path.segments.length + v.depth := by
  induction n with
  | zero => exact ⟨v, h, by omega⟩
  | succ n ih =>
    obtain ⟨w, hw, hdepth⟩ := ih
    refine ⟨w.under path.segments, ?_, ?_⟩
    · rw [Expr.tower, Expr.eval, eval_single env path hw]
      rfl
    · rw [Value.depth_under, hdepth, Nat.succ_mul]
      omega

theorem Expr.tower_shape {path : Path} {e : Expr} (hpath : path.Lexable) (he : e.Lexable)
    (hdepth : e.depth = 0) (hkey : e.longestKey ≤ path.segments.length) (n : Nat) :
    (e.tower path n).Lexable ∧ (e.tower path n).depth = n ∧
      (e.tower path n).longestKey ≤ path.segments.length := by
  induction n with
  | zero => exact ⟨he, hdepth, hkey⟩
  | succ n ih =>
    obtain ⟨hlex, hd, hk⟩ := ih
    refine ⟨⟨⟨hpath, hlex⟩, trivial⟩, ?_, ?_⟩
    · simp only [Expr.tower, Expr.depth, entriesDepth, Entry.depth, hd]
      omega
    · exact Nat.max_le.2 ⟨Nat.max_le.2 ⟨Nat.le_refl _, hk⟩, Nat.le_add_left 1 _⟩

/-- What the towers of a document stand on: the input that was bound last, if there is one. -/
def towerBase : Nat → Expr
  | 0 => .null
  | _ + 1 => .input "$x"

/-- Bindings of one name, each as deep as a document may nest and standing on the one before. -/
def towerBindings (path : Path) : Nat → List Binding
  | 0 => []
  | b + 1 => towerBindings path b ++ [⟨"$x", (towerBase b).tower path nestingLimit⟩]

/-- A document with `b` bindings in which every key is `path`, nested as deep as may be. -/
def tallDocument (path : Path) (b : Nat) : Document :=
  ⟨some (towerBindings path b), [.pair path ((towerBase b).tower path (nestingLimit - 1))]⟩

theorem towerBindings_length (path : Path) (b : Nat) : (towerBindings path b).length = b := by
  induction b with
  | zero => rfl
  | succ b ih => rw [towerBindings, List.length_append, ih, List.length_singleton]

theorem nameLexable_towerName : NameLexable "$x" := ⟨by decide, by simp⟩

theorem towerBase_shape {path : Path} (hpath : path.Lexable) (b n : Nat) :
    ((towerBase b).tower path n).Lexable ∧ ((towerBase b).tower path n).depth = n ∧
      ((towerBase b).tower path n).longestKey ≤ path.segments.length := by
  have hpos : 1 ≤ path.segments.length := Nat.le_add_left 1 _
  cases b with
  | zero => exact Expr.tower_shape (e := .null) hpath trivial rfl hpos n
  | succ b => exact Expr.tower_shape (e := .input "$x") hpath nameLexable_towerName rfl hpos n

theorem mem_towerBindings {path : Path} {b : Nat} {binding : Binding}
    (h : binding ∈ towerBindings path b) :
    ∃ b', binding = ⟨"$x", (towerBase b').tower path nestingLimit⟩ := by
  induction b with
  | zero => cases h
  | succ b ih =>
    rcases List.mem_append.1 h with h | h
    · exact ih h
    · exact ⟨b, List.mem_singleton.1 h⟩

theorem tallDocument_body (path : Path) (b : Nat) :
    Expr.object (tallDocument path b).body = (towerBase b).tower path nestingLimit := rfl

theorem tallDocument_lexable {path : Path} (hpath : path.Lexable) (b : Nat) :
    (tallDocument path b).Lexable := by
  obtain ⟨hlex, hdepth, -⟩ := towerBase_shape hpath b nestingLimit
  rw [← tallDocument_body] at hlex hdepth
  refine ⟨fun binding hb => ?_, hlex, Nat.max_le.2 ⟨?_, Nat.le_of_eq hdepth⟩⟩
  · obtain ⟨b', rfl⟩ := mem_towerBindings hb
    exact ⟨nameLexable_towerName, (towerBase_shape hpath b' nestingLimit).1⟩
  · refine deepest_le_iff.2 fun binding hb => ?_
    obtain ⟨b', rfl⟩ := mem_towerBindings hb
    exact Nat.le_of_eq (towerBase_shape hpath b' nestingLimit).2.1

theorem tallDocument_longestKey {path : Path} (hpath : path.Lexable) (b : Nat) :
    (tallDocument path b).longestKey = path.segments.length := by
  refine Nat.le_antisymm (Nat.max_le.2 ⟨deepest_le_iff.2 fun binding hb => ?_, ?_⟩) ?_
  · obtain ⟨b', rfl⟩ := mem_towerBindings hb
    exact (towerBase_shape hpath b' nestingLimit).2.2
  · exact (towerBase_shape hpath b nestingLimit).2.2
  · calc path.segments.length
        ≤ max path.segments.length ((towerBase b).tower path (nestingLimit - 1)).longestKey :=
          Nat.le_max_left _ _
      _ ≤ (Expr.object (tallDocument path b).body).longestKey := Nat.le_max_left _ _
      _ ≤ (tallDocument path b).longestKey := Nat.le_max_right _ _

/-- Each tower stands on the one bound before it. -/
theorem towerBindings_eval (env : Environment) (path : Path) (b : Nat) :
    ∃ scope v, bindAll env [] (towerBindings path b) = .ok scope ∧
      (towerBase b).eval env scope = .ok v ∧
      v.depth = b * (nestingLimit * path.segments.length) := by
  induction b with
  | zero => exact ⟨[], .null, rfl, rfl, (Nat.zero_mul _).symm⟩
  | succ b ih =>
    obtain ⟨scope, v, hscope, hv, hdepth⟩ := ih
    obtain ⟨w, hw, hwdepth⟩ := Expr.tower_eval path hv nestingLimit
    refine ⟨Assoc.insert scope "$x" w, w, ?_, ?_, ?_⟩
    · rw [towerBindings, bindAll_append]
      refine bind_eq_ok.2 ⟨scope, hscope, ?_⟩
      rw [bindAll]
      exact bind_eq_ok.2 ⟨w, hw, rfl⟩
    · rw [towerBase, Expr.eval, resolve, resolve?_insert, if_pos rfl]
    · rw [hwdepth, hdepth, Nat.succ_mul, Nat.add_comm]

theorem tallDocument_eval (env : Environment) (path : Path) (b : Nat) :
    ∃ fields, (tallDocument path b).eval env = .ok fields ∧
      (Value.object fields).depth = nestingLimit * path.segments.length * (b + 1) := by
  obtain ⟨scope, v, hscope, hv, hdepth⟩ := towerBindings_eval env path b
  obtain ⟨w, hw, hwdepth⟩ := Expr.tower_eval path hv nestingLimit
  rw [← tallDocument_body, Expr.eval] at hw
  obtain ⟨fields, hfields, hw⟩ := bind_eq_ok.1 hw
  obtain rfl := Except.ok.inj hw
  refine ⟨fields, ?_, ?_⟩
  · exact bind_eq_ok.2 ⟨scope, hscope, hfields⟩
  · rw [hwdepth, hdepth, Nat.mul_succ, Nat.mul_comm b, Nat.add_comm]

/-! ## A key of many segments -/

theorem isBareSegment_letter : IsBareSegment ['a'] :=
  ⟨by simp, List.forall_mem_singleton.2 (by decide), by simp, by decide, by simp⟩

theorem segmentLexable_letter : SegmentLexable "a" := .inr isBareSegment_letter

theorem pathLexable_letters (n : Nat) : Path.Lexable ⟨"a", List.replicate n "a"⟩ := by
  intro s hs
  obtain rfl : s = "a" := by
    rcases List.mem_cons.1 hs with h | h
    · exact h
    · exact List.eq_of_mem_replicate h
  exact segmentLexable_letter

/-- The text of an object with one key of `n + 1` segments. -/
def dottedText (n : Nat) : List Char :=
  ['\x7b', ' ', 'a', ' '] ++ ((List.replicate n ['.', ' ', 'a', ' ']).flatten ++
    ['=', ' ', 'n', 'u', 'l', 'l', ' ', '\x7d'])

/-- The document with that text. -/
def dottedDocument (n : Nat) : Document := ⟨none, [.pair ⟨"a", List.replicate n "a"⟩ .null]⟩

theorem writes_dotted {modes : List Mode} (hm : ¬ InString modes)
    {steps : List (Token × List Mode)} {rest : List Char} (hr : Writes steps rest) (n : Nat) :
    Writes
      (keeping modes ((List.replicate n "a").flatMap fun s => [.symbol .dot, .segment s]) ++ steps)
      ((List.replicate n ['.', ' ', 'a', ' ']).flatten ++ rest) := by
  induction n with
  | zero => exact hr
  | succ n ih =>
    have hsegment : Writes _ _ := .between (t := .segment "a") (.bare isBareSegment_letter) hm
      isGap_space (by simp) ih
    have hdot : Writes _ _ := .between (.symbol .dot) hm isGap_space (by simp) hsegment
    exact hdot

theorem dottedDocument_isWrittenAs (n : Nat) :
    (dottedDocument n).IsWrittenAs (dottedText n) := by
  have hobject : ¬ InString [.object, .topLevel] := by simp [InString]
  have hvalue : ¬ InString [.value, .object, .topLevel] := by simp [InString]
  have htop : ¬ InString [.topLevel] := by simp [InString]
  have hclose : Writes [(.symbol .braceClose, [.topLevel])] ['\x7d'] :=
    .between (.symbol .braceClose) htop isGap_nil (fun _ => rfl) .nil
  have hnull : Writes _ _ := .between (.symbol .nullWord) hobject isGap_space (by simp) hclose
  have hequals : Writes _ _ := .between (.symbol .equals) hvalue isGap_space (by simp) hnull
  have hsegments := writes_dotted hobject hequals n
  have hkey : Writes _ _ := .between (t := .segment "a") (.bare isBareSegment_letter) hobject
    isGap_space (by simp) hsegments
  have hopen : Writes _ _ := .between (.symbol .braceOpen) hobject isGap_space (by simp) hkey
  have htrace : (dottedDocument n).trace = (.symbol .braceOpen, [.object, .topLevel]) ::
      (.segment "a", [.object, .topLevel]) ::
        (keeping [.object, .topLevel]
            ((List.replicate n "a").flatMap fun s => [.symbol .dot, .segment s]) ++
          [(.symbol .equals, [.value, .object, .topLevel]),
            (.symbol .nullWord, [.object, .topLevel]), (.symbol .braceClose, [.topLevel])]) := by
    simp [dottedDocument, Document.trace, blockTrace, Expr.trace, entriesTrace, Entry.trace,
      Path.tokens, keeping, Expr.tokens]
  refine ⟨[], dottedText n, rfl, isGap_nil, ?_⟩
  rw [htrace]
  exact hopen

theorem dottedDocument_lexable (n : Nat) : (dottedDocument n).Lexable := by
  refine ⟨by simp [dottedDocument], ⟨⟨pathLexable_letters n, trivial⟩, trivial⟩, ?_⟩
  simp [dottedDocument, Document.depth, Expr.depth, entriesDepth, Entry.depth, nestingLimit]

/-- Each segment of a key nests its value by one. -/
theorem compile_dottedText (env : Environment) (n : Nat) :
    compile env (String.ofList (dottedText n)) =
      .ok (.object [("a", Value.null.under (List.replicate n "a"))]) :=
  compile_of_documentOf
    (documentOf_of_isWrittenAs (dottedDocument_lexable n) (dottedDocument_isWrittenAs n))
    (eval_single env _ rfl)

theorem depth_dotted (n : Nat) :
    (Value.object [("a", Value.null.under (List.replicate n "a"))]).depth = n + 1 := by
  simp [Value.depth, fieldsDepth, Value.depth_under]

/-! ## Both sides of the bound -/

/-- For every length of keys and every number of bindings there is a document whose value is as deep
as the bound. -/
theorem exists_deepest (env : Environment) (k b : Nat) :
    ∃ source c v, documentOf source = .ok c ∧ c.longestKey = k + 1 ∧ c.bindingList.length = b ∧
      compile env source = .ok v ∧ v.depth = nestingLimit * (k + 1) * (b + 1) := by
  let path : Path := ⟨"a", List.replicate k "a"⟩
  have hlength : path.segments.length = k + 1 := by simp [path, Path.segments]
  have hpath : path.Lexable := pathLexable_letters k
  have hlex := tallDocument_lexable hpath b
  obtain ⟨text, htext⟩ := exists_isWrittenAs hlex
  have hc := documentOf_of_isWrittenAs hlex htext
  obtain ⟨fields, hfields, hdepth⟩ := tallDocument_eval env path b
  refine ⟨_, _, _, hc, ?_, towerBindings_length path b, compile_of_documentOf hc hfields, ?_⟩
  · rw [tallDocument_longestKey hpath, hlength]
  · rw [hdepth, hlength]

/-- **How far the nesting limit reaches.** A compiled value nests at most as deep as the limit times
the number of segments in the longest key times the number of bindings and one. So it keeps to the
limit where the document has no bindings and its keys have one segment. No smaller bound holds of
documents with keys of the same length and as many bindings. -/
theorem limit_times_key_times_bindings {env : Environment} {source : String} {v : Value}
    (hv : compile env source = .ok v) :
    ∃ c, documentOf source = .ok c ∧
      v.depth ≤ nestingLimit * c.longestKey * (c.bindingList.length + 1) ∧
      (c.longestKey = 1 → c.bindingList = [] → v.depth ≤ nestingLimit) ∧
      ∃ source' c' v', documentOf source' = .ok c' ∧ c'.longestKey = c.longestKey ∧
        c'.bindingList.length = c.bindingList.length ∧ compile env source' = .ok v' ∧
          v'.depth = nestingLimit * c.longestKey * (c.bindingList.length + 1) := by
  obtain ⟨c, -, hc, -, -⟩ := compile_eq_ok_iff.1 hv
  have hle := compile_depth_le hc hv
  refine ⟨c, hc, hle, fun hkey hbindings => ?_, ?_⟩
  · simpa [hkey, hbindings] using hle
  · obtain ⟨k, hk⟩ := Nat.exists_eq_add_one.2 c.longestKey_pos
    rw [hk]
    exact exists_deepest env k c.bindingList.length

/-- A key of two segments doubles the bound. -/
theorem limit_times_key_times_bindings_of_two_segments :
    compile (fun _ => none) (String.ofList (dottedText 1)) =
        .ok (.object [("a", Value.null.under ["a"])]) ∧
      ∃ c, documentOf (String.ofList (dottedText 1)) = .ok c ∧
        (Value.object [("a", Value.null.under ["a"])]).depth ≤
          nestingLimit * c.longestKey * (c.bindingList.length + 1) := by
  have hv := compile_dottedText (fun _ => none) 1
  obtain ⟨c, hc, hle, -⟩ := limit_times_key_times_bindings hv
  exact ⟨hv, c, hc, hle⟩

/-- **A value deeper than the limit.** One pair of brackets and a key of 129 segments nest it. -/
theorem dotted_key_passes_limit :
    compile (fun _ => none) (String.ofList (dottedText 128)) =
        .ok (.object [("a", Value.null.under (List.replicate 128 "a"))]) ∧
      nestingLimit < (Value.object [("a", Value.null.under (List.replicate 128 "a"))]).depth := by
  refine ⟨compile_dottedText _ 128, ?_⟩
  rw [depth_dotted]
  exact Nat.lt_succ_self 128

end ConfigLang
