import ConfigLang.Lexer.Scan
import ConfigLang.Proofs.Evaluation.ValueShape

/-!
# Values as expressions

Every value is that of an expression without inputs, its literal. Where the objects of the value
have distinct keys, the literal evaluates back to it, in any scope and any environment
(`Value.eval_literal`).
-/

namespace ConfigLang

/-! ## Literals -/

/-- A character in front of the pieces of a string, in one run with the characters there. -/
def prependCharacter (c : Char) : List Part → List Part
  | .characters text :: parts => .characters (String.ofList (c :: text.toList)) :: parts
  | parts => .characters (String.ofList [c]) :: parts

/-- The pieces of a string with a given text: characters with a meaning of their own are escaped,
the others stand in runs. -/
def literalParts : List Char → List Part
  | [] => []
  | c :: cs =>
    if Lexer.isPlainChar c then prependCharacter c (literalParts cs)
    else .escape c :: literalParts cs

mutual

/-- The expression that writes a value out. -/
def Value.literal : Value → Expr
  | .null => .null
  | .bool b => .bool b
  | .integer n => .integer n
  | .float x => .float x
  | .string s => .string (literalParts s.toList)
  | .array items => .array (literalItems items)
  | .object fields => .object (literalEntries fields)

def literalItems : List Value → List Item
  | [] => []
  | v :: vs => .value v.literal :: literalItems vs

/-- One entry for each field, with a key of one segment. -/
def literalEntries : List (String × Value) → List Entry
  | [] => []
  | (key, v) :: fields => .pair ⟨key, []⟩ v.literal :: literalEntries fields

end

/-! ## Their values -/

section
variable (env : Environment) (scope : Scope)

theorem evalParts_prependCharacter {c : Char} {cs : List Char} {parts : List Part}
    (h : evalParts env scope parts = .ok (String.ofList cs)) :
    evalParts env scope (prependCharacter c parts) = .ok (String.ofList (c :: cs)) := by
  unfold prependCharacter
  split
  · rename_i text parts
    obtain ⟨text', htext, h⟩ := bind_eq_ok.1 h
    obtain rfl : text = text' := Except.ok.inj htext
    obtain ⟨rest, hrest, h⟩ := bind_eq_ok.1 h
    have hcs : text ++ rest = String.ofList cs := Except.ok.inj h
    rw [evalParts, hrest]
    refine congrArg Except.ok (String.toList_inj.1 ?_)
    rw [String.toList_append, String.toList_ofList, String.toList_ofList, List.cons_append,
      ← String.toList_append, hcs, String.toList_ofList]
  · rw [evalParts, h]
    refine congrArg Except.ok (String.toList_inj.1 ?_)
    rw [String.toList_append, String.toList_ofList, String.toList_ofList, String.toList_ofList,
      List.singleton_append]

theorem evalParts_literalParts (cs : List Char) :
    evalParts env scope (literalParts cs) = .ok (String.ofList cs) := by
  induction cs with
  | nil => rfl
  | cons c cs ih =>
    rw [literalParts]
    split
    · exact evalParts_prependCharacter env scope ih
    · rw [evalParts, ih]
      refine congrArg Except.ok (String.toList_inj.1 ?_)
      rw [String.toList_append, String.toList_singleton, String.toList_ofList,
        String.toList_ofList, List.singleton_append]

mutual

theorem Value.eval_literal : ∀ {v : Value}, v.HasDistinctKeys → v.literal.eval env scope = .ok v
  | .null, _ | .bool _, _ | .integer _, _ | .float _, _ => rfl
  | .string s, _ => by
    rw [Value.literal, Expr.eval, evalParts_literalParts, String.ofList_toList]
    rfl
  | .array items, h => by
    rw [Value.literal, Expr.eval, evalItems_literalItems (hasDistinctKeys_array.1 h)]
    rfl
  | .object fields, h => by
    obtain ⟨hkeys, hfields⟩ := hasDistinctKeys_object.1 h
    rw [Value.literal, Expr.eval, evalEntries_literalEntries [] hfields,
      Assoc.insertAll_of_nodup (by exact hkeys)]
    rfl

theorem evalItems_literalItems : ∀ {items : List Value}, (∀ v ∈ items, v.HasDistinctKeys) →
    evalItems env scope (literalItems items) = .ok items
  | [], _ => rfl
  | v :: vs, h => by
    obtain ⟨hv, hvs⟩ := List.forall_mem_cons.1 h
    rw [literalItems, evalItems, Item.eval, v.eval_literal hv, evalItems_literalItems hvs]
    rfl

theorem evalEntries_literalEntries (fields : Assoc Value) :
    ∀ {source : List (String × Value)}, (∀ field ∈ source, field.2.HasDistinctKeys) →
      evalEntries env scope fields (literalEntries source) = .ok (fields.insertAll source)
  | [], _ => rfl
  | (key, v) :: source, h => by
    obtain ⟨hv, hsource⟩ := List.forall_mem_cons.1 h
    rw [literalEntries, evalEntries, Entry.eval, v.eval_literal hv]
    exact evalEntries_literalEntries (fields.insert key v) hsource

end

end

end ConfigLang
