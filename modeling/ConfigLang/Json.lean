import ConfigLang.Binary64.Style
import ConfigLang.Text.Hexadecimal
import ConfigLang.Value.Basic

/-!
# JSON

Values as JSON text, on one line or one member per line. The two layouts differ only in the white
space between the tokens.
-/

namespace ConfigLang

/-- Numbers in JSON: an exponent below `1e-5` and from `1e16` on, and always a mark of a float. -/
def FloatStyle.json : FloatStyle where
  ties := .toEven
  positional := fun lead => decide (-5 ≤ lead ∧ lead < 16)
  marksWhole := true
  signsExponent := true
  infinity := []
  nan := []

namespace Json

/-- The white space that a layout puts between tokens. -/
structure Layout where
  /-- What precedes a member or a closing bracket at a given depth. -/
  lineBreak : Nat → List Char
  /-- What stands between a key and its value. -/
  colon : List Char

/-- No white space at all. -/
def Layout.compact : Layout := ⟨fun _ => [], [':']⟩

/-- Each member on a line of its own, indented by two spaces per level. -/
def Layout.pretty : Layout := ⟨fun depth => '\n' :: List.replicate (2 * depth) ' ', [':', ' ']⟩

/-- One character of a JSON string. -/
def escapeChar : Char → List Char
  | '"' => ['\\', '"']
  | '\\' => ['\\', '\\']
  | '\x08' => ['\\', 'b']
  | '\x0c' => ['\\', 'f']
  | '\n' => ['\\', 'n']
  | '\r' => ['\\', 'r']
  | '\t' => ['\\', 't']
  | c => if c.toNat < 32 then ['\\', 'u'] ++ Text.toHexDigits false 4 c.toNat else [c]

/-- A JSON string. -/
def string (s : String) : List Char := '"' :: s.toList.flatMap escapeChar ++ ['"']

/-- A JSON number; what has no number in JSON is `null`. -/
def float (x : Binary64) : List Char :=
  if x.isFinite then FloatStyle.json.write x else ['n', 'u', 'l', 'l']

mutual

/-- The text of a value at a depth. -/
def render (layout : Layout) (depth : Nat) : Value → List Char
  | .null => ['n', 'u', 'l', 'l']
  | .bool true => ['t', 'r', 'u', 'e']
  | .bool false => ['f', 'a', 'l', 's', 'e']
  | .integer n => (toString n.toInt).toList
  | .float x => float x
  | .string s => string s
  | .array [] => ['[', ']']
  | .array (v :: vs) =>
    '[' :: layout.lineBreak (depth + 1) ++ render layout (depth + 1) v ++
      renderItems layout depth vs
  | .object [] => ['\x7b', '\x7d']
  | .object ((k, v) :: fs) =>
    '\x7b' :: layout.lineBreak (depth + 1) ++ string k ++ layout.colon ++
      render layout (depth + 1) v ++ renderFields layout depth fs

/-- The items after the first and the end of an array at a depth. -/
def renderItems (layout : Layout) (depth : Nat) : List Value → List Char
  | [] => layout.lineBreak depth ++ [']']
  | v :: vs =>
    ',' :: layout.lineBreak (depth + 1) ++ render layout (depth + 1) v ++
      renderItems layout depth vs

/-- The fields after the first and the end of an object at a depth. -/
def renderFields (layout : Layout) (depth : Nat) : List (String × Value) → List Char
  | [] => layout.lineBreak depth ++ ['\x7d']
  | (k, v) :: fs =>
    ',' :: layout.lineBreak (depth + 1) ++ string k ++ layout.colon ++
      render layout (depth + 1) v ++ renderFields layout depth fs

end

/-- A value as a whole JSON text. -/
def text (layout : Layout) (v : Value) : String := String.ofList (render layout 0 v)

end Json

end ConfigLang
