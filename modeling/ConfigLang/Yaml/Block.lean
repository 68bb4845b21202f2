import ConfigLang.Binary64.Style
import ConfigLang.Value.Basic
import ConfigLang.Yaml.Scalar

/-!
# YAML in block style

Values as YAML text. Each item of an array follows a dash, and each field of an object takes a line;
a nested object is indented by two, an array inside an object is not. Behind a dash a nested
collection starts on the same line.
-/

namespace ConfigLang

/-- Numbers in YAML: an exponent below `1e-5` and from `1e16` on, and always a mark of a float. -/
def FloatStyle.yaml : FloatStyle where
  ties := .toEven
  positional := fun lead => decide (-5 ≤ lead ∧ lead < 16)
  marksWhole := true
  signsExponent := false
  infinity := ['.', 'i', 'n', 'f']
  nan := ['.', 'n', 'a', 'n']

namespace Yaml

/-- The size in bytes above which a key is not written on the line of its colon. -/
def simpleKeyLimit : Nat := 128

/-- Whether a key is written on the line of its colon. -/
def isSimpleKey (key : String) : Bool :=
  decide (key.utf8ByteSize ≤ simpleKeyLimit) && !key.toList.any isBreak

/-- The text of a value that is no collection, or an empty one, with the end of its line. -/
def leaf (width : Nat) : Value → List Char
  | .null => ['n', 'u', 'l', 'l', '\n']
  | .bool true => ['t', 'r', 'u', 'e', '\n']
  | .bool false => ['f', 'a', 'l', 's', 'e', '\n']
  | .integer n => (toString n.toInt).toList ++ ['\n']
  | .float x => FloatStyle.yaml.write x ++ ['\n']
  | .string s => scalarLine width s.toList
  | .array _ => ['[', ']', '\n']
  | .object _ => ['\x7b', '\x7d', '\n']

mutual

/-- A value behind a dash, or behind the colon of a key on lines of its own, of a collection
indented by `width`. -/
def afterDash (width : Nat) : Value → List Char
  | .array (v :: vs) => renderItems [' '] (width + 2) (v :: vs)
  | .object (f :: fs) => renderFields [' '] (width + 2) (f :: fs)
  | v => ' ' :: leaf (width + 2) v

/-- A value behind the colon of a key on the same line, of an object indented by `width`. -/
def afterKey (width : Nat) : Value → List Char
  | .array (v :: vs) => renderItems ('\n' :: indentation width) width (v :: vs)
  | .object (f :: fs) => renderFields ('\n' :: indentation (width + 2)) (width + 2) (f :: fs)
  | v => ' ' :: leaf (width + 2) v

/-- The items of an array indented by `width`; `lead` stands before the first dash. -/
def renderItems (lead : List Char) (width : Nat) : List Value → List Char
  | [] => []
  | v :: vs => lead ++ '-' :: afterDash width v ++ renderItems (indentation width) width vs

/-- The fields of an object indented by `width`; `lead` stands before the first key. -/
def renderFields (lead : List Char) (width : Nat) : List (String × Value) → List Char
  | [] => []
  | (k, v) :: fs =>
    let field :=
      if isSimpleKey k then scalar (width + 2) k.toList ++ ':' :: afterKey width v
      else
        '?' :: ' ' :: scalarLine (width + 2) k.toList ++ indentation width ++
          ':' :: afterDash width v
    lead ++ field ++ renderFields (indentation width) width fs

end

/-- A value as the only value of a YAML text. -/
def render : Value → List Char
  | .array (v :: vs) => renderItems [] 0 (v :: vs)
  | .object (f :: fs) => renderFields [] 0 (f :: fs)
  | v => leaf 2 v

/-- A value as a whole YAML text. -/
def text (v : Value) : String := String.ofList (render v)

end Yaml

end ConfigLang
