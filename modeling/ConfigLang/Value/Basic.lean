import ConfigLang.Assoc
import ConfigLang.Binary64.Basic

/-!
# Values

What a document evaluates to.
-/

namespace ConfigLang

/-- The kinds of values. -/
inductive Kind where
  | null
  | bool
  | integer
  | float
  | string
  | array
  | object
deriving DecidableEq, Repr

/-- How messages name a kind. -/
def Kind.name : Kind → String
  | .null => "null"
  | .bool => "bool"
  | .integer => "int"
  | .float => "float"
  | .string => "string"
  | .array => "array"
  | .object => "object"

/-- A value; the fields of an object are in the order in which their keys were first written. -/
inductive Value where
  | null
  | bool (b : Bool)
  | integer (n : Int32)
  | float (x : Binary64)
  | string (s : String)
  | array (items : List Value)
  | object (fields : List (String × Value))
deriving Repr, Inhabited

namespace Value

/-- The kind of a value. -/
def kind : Value → Kind
  | .null => .null
  | .bool _ => .bool
  | .integer _ => .integer
  | .float _ => .float
  | .string _ => .string
  | .array _ => .array
  | .object _ => .object

end Value

end ConfigLang
