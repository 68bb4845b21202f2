import ConfigLang.Binary64.Basic

/-!
# Documents

What a document says before any of its inputs has a value: an optional block of bindings, and the
entries of the object that it describes.
-/

namespace ConfigLang

/-- A key of one or more segments; every segment but the last names an object to go through. -/
structure Path where
  first : String
  rest : List String
deriving DecidableEq, Repr

/-- The segments of a key, outermost first. -/
def Path.segments (p : Path) : List String := p.first :: p.rest

/-- A key with one more segment at its end. -/
def Path.push (p : Path) (segment : String) : Path := ⟨p.first, p.rest ++ [segment]⟩

/-- A piece of a string. -/
inductive Part where
  | characters (text : String)
  | escape (c : Char)
  | input (name : String)
deriving DecidableEq, Repr

mutual

/-- An expression that denotes a value once its inputs are known. -/
inductive Expr where
  | null
  | bool (b : Bool)
  | integer (n : Int32)
  | float (x : Binary64)
  | input (name : String)
  | string (parts : List Part)
  | array (items : List Item)
  | object (entries : List Entry)

/-- An item of an array: one value, or all items of an input. -/
inductive Item where
  | value (e : Expr)
  | spread (name : String)

/-- An entry of an object: a key and its value, or all entries of an input. -/
inductive Entry where
  | pair (path : Path) (e : Expr)
  | spread (name : String)

end

/-- A name and the expression that it stands for. -/
structure Binding where
  name : String
  expr : Expr

/-- A whole document. A block without bindings differs from no block. -/
structure Document where
  bindings : Option (List Binding)
  body : List Entry

end ConfigLang
