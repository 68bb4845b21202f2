import ConfigLang.Binary64.Style
import ConfigLang.Document.Basic
import ConfigLang.Text.Quoted

/-!
# Outlines of documents

A document shown as an indented tree with one node or field per line, for readers who want to see
how it was read.
-/

namespace ConfigLang

/-- Numbers in outlines: an exponent below `1e-4` and from `1e16` on, and always a mark of a
float. -/
def FloatStyle.outline : FloatStyle where
  ties := .up
  positional := fun lead => decide (-4 ≤ lead ∧ lead < 16)
  marksWhole := true
  signsExponent := false
  infinity := ['i', 'n', 'f']
  nan := ['N', 'a', 'N']

/-- A tree of named nodes. -/
inductive Outline where
  | word (text : List Char)
  | wrapped (name : String) (inner : Outline)
  | list (items : List Outline)
  | fields (name : String) (members : List (String × Outline))

namespace Outline

/-! ## Text -/

/-- The start of a line at a depth. -/
def indentation (depth : Nat) : List Char := List.replicate (4 * depth) ' '

mutual

/-- The text of a tree whose first line is at a depth. -/
def render (depth : Nat) : Outline → List Char
  | .word text => text
  | .wrapped name inner =>
    name.toList ++ ['(', '\n'] ++ indentation (depth + 1) ++ render (depth + 1) inner ++
      [',', '\n'] ++ indentation depth ++ [')']
  | .list [] => ['[', ']']
  | .list (item :: items) =>
    ['[', '\n'] ++ renderItems depth (item :: items) ++ indentation depth ++ [']']
  | .fields name members =>
    name.toList ++ [' ', '\x7b', '\n'] ++ renderMembers depth members ++ indentation depth ++
      ['\x7d']

/-- One line or more for each item of a list at a depth. -/
def renderItems (depth : Nat) : List Outline → List Char
  | [] => []
  | item :: items =>
    indentation (depth + 1) ++ render (depth + 1) item ++ [',', '\n'] ++ renderItems depth items

/-- One line or more for each member of a node at a depth. -/
def renderMembers (depth : Nat) : List (String × Outline) → List Char
  | [] => []
  | (name, member) :: members =>
    indentation (depth + 1) ++ name.toList ++ [':', ' '] ++ render (depth + 1) member ++
      [',', '\n'] ++ renderMembers depth members

end

/-! ## Documents -/

/-- A text between double quotes. -/
def ofText (s : String) : Outline := .word (Text.quoted s.toList)

/-- The outline of a key. -/
def ofPath (p : Path) : Outline := .fields "Path" [("segments", .list (p.segments.map ofText))]

/-- The outline of a spread. -/
def ofSpread (name : String) : Outline :=
  .wrapped "Spread" (.fields "Spread" [("name", ofText name)])

/-- The outline of a piece of a string. -/
def ofPart : Part → Outline
  | .characters text => .wrapped "CharSequence" (ofText text)
  | .escape c => .wrapped "CharEscape" (.word (Text.quotedChar c))
  | .input name => .wrapped "Input" (ofText name)

/-- A truth value. -/
def ofBool (b : Bool) : Outline := .word (toString b).toList

/-- An object around the outlines of its entries. -/
def ofObject (entries : List Outline) : Outline := .fields "ObjectRule" [("rules", .list entries)]

mutual

/-- The outline of an expression. -/
def ofExpr : Expr → Outline
  | .null => .word "Null".toList
  | .bool b => .wrapped "Boolean" (ofBool b)
  | .integer n => .wrapped "Integer" (.word (toString n.toInt).toList)
  | .float x => .wrapped "Float" (.word (FloatStyle.outline.write x))
  | .input name => .wrapped "Input" (ofText name)
  | .string parts =>
    .wrapped "String" (.fields "StringRule" [("parts", .list (parts.map ofPart))])
  | .array items => .wrapped "Array" (.fields "ArrayRule" [("rules", .list (ofItems items))])
  | .object entries => .wrapped "Object" (ofObject (ofEntries entries))

/-- The outlines of the items of an array. -/
def ofItems : List Item → List Outline
  | [] => []
  | item :: items => ofItem item :: ofItems items

/-- The outline of an item of an array. -/
def ofItem : Item → Outline
  | .value e => .wrapped "Value" (ofExpr e)
  | .spread name => ofSpread name

/-- The outlines of the entries of an object. -/
def ofEntries : List Entry → List Outline
  | [] => []
  | entry :: entries => ofEntry entry :: ofEntries entries

/-- The outline of an entry of an object. -/
def ofEntry : Entry → Outline
  | .pair path e =>
    .wrapped "Pair" (.fields "Pair" [("path", ofPath path), ("value", ofExpr e)])
  | .spread name => ofSpread name

end

/-- The outline of a binding. -/
def ofBinding (b : Binding) : Outline :=
  .fields "Assignment" [("name", ofText b.name), ("value", ofExpr b.expr)]

/-- The outline of a block of bindings, or the mark of its absence. -/
def ofBindings : Option (List Binding) → Outline
  | none => .word "None".toList
  | some bindings =>
    .wrapped "Some" (.fields "AssignBlock" [("assignments", .list (bindings.map ofBinding))])

/-- The outline of a document. -/
def ofDocument (d : Document) : Outline :=
  .fields "Config"
    [("assign_block", ofBindings d.bindings), ("value", ofObject (ofEntries d.body))]

end Outline

/-- The outline of a document as text. -/
def Document.outline (d : Document) : String := String.ofList ((Outline.ofDocument d).render 0)

end ConfigLang
