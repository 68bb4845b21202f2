import ConfigLang.Document.Basic
import ConfigLang.Scope
import ConfigLang.Suggestion

/-!
# Evaluation

The value of a document. Bindings take effect in order, each visible to those after it; the entries
of an object are written one after another, and a later write wins.
-/

namespace ConfigLang

/-- Why an expression has no value. -/
inductive EvalError where
  /-- The input is not bound; with the names that are. -/
  | undefinedInput (name : String) (bound : List String)
  /-- A key goes through a segment that holds something other than an object. -/
  | chainedNonObject (segment : String) (found : Kind)
  | spreadNonObject (name : String) (found : Kind)
  | spreadNonArray (name : String) (found : Kind)
  | interpolatedNonString (name : String) (found : Kind)
deriving DecidableEq, Repr

/-! ## Writing at a path -/

/-- The fields with `value` written at a key of one or more segments. Objects on the way are
entered, or made where nothing stands yet. -/
def insertAt (fields : Assoc Value) (segment : String) :
    List String → Value → Except EvalError (Assoc Value)
  | [], value => .ok (fields.insert segment value)
  | next :: rest, value =>
    match fields.get? segment with
    | none => do
      let child ← insertAt [] next rest value
      return fields.insert segment (.object child)
    | some (.object child) => do
      let child ← insertAt child next rest value
      return fields.insert segment (.object child)
    | some other => .error (.chainedNonObject segment other.kind)

/-- The fields with `value` written at `path`. -/
def Path.insert (path : Path) (fields : Assoc Value) (value : Value) :
    Except EvalError (Assoc Value) :=
  insertAt fields path.first path.rest value

/-! ### In place

A write can also change the fields on its way down, before it knows that it will not fail. -/

/-- The fields with a slot at a segment, and what the slot holds: a new object where there was no
slot. -/
def slotAt (fields : Assoc Value) (segment : String) : Assoc Value × Value :=
  match fields.get? segment with
  | some v => (fields, v)
  | none => (fields.insert segment (.object []), .object [])

/-- Writes at a key of one or more segments by changing the fields on the way. A walk that fails
leaves what it has changed so far. -/
def insertInPlace (segment : String) :
    List String → Value → Assoc Value → EStateM.Result EvalError (Assoc Value) Unit
  | [], value, fields => .ok () (fields.insert segment value)
  | next :: rest, value, fields =>
    match slotAt fields segment with
    | (opened, .object child) =>
      match insertInPlace next rest value child with
      | .ok _ child => .ok () (opened.insert segment (.object child))
      | .error e child => .error e (opened.insert segment (.object child))
    | (opened, other) => .error (.chainedNonObject segment other.kind) opened

/-- Writes at `path` in place. -/
def Path.insertInPlace (path : Path) (value : Value) (fields : Assoc Value) :
    EStateM.Result EvalError (Assoc Value) Unit :=
  ConfigLang.insertInPlace path.first path.rest value fields

/-! ## Inputs -/

/-- The value of an input. -/
def resolve (env : Environment) (scope : Scope) (name : String) : Except EvalError Value :=
  match Scope.resolve? env scope name with
  | some v => .ok v
  | none => .error (.undefinedInput name (Assoc.keys scope))

/-- The fields of an input that is spread into an object. -/
def resolveFields (env : Environment) (scope : Scope) (name : String) :
    Except EvalError (Assoc Value) := do
  match ← resolve env scope name with
  | .object fields => return fields
  | other => throw (.spreadNonObject name other.kind)

/-- The items of an input that is spread into an array. -/
def resolveItems (env : Environment) (scope : Scope) (name : String) :
    Except EvalError (List Value) := do
  match ← resolve env scope name with
  | .array items => return items
  | other => throw (.spreadNonArray name other.kind)

/-- The text of an input inside a string. -/
def resolveText (env : Environment) (scope : Scope) (name : String) : Except EvalError String := do
  match ← resolve env scope name with
  | .string s => return s
  | other => throw (.interpolatedNonString name other.kind)

/-! ## Expressions -/

/-- The text of one piece of a string. -/
def Part.eval (env : Environment) (scope : Scope) : Part → Except EvalError String
  | .characters text => .ok text
  | .escape c => .ok (String.singleton c)
  | .input name => resolveText env scope name

/-- The text of the pieces of a string. -/
def evalParts (env : Environment) (scope : Scope) : List Part → Except EvalError String
  | [] => .ok ""
  | part :: parts => do
    let text ← part.eval env scope
    return text ++ (← evalParts env scope parts)

mutual

/-- The value of an expression. -/
def Expr.eval (env : Environment) (scope : Scope) : Expr → Except EvalError Value
  | .null => .ok .null
  | .bool b => .ok (.bool b)
  | .integer n => .ok (.integer n)
  | .float x => .ok (.float x)
  | .input name => resolve env scope name
  | .string parts => do return .string (← evalParts env scope parts)
  | .array items => do return .array (← evalItems env scope items)
  | .object entries => do return .object (← evalEntries env scope [] entries)

/-- The items of an array. -/
def evalItems (env : Environment) (scope : Scope) : List Item → Except EvalError (List Value)
  | [] => .ok []
  | item :: items => do
    let values ← item.eval env scope
    return values ++ (← evalItems env scope items)

/-- What one item adds to an array. -/
def Item.eval (env : Environment) (scope : Scope) : Item → Except EvalError (List Value)
  | .value e => do return [← e.eval env scope]
  | .spread name => resolveItems env scope name

/-- The fields of an object after further entries. -/
def evalEntries (env : Environment) (scope : Scope) (fields : Assoc Value) :
    List Entry → Except EvalError (Assoc Value)
  | [] => .ok fields
  | entry :: entries => do evalEntries env scope (← entry.eval env scope fields) entries

/-- The fields of an object after one more entry. -/
def Entry.eval (env : Environment) (scope : Scope) (fields : Assoc Value) :
    Entry → Except EvalError (Assoc Value)
  | .pair path e => do path.insert fields (← e.eval env scope)
  | .spread name => do return fields.insertAll (← resolveFields env scope name)

end

/-! ## Documents -/

/-- The scope after further bindings. -/
def bindAll (env : Environment) (scope : Scope) : List Binding → Except EvalError Scope
  | [] => .ok scope
  | binding :: bindings => do
    let value ← binding.expr.eval env scope
    bindAll env (Assoc.insert scope binding.name value) bindings

/-- The fields of the object that a document describes. -/
def Document.eval (env : Environment) (document : Document) : Except EvalError (Assoc Value) := do
  let scope ← bindAll env [] (document.bindings.getD [])
  evalEntries env scope [] document.body

/-! ## Messages -/

namespace EvalError

/-- The error in words. -/
def message : EvalError → String
  | .undefinedInput name _ => "input not found: " ++ name
  | .chainedNonObject segment found =>
    "attempted key-chaining on non-object type: '" ++ segment ++ "' is " ++ found.name
  | .spreadNonObject name found =>
    "attempted to spread non-object input into object: " ++ name ++ " is " ++ found.name
  | .spreadNonArray name found =>
    "attempted to spread non-array input into array: " ++ name ++ " is " ++ found.name
  | .interpolatedNonString name found =>
    "attempted to interpolate non-string input into string: " ++ name ++ " is " ++ found.name

/-- The number of the error in the language's list of diagnostics. -/
def code : EvalError → String
  | .undefinedInput .. => "E0201"
  | .chainedNonObject .. => "E0202"
  | .spreadNonObject .. => "E0203"
  | .spreadNonArray .. => "E0204"
  | .interpolatedNonString .. => "E0205"

/-- Advice that goes with the error. -/
def help? : EvalError → Option String
  | .undefinedInput name bound =>
    match Scope.variableOf? name with
    | some v => some ("environment variable '" ++ v ++ "' is not set")
    | none => some (Suggestion.forUnbound name bound)
  | .chainedNonObject .. => some "a key cannot hold both a value and nested keys"
  | .spreadNonObject .. | .spreadNonArray .. => none
  | .interpolatedNonString .. => some "only string inputs can be interpolated"

end EvalError

end ConfigLang
