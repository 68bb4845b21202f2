import ConfigLang.Value.Basic

/-!
# Parts of values

Looking inside a value, by its kind and along a path of keys.
-/

namespace ConfigLang.Value

/-! ## By kind -/

/-- Whether the value is null. -/
def isNull : Value → Bool
  | .null => true
  | _ => false

/-- The truth value that this is. -/
def bool? : Value → Option Bool
  | .bool b => some b
  | _ => none

/-- The integer that this is. -/
def integer? : Value → Option Int32
  | .integer n => some n
  | _ => none

/-- The floating-point number that this is. -/
def float? : Value → Option Binary64
  | .float x => some x
  | _ => none

/-- The text that this is. -/
def string? : Value → Option String
  | .string s => some s
  | _ => none

/-- The items of the array that this is. -/
def items? : Value → Option (List Value)
  | .array items => some items
  | _ => none

/-- The fields of the object that this is. -/
def fields? : Value → Option (Assoc Value)
  | .object fields => some fields
  | _ => none

/-! ## By path -/

/-- The number that a key denotes as an index of an array: decimal digits, at most one plus sign
before them, below `2 ^ 64`. -/
def index? (key : String) : Option Nat :=
  let digits := match key.toList with
    | '+' :: cs => cs
    | cs => cs
  if digits.isEmpty || !digits.all Char.isDigit then none
  else
    let n := Nat.ofDigitChars 10 digits 0
    if n < 0x10000000000000000 then some n else none

/-- The part of a value at one key. -/
def get? : Value → String → Option Value
  | .object fields, key => Assoc.get? fields key
  | .array items, key => (index? key).bind (items[·]?)
  | _, _ => none

/-- The part of a value at the end of a path. -/
def getPath? : Value → List String → Option Value
  | v, [] => some v
  | v, key :: path => (v.get? key).bind (getPath? · path)

@[simp]
theorem getPath?_nil (v : Value) : v.getPath? [] = some v := by
  cases v <;> rfl

theorem getPath?_object (fields : Assoc Value) (key : String) (path : List String) :
    getPath? (.object fields) (key :: path) = (fields.get? key).bind (getPath? · path) := rfl

theorem getPath?_append (v : Value) (q path : List String) :
    v.getPath? (q ++ path) = (v.getPath? q).bind (getPath? · path) := by
  induction q generalizing v with
  | nil => rw [List.nil_append, getPath?_nil, Option.bind_some]
  | cons key q ih =>
    rw [List.cons_append, getPath?, getPath?]
    cases v.get? key with
    | none => rfl
    | some w => exact ih w

theorem getPath?_empty {path : List String} (h : path ≠ []) :
    getPath? (.object []) path = none := by
  cases path with
  | nil => exact absurd rfl h
  | cons key path => rfl

end ConfigLang.Value
