import ConfigLang.Value.Basic

/-!
# Scopes

The inputs bound so far, and where the others come from: a name that starts with `$_env` and is not
bound denotes a variable of the environment.
-/

namespace ConfigLang

/-- The variables of an environment. -/
abbrev Environment := String → Option String

/-- The bound inputs, by name, in the order of their first binding. -/
abbrev Scope := Assoc Value

namespace Scope

/-- What the names of variables of the environment start with. -/
def environmentMark : List Char := ['$', '_', 'e', 'n', 'v']

/-- The variable that a name denotes where it is not bound. -/
def variableOf? (name : String) : Option String :=
  match environmentMark.isPrefixOf? name.toList with
  | some (c :: cs) => some (String.ofList (c :: cs))
  | _ => none

/-- The value of an input: its binding, or else a variable of the environment. -/
def resolve? (env : Environment) (scope : Scope) (name : String) : Option Value :=
  match Assoc.get? scope name with
  | some v => some v
  | none => ((variableOf? name).bind env).map .string

end Scope

end ConfigLang
