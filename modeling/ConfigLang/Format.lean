import ConfigLang.Json
import ConfigLang.Yaml.Block

/-!
# Output formats
-/

namespace ConfigLang

/-- The formats in which a value can be written. -/
inductive Format where
  | json
  | jsonPretty
  | yaml
deriving DecidableEq, Repr

namespace Format

/-- The format with the given name. Letter case is of no account; no letter outside ASCII has a
lowercase form that these names contain. -/
def ofName? (name : String) : Option Format :=
  match name.toLower with
  | "json" => some .json
  | "json-pretty" => some .jsonPretty
  | "jsonpretty" => some .jsonPretty
  | "yaml" => some .yaml
  | "yml" => some .yaml
  | _ => none

/-- The format of files with the given extension. -/
def ofExtension? (extension : String) : Option Format :=
  match extension.toLower with
  | "json" => some .jsonPretty
  | "yaml" => some .yaml
  | "yml" => some .yaml
  | _ => none

/-- A value written in a format. -/
def render : Format → Value → String
  | .json, v => Json.text .compact v
  | .jsonPretty, v => Json.text .pretty v
  | .yaml, v => Yaml.text v

end Format

end ConfigLang
