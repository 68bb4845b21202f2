import ConfigLang.Yaml.Reading

/-!
# YAML scalars

A string is written in the first style that can hold it: without quotes, in single quotes, as a
literal block when it has several lines, or in double quotes, which can hold everything.
-/

namespace ConfigLang.Yaml

/-! ## Characters -/

/-- A line break. -/
def isBreak (c : Char) : Bool :=
  c ∈ ['\r', '\n', '\x85', '\u2028', '\u2029']

/-- A space, a tab or a line break. -/
def isBlank (c : Char) : Bool := c == ' ' || c == '\t' || isBreak c

/-- What may stand for itself in a YAML text. -/
def isPrintable (c : Char) : Bool :=
  let n := c.toNat
  n == 0x0A || (0x20 ≤ n && n ≤ 0x7E) || (0xA0 ≤ n && n ≤ 0xD7FF) ||
    (0xE000 ≤ n && n ≤ 0xFFFD && n != 0xFEFF) || 0x10000 ≤ n

/-- What gives the start of a text a meaning of its own. -/
def isIndicator (c : Char) : Bool :=
  c ∈ ['#', ',', '[', ']', '\x7b', '\x7d', '&', '*', '!', '|', '>', '\'', '"', '%', '@', '\x60']

/-! ## Choosing a style -/

/-- The ways to write a string. -/
inductive Style where
  | plain
  | singleQuoted
  | doubleQuoted
  | literal
deriving DecidableEq, Repr

/-- Whether two neighbours in `s` satisfy `p` and `q`. -/
def hasPair (p q : Char → Bool) : List Char → Bool
  | c :: d :: s => (p c && q d) || hasPair p q (d :: s)
  | _ => false

/-- Whether `s` starts as something other than a plain scalar. -/
def startsOtherwise (s : List Char) : Bool :=
  s.head?.any isIndicator || ['-', '-', '-'].isPrefixOf s || ['.', '.', '.'].isPrefixOf s ||
    (s.head?.any (· ∈ ['-', '?', ':']) && s.tail.head?.all isBlank)

/-- Whether a colon in `s` would end a key, or a number sign would start a comment. -/
def hasInnerIndicator (s : List Char) : Bool :=
  hasPair (· == ':') isBlank s || s.getLast? = some ':' || hasPair isBlank (· == '#') s

/-- Whether a reader would take `s` without quotes for something other than all of `s`. -/
def isPlainUnsafe (s : List Char) : Bool :=
  startsOtherwise s || hasInnerIndicator s || s.head? = some ' ' || s.getLast? = some ' ' ||
    s.any isBreak

/-- Whether only escapes can keep `s`: it holds an unprintable character, or a space that a line
break follows. -/
def needsEscapes (s : List Char) : Bool :=
  !s.all isPrintable || hasPair (· == ' ') isBreak s

/-- The style in which `s` is written. -/
def styleOf (s : List Char) : Style :=
  if needsEscapes s then .doubleQuoted
  else if '\n' ∈ s then
    if s.getLast? = some ' ' then .doubleQuoted else .literal
  else if readsAsOther s || isPlainUnsafe s then
    if hasPair isBreak (· == ' ') s then .doubleQuoted else .singleQuoted
  else .plain

/-! ## Writing -/

/-- The spaces that start a line. -/
def indentation (width : Nat) : List Char := List.replicate width ' '

/-- The escape of a character in double quotes. -/
def escapeOf (c : Char) : List Char :=
  match c with
  | '\x00' => ['\\', '0']
  | '\x07' => ['\\', 'a']
  | '\x08' => ['\\', 'b']
  | '\t' => ['\\', 't']
  | '\n' => ['\\', 'n']
  | '\x0b' => ['\\', 'v']
  | '\x0c' => ['\\', 'f']
  | '\r' => ['\\', 'r']
  | '\x1b' => ['\\', 'e']
  | '"' => ['\\', '"']
  | '\\' => ['\\', '\\']
  | '\x85' => ['\\', 'N']
  | '\u2028' => ['\\', 'L']
  | '\u2029' => ['\\', 'P']
  | c =>
    let n := c.toNat
    if n ≤ 0xFF then ['\\', 'x'] ++ Text.toHexDigits true 2 n
    else if n ≤ 0xFFFF then ['\\', 'u'] ++ Text.toHexDigits true 4 n
    else ['\\', 'U'] ++ Text.toHexDigits true 8 n

/-- `s` in double quotes. -/
def doubleQuoted (s : List Char) : List Char :=
  let write (c : Char) : List Char :=
    if !isPrintable c || isBreak c || c == '"' || c == '\\' then escapeOf c else [c]
  '"' :: s.flatMap write ++ ['"']

/-- `s` with each line that is not empty after `width` spaces. A line break ends the line of the
character before it; `atStart` says whether a line has just begun. -/
def indentLines (width : Nat) (write : Char → List Char) :
    (atStart : Bool) → List Char → List Char
  | _, [] => []
  | atStart, c :: s =>
    if isBreak c then c :: indentLines width write true s
    else
      let text := write c ++ indentLines width write false s
      if atStart then indentation width ++ text else text

/-- `s` in single quotes, its lines after the first indented by `width`. -/
def singleQuoted (width : Nat) (s : List Char) : List Char :=
  let write (c : Char) : List Char := if c = '\'' then ['\'', '\''] else [c]
  let final := if s.getLast?.any isBreak then indentation width else []
  '\'' :: indentLines width write false s ++ final ++ ['\'']

/-- The signs after the bar of a literal block: how deep it is indented where its own first line
would hide that, and what becomes of the line breaks at its end. -/
def literalSigns (s : List Char) : List Char :=
  let start := if s.head?.any fun c => c == ' ' || isBreak c then ['2'] else []
  let ending := match s.reverse with
    | [] => ['-']
    | [c] => if isBreak c then ['+'] else ['-']
    | c :: d :: _ => if !isBreak c then ['-'] else if isBreak d then ['+'] else []
  start ++ ending

/-- `s` as a literal block whose lines are indented by `width`. -/
def literalBlock (width : Nat) (s : List Char) : List Char :=
  '|' :: literalSigns s ++ '\n' :: indentLines width (fun c => [c]) true s

/-- `s` in the style chosen for it, with further lines indented by `width`. -/
def scalar (width : Nat) (s : List Char) : List Char :=
  match styleOf s with
  | .plain => s
  | .singleQuoted => singleQuoted width s
  | .doubleQuoted => doubleQuoted s
  | .literal => literalBlock width s

/-- `s` as a line or lines that are complete: a literal block may have ended its last line. -/
def scalarLine (width : Nat) (s : List Char) : List Char :=
  if styleOf s = .literal ∧ s.getLast?.any isBreak then scalar width s
  else scalar width s ++ ['\n']

end ConfigLang.Yaml
