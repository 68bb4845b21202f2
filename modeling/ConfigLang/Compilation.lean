import ConfigLang.Document.Reader
import ConfigLang.Error
import ConfigLang.Lexer.Run

/-!
# Compilation

From the text of a document to its value.
-/

namespace ConfigLang

/-- The tokens of a document. -/
def tokensOf (source : String) : Except Error (List Token) :=
  (Lexer.tokenize source).mapError .lex

/-- The document that a text writes. -/
def documentOf (source : String) : Except Error Document := do
  let tokens ← tokensOf source
  (Document.ofTokens tokens).mapError .parse

/-- The value of the document that a text writes. -/
def compile (env : Environment) (source : String) : Except Error Value := do
  let document ← documentOf source
  let fields ← (document.eval env).mapError .eval
  return .object fields

end ConfigLang
