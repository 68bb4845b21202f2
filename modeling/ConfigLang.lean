import ConfigLang.Assoc
import ConfigLang.Binary64.Basic
import ConfigLang.Binary64.Rounding
import ConfigLang.Binary64.Shortest
import ConfigLang.Binary64.Style
import ConfigLang.Command.Arguments
import ConfigLang.Command.Run
import ConfigLang.Compilation
import ConfigLang.Document.Basic
import ConfigLang.Document.Descent
import ConfigLang.Document.Draft
import ConfigLang.Document.Outline
import ConfigLang.Document.Reader
import ConfigLang.Error
import ConfigLang.Evaluation
import ConfigLang.Format
import ConfigLang.Json
import ConfigLang.Json.Reader
import ConfigLang.Lexer.BytePatterns
import ConfigLang.Lexer.Cursor
import ConfigLang.Lexer.Error
import ConfigLang.Lexer.Mode
import ConfigLang.Lexer.Run
import ConfigLang.Lexer.Scan
import ConfigLang.Main
import ConfigLang.Scope
import ConfigLang.Suggestion
import ConfigLang.Text.Blank
import ConfigLang.Text.EditDistance
import ConfigLang.Text.Excerpt
import ConfigLang.Text.Extender
import ConfigLang.Text.Hexadecimal
import ConfigLang.Text.InversionList
import ConfigLang.Text.Letter
import ConfigLang.Text.Numeral
import ConfigLang.Text.Printable
import ConfigLang.Text.Quoted
import ConfigLang.Token
import ConfigLang.Value.Access
import ConfigLang.Value.Basic
import ConfigLang.Yaml.Block
import ConfigLang.Yaml.Reading
import ConfigLang.Yaml.Scalar
import ConfigLang.Proofs.Binary64.ExactNumbers
import ConfigLang.Proofs.Binary64.NearestNumbers
import ConfigLang.Proofs.Binary64.ShortestDecimals
import ConfigLang.Proofs.Command.Compiling
import ConfigLang.Proofs.Command.Diagnosing
import ConfigLang.Proofs.Command.Effects
import ConfigLang.Proofs.Command.EvalAgreement
import ConfigLang.Proofs.Document.DepthBalance
import ConfigLang.Proofs.Document.DescentRules
import ConfigLang.Proofs.Document.DraftDescent
import ConfigLang.Proofs.Document.DraftRun
import ConfigLang.Proofs.Document.FirstFault
import ConfigLang.Proofs.Document.Flattening
import ConfigLang.Proofs.Document.ReaderExact
import ConfigLang.Proofs.Document.Viability
import ConfigLang.Proofs.Evaluation.CompiledValues
import ConfigLang.Proofs.Evaluation.DeepestValues
import ConfigLang.Proofs.Evaluation.Evaluating
import ConfigLang.Proofs.Evaluation.Independence
import ConfigLang.Proofs.Evaluation.Inlining
import ConfigLang.Proofs.Evaluation.Kinds
import ConfigLang.Proofs.Evaluation.LastWrite
import ConfigLang.Proofs.Evaluation.LiteralText
import ConfigLang.Proofs.Evaluation.Literals
import ConfigLang.Proofs.Evaluation.NestedKeys
import ConfigLang.Proofs.Evaluation.NestedUpdate
import ConfigLang.Proofs.Evaluation.PathWrites
import ConfigLang.Proofs.Evaluation.References
import ConfigLang.Proofs.Evaluation.Suggesting
import ConfigLang.Proofs.Evaluation.UndefinedInputs
import ConfigLang.Proofs.Evaluation.ValueDepth
import ConfigLang.Proofs.Evaluation.ValueShape
import ConfigLang.Proofs.Json.NumberTexts
import ConfigLang.Proofs.Json.Reading
import ConfigLang.Proofs.Lexer.BytePatterns
import ConfigLang.Proofs.Lexer.Coverage
import ConfigLang.Proofs.Lexer.Cursor
import ConfigLang.Proofs.Lexer.Declining
import ConfigLang.Proofs.Lexer.FrontEnd
import ConfigLang.Proofs.Lexer.Insertion
import ConfigLang.Proofs.Lexer.Lexable
import ConfigLang.Proofs.Lexer.Lexemes
import ConfigLang.Proofs.Lexer.ModeStack
import ConfigLang.Proofs.Lexer.ModesFollow
import ConfigLang.Proofs.Lexer.NumberLiterals
import ConfigLang.Proofs.Lexer.ReadImage
import ConfigLang.Proofs.Lexer.Refusals
import ConfigLang.Proofs.Lexer.RoundTrip
import ConfigLang.Proofs.Lexer.Scanning
import ConfigLang.Proofs.Lexer.Spelling
import ConfigLang.Proofs.Lexer.StayingPut
import ConfigLang.Proofs.Lexer.StringLiterals
import ConfigLang.Proofs.Lexer.Trivia
import ConfigLang.Proofs.Text.Blanks
import ConfigLang.Proofs.Text.DistanceRow
import ConfigLang.Proofs.Text.ShortestEdits
import ConfigLang.Proofs.Yaml.Reading
import ConfigLang.Proofs.Yaml.Scalars
import ConfigLang.Proofs.Yaml.TextEnds
import ConfigLang.Proofs.Yaml.Words
