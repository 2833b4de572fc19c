import NimTemplate.CommandLine
import NimTemplate.CommandLine.FileError
import NimTemplate.Compile
import NimTemplate.Compile.Attributes
import NimTemplate.Compile.Emission
import NimTemplate.Compile.Error
import NimTemplate.Compile.Filter
import NimTemplate.Compile.MixinTable
import NimTemplate.Compile.State
import NimTemplate.Decimal.Basic
import NimTemplate.Decimal.Double
import NimTemplate.Decimal.Reader
import NimTemplate.Decimal.Shortest
import NimTemplate.Expr.Basic
import NimTemplate.Expr.Error
import NimTemplate.Expr.Eval
import NimTemplate.Expr.Parser
import NimTemplate.Expr.Token
import NimTemplate.Expr.Token.Lexer
import NimTemplate.Json.Basic
import NimTemplate.Json.Reader
import NimTemplate.Main
import NimTemplate.Markup.Attribute
import NimTemplate.Markup.Dialect
import NimTemplate.Nim.Quotes
import NimTemplate.Nim.Conditional
import NimTemplate.Nim.Draft
import NimTemplate.Nim.Procedure
import NimTemplate.Nim.Statement
import NimTemplate.Template.Interpolation
import NimTemplate.Template.Kind
import NimTemplate.Template.Node
import NimTemplate.Template.Reader
import NimTemplate.Text.Basic
import NimTemplate.Text.Letter
import NimTemplate.Value.Basic
import NimTemplate.Value.Json
import NimTemplate.Value.Number
import NimTemplate.Value.Operators
import NimTemplate.Proofs.Basic
import NimTemplate.Proofs.Pieces
import NimTemplate.Proofs.Coalescing
import NimTemplate.Proofs.Buffer
import NimTemplate.Proofs.Plan
import NimTemplate.Proofs.Walk
import NimTemplate.Proofs.StraightLine
import NimTemplate.Proofs.Visits
import NimTemplate.Proofs.UnusedMixins
import NimTemplate.Proofs.Folding
import NimTemplate.Proofs.Indentation
import NimTemplate.Proofs.Route
import NimTemplate.Proofs.FirstFault
import NimTemplate.Proofs.Filling
import NimTemplate.Proofs.Events
import NimTemplate.Proofs.Balance
import NimTemplate.Proofs.BlockBodies
import NimTemplate.Proofs.Skeleton
import NimTemplate.Proofs.FoldingControl
import NimTemplate.Proofs.Reading
import NimTemplate.Proofs.Grammar
import NimTemplate.Proofs.Parsing
import NimTemplate.Proofs.Lexing
import NimTemplate.Proofs.EvaluationOrder
import NimTemplate.Proofs.Constancy
import NimTemplate.Proofs.Braces
import NimTemplate.Proofs.Splitting
import NimTemplate.Proofs.Embedding
import NimTemplate.Proofs.Height
import NimTemplate.Proofs.Identifiers
import NimTemplate.Proofs.Literals
import NimTemplate.Proofs.Products
import NimTemplate.Proofs.JsonNumbers
import NimTemplate.Proofs.JsonText
import NimTemplate.Proofs.ValueText
import NimTemplate.Proofs.Documents
import NimTemplate.Proofs.BalancedText
import NimTemplate.Proofs.LiteralValues
import NimTemplate.Proofs.FieldNames
import NimTemplate.Proofs.Attributes
import NimTemplate.Proofs.Requoting
import NimTemplate.Proofs.QuoteCuts
import NimTemplate.Proofs.QuotedExpressions
import NimTemplate.Proofs.ClassLists
import NimTemplate.Proofs.Escaping
import NimTemplate.Proofs.Selections
import NimTemplate.Proofs.Operations
import NimTemplate.Proofs.Doctypes
import NimTemplate.Proofs.LiteralSums
import NimTemplate.Proofs.Indexing
import NimTemplate.Proofs.Doubles
import NimTemplate.Proofs.Numerals
import NimTemplate.Proofs.Rounding
import NimTemplate.Proofs.NumberText
import NimTemplate.Proofs.Erasing
import NimTemplate.Proofs.ControlHeads
import NimTemplate.Proofs.AttributeOrder
import NimTemplate.Proofs.Placeholders
import NimTemplate.Proofs.Counting
import NimTemplate.Proofs.DepthCounter
import NimTemplate.Proofs.SpacedTokens
import NimTemplate.Proofs.Refusals
