import Transact.Calendar.Basic
import Transact.Calendar.Reader
import Transact.Calendar.Writer
import Transact.Codec.Decode
import Transact.Codec.Encode
import Transact.Codec.Tag
import Transact.Compile
import Transact.Diagnostic
import Transact.Expr.Basic
import Transact.Expr.Rename
import Transact.Json.Basic
import Transact.Json.Decoder
import Transact.Json.Reader
import Transact.Json.Writer
import Transact.Literal
import Transact.Number.Binary64
import Transact.Number.Clamp
import Transact.Number.Decimal
import Transact.Number.Scaling
import Transact.Number.Shortest
import Transact.Options
import Transact.Plan.Correlate
import Transact.Plan.Count
import Transact.Plan.DistinctOrder
import Transact.Plan.Fresh
import Transact.Plan.Pagination
import Transact.Plan.Plain
import Transact.Plan.Scope
import Transact.Plan.Shape
import Transact.Proofs.AliasedOrder
import Transact.Proofs.Calendar.RoundTrip
import Transact.Proofs.Codec.Acceptance
import Transact.Proofs.Codec.Decoder
import Transact.Proofs.Codec.Doubles
import Transact.Proofs.Codec.Form
import Transact.Proofs.Codec.RoundTrip
import Transact.Proofs.Codec.StatementForm
import Transact.Proofs.Codec.Texts
import Transact.Proofs.Compile
import Transact.Proofs.CompiledSource
import Transact.Proofs.Composition
import Transact.Proofs.CorrelatedAlias
import Transact.Proofs.CorrelatedJoin
import Transact.Proofs.CountedWindow
import Transact.Proofs.DenseRank
import Transact.Proofs.DistinctColumns
import Transact.Proofs.DistinctMark
import Transact.Proofs.DistinctOrder
import Transact.Proofs.EnclosedOrder
import Transact.Proofs.Equality
import Transact.Proofs.Exports
import Transact.Proofs.ExposedName
import Transact.Proofs.Irrelevance
import Transact.Proofs.JoinText
import Transact.Proofs.Json.Brackets
import Transact.Proofs.Json.Doubles
import Transact.Proofs.Json.Grammar
import Transact.Proofs.Json.Reading
import Transact.Proofs.Json.RoundTrip
import Transact.Proofs.Json.Tokens
import Transact.Proofs.Layers
import Transact.Proofs.Limit
import Transact.Proofs.LockHint
import Transact.Proofs.MarkedAlias
import Transact.Proofs.Number.Rounding
import Transact.Proofs.Number.Scaling
import Transact.Proofs.Number.Shortest
import Transact.Proofs.Outcome
import Transact.Proofs.PageColumns
import Transact.Proofs.Pagination
import Transact.Proofs.Plan.Builds
import Transact.Proofs.Plan.Columns
import Transact.Proofs.Plan.Fresh
import Transact.Proofs.Plan.Hygiene
import Transact.Proofs.Plan.Lexicon
import Transact.Proofs.Plan.NameSearch
import Transact.Proofs.Plan.RawNames
import Transact.Proofs.Plan.Runs
import Transact.Proofs.Plan.Scope
import Transact.Proofs.Plan.Within
import Transact.Proofs.Query
import Transact.Proofs.QueryText
import Transact.Proofs.RawIdentifiers
import Transact.Proofs.Relation.Basic
import Transact.Proofs.Relation.Groups
import Transact.Proofs.Relation.Numbering
import Transact.Proofs.Redirection
import Transact.Proofs.Repetition
import Transact.Proofs.Respelling
import Transact.Proofs.ReversedOrder
import Transact.Proofs.Select
import Transact.Proofs.SelectList
import Transact.Proofs.Spelling
import Transact.Proofs.Sql.Clause
import Transact.Proofs.Sql.Closed
import Transact.Proofs.Sql.Condition
import Transact.Proofs.Sql.Enclosed
import Transact.Proofs.Sql.Expression
import Transact.Proofs.Sql.IntegerPrefix
import Transact.Proofs.Sql.JoinReader
import Transact.Proofs.Sql.Lexeme
import Transact.Proofs.Sql.NameReader
import Transact.Proofs.Sql.Piece
import Transact.Proofs.Sql.QuotedText
import Transact.Proofs.Sql.Reader
import Transact.Proofs.Sql.Token
import Transact.Proofs.Sql.ValueText
import Transact.Proofs.Subquery
import Transact.Proofs.Text.Cut
import Transact.Proofs.Text.Digits
import Transact.Proofs.Unambiguous
import Transact.Proofs.UpdateText
import Transact.Proofs.Where
import Transact.Proofs.WildcardKeys
import Transact.Proofs.WindowOrder
import Transact.Query.Basic
import Transact.Query.Text
import Transact.Select
import Transact.Source
import Transact.Sql.Literal
import Transact.Sql.Name
import Transact.Statement
import Transact.Text.Basic
import Transact.Text.Blank
import Transact.Text.CasedRanges
import Transact.Text.HiddenRanges
import Transact.Text.IgnorableRanges
import Transact.Text.Lower
import Transact.Text.LowerRuns
import Transact.Text.Quotation
import Transact.Trace
