import VectorQuery.Bytes.Basic
import VectorQuery.Bytes.Sha256
import VectorQuery.CommandLine.Arguments
import VectorQuery.CommandLine.Flag
import VectorQuery.CommandLine.Program
import VectorQuery.CommandLine.Usage
import VectorQuery.Config
import VectorQuery.Embedding
import VectorQuery.Engine
import VectorQuery.Entity.Basic
import VectorQuery.Entity.Checksum
import VectorQuery.Entity.Condition
import VectorQuery.Entity.FieldStats
import VectorQuery.Execution.Basic
import VectorQuery.Execution.Error
import VectorQuery.Execution.RelationScores
import VectorQuery.Execution.Step
import VectorQuery.Execution.Trace
import VectorQuery.Files.Basic
import VectorQuery.Files.Directory
import VectorQuery.Files.Path
import VectorQuery.Instant
import VectorQuery.Json.Basic
import VectorQuery.Json.Cbor
import VectorQuery.Json.Parser
import VectorQuery.Json.Printer
import VectorQuery.Main
import VectorQuery.Name.EditDistance
import VectorQuery.Name.Glob
import VectorQuery.Name.Match
import VectorQuery.Number.Binary
import VectorQuery.Number.Decimal
import VectorQuery.Number.Double
import VectorQuery.Number.Pattern
import VectorQuery.Number.Quantity
import VectorQuery.Number.Rounding
import VectorQuery.Number.Scaled
import VectorQuery.Number.Single
import VectorQuery.Number.Word
import VectorQuery.Optimization.Alternative
import VectorQuery.Optimization.Basic
import VectorQuery.Optimization.Budget
import VectorQuery.Optimization.Candidate
import VectorQuery.Optimization.Exact
import VectorQuery.Optimization.Greedy
import VectorQuery.Optimization.Pareto
import VectorQuery.OrderedMap
import VectorQuery.Plan.Basic
import VectorQuery.Plan.Document
import VectorQuery.Plan.Error
import VectorQuery.Plan.Lowering
import VectorQuery.Plan.Relations
import VectorQuery.Plan.Text
import VectorQuery.Plan.TypeSet
import VectorQuery.Query.Basic
import VectorQuery.Query.Document
import VectorQuery.Query.Error
import VectorQuery.Query.Lexer
import VectorQuery.Query.Outline
import VectorQuery.Query.Parser
import VectorQuery.Query.Printer
import VectorQuery.Query.Token
import VectorQuery.Query.Tokens
import VectorQuery.Ranking
import VectorQuery.Report.Analysis
import VectorQuery.Report.Basic
import VectorQuery.Report.Document
import VectorQuery.Report.Explain
import VectorQuery.Report.Format
import VectorQuery.Report.Text
import VectorQuery.Scalar
import VectorQuery.ScoredSet
import VectorQuery.Session.Basic
import VectorQuery.Session.Catalog
import VectorQuery.Session.Command
import VectorQuery.Session.Error
import VectorQuery.Store.Basic
import VectorQuery.Store.Bundle
import VectorQuery.Store.Error
import VectorQuery.Store.File
import VectorQuery.Store.Open
import VectorQuery.Store.Search
import VectorQuery.Store.Snapshot
import VectorQuery.Text.Digits
import VectorQuery.Text.Escaped
import VectorQuery.Text.Letter
import VectorQuery.Text.Lines
import VectorQuery.Text.Lowercase
import VectorQuery.Text.Outline
import VectorQuery.Text.Ranges
import VectorQuery.Text.Reader
import VectorQuery.Text.Style
import VectorQuery.Toml.Number
import VectorQuery.Toml.Parser
import VectorQuery.Toml.Table
import VectorQuery.Toml.Text
import VectorQuery.Proofs.Failure
import VectorQuery.Proofs.Grammar.Basic
import VectorQuery.Proofs.Grammar.Completeness
import VectorQuery.Proofs.Grammar.Soundness
import VectorQuery.Proofs.Number.Double
import VectorQuery.Proofs.Number.Rounding
import VectorQuery.Proofs.Number.Shortest
import VectorQuery.Proofs.Number.Text
import VectorQuery.Proofs.Lexer.Spelling
import VectorQuery.Proofs.Canonical.Basic
import VectorQuery.Proofs.Canonical.Lexing
import VectorQuery.Proofs.Canonical.Parsing
import VectorQuery.Proofs.Meaning.Basic
import VectorQuery.Proofs.Plan.TypeSet
import VectorQuery.Proofs.Execution.Order
import VectorQuery.Proofs.Canonical.Injective
import VectorQuery.Proofs.Canonical.Keys
import VectorQuery.Proofs.Canonical.Parsed
import VectorQuery.Proofs.Meaning.Sharing
import VectorQuery.Proofs.Lowering.Growth
import VectorQuery.Proofs.Lowering.Plans
import VectorQuery.Proofs.Lowering.Pushdown
import VectorQuery.Proofs.Number.Quotient
import VectorQuery.Proofs.Store.Snapshot
import VectorQuery.Proofs.Store.Loading
import VectorQuery.Proofs.Number.Rational
import VectorQuery.Proofs.Optimization.Budgets
import VectorQuery.Proofs.Query.Subqueries
import VectorQuery.Proofs.Meaning.Naming
import VectorQuery.Proofs.Meaning.Direct
import VectorQuery.Proofs.Meaning.Agreement
import VectorQuery.Proofs.Lowering.Meaning
import VectorQuery.Proofs.Lowering.Containment
import VectorQuery.Proofs.Execution.Safety
import VectorQuery.Proofs.Lowering.Safety
import VectorQuery.Proofs.Instant.Calendar
import VectorQuery.Proofs.Instant.Stamp
import VectorQuery.Proofs.Bytes
import VectorQuery.Proofs.Store.File
import VectorQuery.Proofs.Entity.Checksum
import VectorQuery.Proofs.Number.Single
import VectorQuery.Proofs.Store.Index
import VectorQuery.Proofs.Canonical.Reparsing
import VectorQuery.Proofs.Ranking
import VectorQuery.Proofs.Optimization.Exactness
import VectorQuery.Proofs.Lowering.SinglePass
import VectorQuery.Proofs.Lowering.Roots
import VectorQuery.Proofs.Execution.Limit
import VectorQuery.Proofs.Report.Limit
import VectorQuery.Proofs.Report.Pushdown
import VectorQuery.Proofs.Execution.Sequential
import VectorQuery.Proofs.Optimization.Greedy
import VectorQuery.Proofs.Optimization.Feasibility
import VectorQuery.Proofs.Number.Positive
import VectorQuery.Proofs.Number.Zero
import VectorQuery.Proofs.Optimization.Nonempty
import VectorQuery.Proofs.Optimization.Alternatives
import VectorQuery.Proofs.Optimization.Frontier
import VectorQuery.Proofs.Optimization.Agreement
import VectorQuery.Proofs.Optimization.Duality
import VectorQuery.Proofs.Plan.Relations
import VectorQuery.Proofs.Execution.Search
import VectorQuery.Proofs.Number.Order
import VectorQuery.Proofs.Number.Norm
import VectorQuery.Proofs.Execution.Arrows
import VectorQuery.Proofs.Name.EditDistance
import VectorQuery.Proofs.Name.Glob
import VectorQuery.Proofs.Name.Match
import VectorQuery.Proofs.Execution.Analogy
import VectorQuery.Proofs.Number.Ratio
import VectorQuery.Proofs.Number.Share
import VectorQuery.Proofs.Meaning.Types
import VectorQuery.Proofs.Report.Gaps
import VectorQuery.Proofs.ScoredSet.Lattice
import VectorQuery.Proofs.Report.Unserved
import VectorQuery.Proofs.Grammar.Positions
import VectorQuery.Proofs.Report.Unmatched
import VectorQuery.Proofs.Canonical.Arguments
import VectorQuery.Proofs.Session.Changes
import VectorQuery.Proofs.Session.History
import VectorQuery.Proofs.Session.Examples
import VectorQuery.Proofs.Number.Value
import VectorQuery.Proofs.Number.Checked
import VectorQuery.Proofs.Entity.FieldStats
