import EmbeddedSql.Clause
import EmbeddedSql.Clause.Splitting
import EmbeddedSql.CommandLine
import EmbeddedSql.CommandLine.Arguments
import EmbeddedSql.CommandLine.Request
import EmbeddedSql.CommandLine.Switch
import EmbeddedSql.Configuration
import EmbeddedSql.Configuration.Options
import EmbeddedSql.Decimal
import EmbeddedSql.Dialect
import EmbeddedSql.Diff
import EmbeddedSql.Diff.Compact
import EmbeddedSql.Diff.Printer
import EmbeddedSql.Error
import EmbeddedSql.Files.Discovery
import EmbeddedSql.Files.FileSystem
import EmbeddedSql.Files.Path
import EmbeddedSql.Layout.Query
import EmbeddedSql.Layout.Spacing
import EmbeddedSql.Layout.Writer
import EmbeddedSql.Literal.Binding
import EmbeddedSql.Literal.Extent
import EmbeddedSql.Literal.Occurrence
import EmbeddedSql.Literal.Scan
import EmbeddedSql.Main
import EmbeddedSql.Pattern.Exclude
import EmbeddedSql.Pattern.Wildcard
import EmbeddedSql.Proofs.Clause.Chain
import EmbeddedSql.Proofs.Clause.Cutting
import EmbeddedSql.Proofs.Clause.First
import EmbeddedSql.Proofs.Clause.Grouping
import EmbeddedSql.Proofs.Clause.Likeness
import EmbeddedSql.Proofs.Clause.Partition
import EmbeddedSql.Proofs.Clause.Respelling
import EmbeddedSql.Proofs.CommandLine.Agreement
import EmbeddedSql.Proofs.Configuration.Ancestry
import EmbeddedSql.Proofs.Files.Descent
import EmbeddedSql.Proofs.Files.Destination
import EmbeddedSql.Proofs.Files.Order
import EmbeddedSql.Proofs.Files.Writing
import EmbeddedSql.Proofs.Format.Enclosing
import EmbeddedSql.Proofs.Format.Escapes
import EmbeddedSql.Proofs.Format.FirstStatement
import EmbeddedSql.Proofs.Format.Idempotence
import EmbeddedSql.Proofs.Format.Respelling
import EmbeddedSql.Proofs.Format.Scope
import EmbeddedSql.Proofs.Layout.Alignment
import EmbeddedSql.Proofs.Layout.Arrangement
import EmbeddedSql.Proofs.Layout.Attachment
import EmbeddedSql.Proofs.Layout.Comments
import EmbeddedSql.Proofs.Layout.Fusion
import EmbeddedSql.Proofs.Layout.Indentation
import EmbeddedSql.Proofs.Layout.Inlining
import EmbeddedSql.Proofs.Layout.Likeness
import EmbeddedSql.Proofs.Layout.Measuring
import EmbeddedSql.Proofs.Layout.Nesting
import EmbeddedSql.Proofs.Layout.Placement
import EmbeddedSql.Proofs.Layout.Rereading
import EmbeddedSql.Proofs.Layout.Respelling
import EmbeddedSql.Proofs.Layout.Standing
import EmbeddedSql.Proofs.Layout.Tracing
import EmbeddedSql.Proofs.Layout.Writing
import EmbeddedSql.Proofs.Literal.Closing
import EmbeddedSql.Proofs.Literal.Composition
import EmbeddedSql.Proofs.Literal.Content
import EmbeddedSql.Proofs.Literal.Delimiting
import EmbeddedSql.Proofs.Literal.Inside
import EmbeddedSql.Proofs.Literal.Lagging
import EmbeddedSql.Proofs.Literal.Locating
import EmbeddedSql.Proofs.Literal.Naming
import EmbeddedSql.Proofs.Literal.Refilling
import EmbeddedSql.Proofs.Literal.Rescan
import EmbeddedSql.Proofs.Literal.Segmentation
import EmbeddedSql.Proofs.Literal.Spans
import EmbeddedSql.Proofs.Literal.Stepping
import EmbeddedSql.Proofs.Run.Handling
import EmbeddedSql.Proofs.Run.Schedule
import EmbeddedSql.Proofs.Scan.Characters
import EmbeddedSql.Proofs.Scan.Extraction
import EmbeddedSql.Proofs.Scan.Leaping
import EmbeddedSql.Proofs.Scan.Lexemes
import EmbeddedSql.Proofs.Scan.Lexing
import EmbeddedSql.Proofs.Scan.Names
import EmbeddedSql.Proofs.Scan.Searching
import EmbeddedSql.Proofs.Scan.Sources
import EmbeddedSql.Proofs.Source.Replacement
import EmbeddedSql.Proofs.Source.Rereading
import EmbeddedSql.Proofs.Source.Splicing
import EmbeddedSql.Proofs.Text.Boundary
import EmbeddedSql.Proofs.Text.Casing
import EmbeddedSql.Proofs.Text.Encoding
import EmbeddedSql.Proofs.Text.Trimming
import EmbeddedSql.Proofs.Token.Ending
import EmbeddedSql.Proofs.Token.Escapes
import EmbeddedSql.Proofs.Token.Likeness
import EmbeddedSql.Proofs.Token.Locality
import EmbeddedSql.Proofs.Token.Reading
import EmbeddedSql.Proofs.Token.Shielding
import EmbeddedSql.Proofs.Token.Stream
import EmbeddedSql.Proofs.Token.Tiling
import EmbeddedSql.Proofs.Token.Units
import EmbeddedSql.Proofs.Verdict.Blankness
import EmbeddedSql.Proofs.Verdict.Independence
import EmbeddedSql.Report
import EmbeddedSql.Run
import EmbeddedSql.Settings
import EmbeddedSql.Source
import EmbeddedSql.Splice
import EmbeddedSql.Text.Basic
import EmbeddedSql.Text.Case
import EmbeddedSql.Text.Letter
import EmbeddedSql.Text.Printable
import EmbeddedSql.Token
import EmbeddedSql.Token.Lexer
import EmbeddedSql.Toml.Document
import EmbeddedSql.Toml.Scalar
import EmbeddedSql.Toml.Table
import EmbeddedSql.Toml.Value
import EmbeddedSql.Verdict
