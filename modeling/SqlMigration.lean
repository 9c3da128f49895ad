import SqlMigration.Json.Parser
import SqlMigration.Main
import SqlMigration.Proofs.Statement.Partition
import SqlMigration.Proofs.Token.Cutting
import SqlMigration.Proofs.Statement.Extent
import SqlMigration.Proofs.Statement.Shift
import SqlMigration.Proofs.Pattern
import SqlMigration.Proofs.Statement.Carry
import SqlMigration.Proofs.Statement.Direct
import SqlMigration.Proofs.Token.Nesting
import SqlMigration.Proofs.Expression.Call
import SqlMigration.Proofs.Expression.Arguments
import SqlMigration.Proofs.Expression.Tame
import SqlMigration.Proofs.Expression.CallText
import SqlMigration.Proofs.Expression.Ending
import SqlMigration.Proofs.Expression.Comments
import SqlMigration.Proofs.Query.Comments
import SqlMigration.Proofs.View.Term
import SqlMigration.Proofs.View.Cut
import SqlMigration.Proofs.View.Aliases
import SqlMigration.Proofs.View.Names
import SqlMigration.Proofs.Statement.Conditional
import SqlMigration.Proofs.Text.Ranges
import SqlMigration.Proofs.Text.Solid
import SqlMigration.Proofs.Token.Spelling
import SqlMigration.Proofs.Token.Flow
import SqlMigration.Proofs.Token.Shape
import SqlMigration.Proofs.Token.Joining
import SqlMigration.Proofs.View.Gap
import SqlMigration.Proofs.View.Ending
import SqlMigration.Proofs.Statement.Union
import SqlMigration.Proofs.View.Union
import SqlMigration.Proofs.Batch.Inside
import SqlMigration.Proofs.Batch.History
import SqlMigration.Proofs.View.Termination
import SqlMigration.Proofs.Batch.Termination
import SqlMigration.Proofs.Alteration.Grammar
import SqlMigration.Proofs.Alteration.Columns
import SqlMigration.Proofs.Alteration.Acceptance
import SqlMigration.Proofs.Statement.Division
import SqlMigration.Proofs.Expression.Splitting
import SqlMigration.Proofs.Text.Tagless
import SqlMigration.Proofs.Batch.Tagless
import SqlMigration.Proofs.Batch.Quoting
import SqlMigration.Proofs.Token.Rereading
import SqlMigration.Proofs.Query.Seams
import SqlMigration.Proofs.Expression.Concat
import SqlMigration.Proofs.Text.Lowercase
import SqlMigration.Proofs.Text.Trimming
import SqlMigration.Proofs.Name.Normal
import SqlMigration.Proofs.Token.Words
import SqlMigration.Proofs.Name.Rendering
import SqlMigration.Proofs.Name.Listing
import SqlMigration.Proofs.Alteration.Keys
import SqlMigration.Proofs.Decimal.Integers
import SqlMigration.Proofs.Expression.Arithmetic
import SqlMigration.Proofs.Expression.Amount
import SqlMigration.Proofs.Expression.Magnitude
import SqlMigration.Proofs.Expression.Interval
import SqlMigration.Proofs.Batch.Argument
import SqlMigration.Proofs.View.BareAlias
import SqlMigration.Proofs.Token.Spaced
import SqlMigration.Proofs.Alteration.Defaults
import SqlMigration.Proofs.Batch.Texts
import SqlMigration.Proofs.Token.Opening
import SqlMigration.Proofs.Batch.Voice
import SqlMigration.Proofs.Batch.Following
import SqlMigration.Proofs.Batch.Limits
import SqlMigration.Proofs.Statement.Lookahead
import SqlMigration.Proofs.Statement.Isolation
import SqlMigration.Proofs.Statement.Layout
import SqlMigration.Proofs.Alteration.Reach
import SqlMigration.Proofs.Pattern.Greedy
import SqlMigration.Proofs.Statement.Pairing
import SqlMigration.Proofs.Alteration.Scan
import SqlMigration.Proofs.Alteration.Layout
import SqlMigration.Proofs.Alteration.Written
import SqlMigration.Proofs.Alteration.Adding
import SqlMigration.Proofs.Declaration.Recovery
import SqlMigration.Proofs.Token.Delimiters
import SqlMigration.Proofs.DynamicSql.RoundTrip
import SqlMigration.Proofs.Name.Rounds
import SqlMigration.Proofs.Expression.Cuts
import SqlMigration.Proofs.Token.Errors
import SqlMigration.Proofs.Statement.Rounding
import SqlMigration.Proofs.Json.Reading
import SqlMigration.Proofs.Alteration.Serialization
