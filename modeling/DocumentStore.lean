import DocumentStore.Aggregation
import DocumentStore.Aggregation.Accumulator
import DocumentStore.Aggregation.Group
import DocumentStore.Aggregation.Reshape
import DocumentStore.Aggregation.Stage
import DocumentStore.Bulk
import DocumentStore.Bulk.Model
import DocumentStore.Change
import DocumentStore.Collection
import DocumentStore.Collection.Options
import DocumentStore.Config
import DocumentStore.Database
import DocumentStore.Date.Calendar
import DocumentStore.Date.Instant
import DocumentStore.Date.Text
import DocumentStore.Document
import DocumentStore.Double
import DocumentStore.Double.Decimal
import DocumentStore.Error
import DocumentStore.Error.Message
import DocumentStore.Expression
import DocumentStore.Fields
import DocumentStore.Filter
import DocumentStore.Filter.Comparison
import DocumentStore.Filter.Expr
import DocumentStore.Filter.Operator
import DocumentStore.Filter.Search
import DocumentStore.Find
import DocumentStore.Find.Options
import DocumentStore.IdIndex
import DocumentStore.Json.Printer
import DocumentStore.Json.Reader
import DocumentStore.Json.Token
import DocumentStore.Number
import DocumentStore.Number.Text
import DocumentStore.Path
import DocumentStore.Path.Access
import DocumentStore.Path.Reader
import DocumentStore.Pattern
import DocumentStore.Pattern.Class
import DocumentStore.Pattern.Escape
import DocumentStore.Pattern.Matcher
import DocumentStore.Pattern.Reader
import DocumentStore.Projection
import DocumentStore.Sort
import DocumentStore.Storage.CollectionFile
import DocumentStore.Storage.Folder
import DocumentStore.Text.Blank
import DocumentStore.Text.Digit
import DocumentStore.Text.Fold
import DocumentStore.Text.Ranges
import DocumentStore.Text.Word
import DocumentStore.Update
import DocumentStore.Update.Arithmetic
import DocumentStore.Update.Array
import DocumentStore.Update.Operator
import DocumentStore.Value
import DocumentStore.Value.Equality
import DocumentStore.Value.Identity
import DocumentStore.Value.Kind
import DocumentStore.Value.Order
import DocumentStore.Value.Wrapper
import DocumentStore.Write
import DocumentStore.Proofs.Double.Rounding
import DocumentStore.Proofs.Double.Decimal
import DocumentStore.Proofs.Date.Instant
import DocumentStore.Proofs.Number.Text
import DocumentStore.Proofs.Fields
import DocumentStore.Proofs.Json.Token
import DocumentStore.Proofs.Value.WellFormed
import DocumentStore.Proofs.Value.Depth
import DocumentStore.Proofs.Value.Reordered
import DocumentStore.Proofs.Json.Reader
import DocumentStore.Proofs.Json.RoundTrip
import DocumentStore.Proofs.Path.Access
import DocumentStore.Proofs.Path.Lens
import DocumentStore.Proofs.Path.Segment
import DocumentStore.Proofs.Path.Frame
import DocumentStore.Proofs.Path.Removal
import DocumentStore.Proofs.Path.Several
import DocumentStore.Proofs.Path.Failure
import DocumentStore.Proofs.Run
import DocumentStore.Proofs.Update
import DocumentStore.Proofs.Update.Fields
import DocumentStore.Proofs.Update.Array
import DocumentStore.Proofs.Update.Arithmetic
import DocumentStore.Proofs.Expression
import DocumentStore.Proofs.Change
import DocumentStore.Proofs.IdIndex
import DocumentStore.Proofs.Write.Step
import DocumentStore.Proofs.Write.Sound
import DocumentStore.Proofs.Storage.CollectionFile
import DocumentStore.Proofs.Find
import DocumentStore.Proofs.Collection
import DocumentStore.Proofs.Session
import DocumentStore.Proofs.Filter.Identifier
import DocumentStore.Proofs.Filter.FieldOrder
import DocumentStore.Proofs.Write.Places
import DocumentStore.Proofs.Agreement
import DocumentStore.Proofs.Write.Renew
import DocumentStore.Proofs.Write.Respelling
import DocumentStore.Proofs.Path.Grammar
import DocumentStore.Proofs.Path.Single
import DocumentStore.Proofs.Atomicity
import DocumentStore.Proofs.Bulk.Index
import DocumentStore.Proofs.Bulk.Stop
import DocumentStore.Proofs.Bulk.Tally
import DocumentStore.Proofs.Collection.Commit
import DocumentStore.Proofs.Insertion
import DocumentStore.Proofs.Revision
import DocumentStore.Proofs.Filter.Scalar
import DocumentStore.Proofs.Value.Order
import DocumentStore.Proofs.Value.Alike
import DocumentStore.Proofs.Number.Whole
import DocumentStore.Proofs.Date.Calendar
import DocumentStore.Proofs.Date.Text
import DocumentStore.Proofs.Value.Distinct
import DocumentStore.Proofs.Filter.Order
import DocumentStore.Proofs.Aggregation.Search
import DocumentStore.Proofs.Aggregation.Partition
import DocumentStore.Proofs.Aggregation.Group
import DocumentStore.Proofs.Aggregation.Regroup
import DocumentStore.Proofs.Filter.Itself
import DocumentStore.Proofs.Write.Upsert
import DocumentStore.Proofs.Write.Pointwise
import DocumentStore.Proofs.Write.Delete
import DocumentStore.Proofs.Sets
import DocumentStore.Proofs.Document
import DocumentStore.Proofs.Sort
import DocumentStore.Proofs.Aggregation.Unwind
import DocumentStore.Proofs.Aggregation.Extreme
import DocumentStore.Proofs.Aggregation.Sum
import DocumentStore.Proofs.Path.Build
import DocumentStore.Proofs.Projection
import DocumentStore.Proofs.Expression.Mention
import DocumentStore.Proofs.Path.Limits
import DocumentStore.Proofs.Database
