import EntitySql.Binary.Basic
import EntitySql.Binary.Reader
import EntitySql.Binary.Shortest
import EntitySql.Decimal.Basic
import EntitySql.Decimal.Reader
import EntitySql.Entity.Catalog
import EntitySql.Entity.Instance
import EntitySql.Entity.Mapping
import EntitySql.Entity.Metadata
import EntitySql.Fault
import EntitySql.Gateway.Basic
import EntitySql.Gateway.Scripted
import EntitySql.Gateway.Store
import EntitySql.Json.Basic
import EntitySql.Json.Document
import EntitySql.Json.Number
import EntitySql.Json.Token
import EntitySql.Options
import EntitySql.Proofs.Binary.Exact
import EntitySql.Proofs.Decimal
import EntitySql.Proofs.Entity.Remembering
import EntitySql.Proofs.Entity.Transparency
import EntitySql.Proofs.Entity.Validity
import EntitySql.Proofs.Fallible
import EntitySql.Proofs.Gateway.Store
import EntitySql.Proofs.Grammar.Depth
import EntitySql.Proofs.Grammar.Spelling
import EntitySql.Proofs.Grammar.Token
import EntitySql.Proofs.Grammar.Tree
import EntitySql.Proofs.Grammar.Unambiguous
import EntitySql.Proofs.Json.Basic
import EntitySql.Proofs.Json.Document
import EntitySql.Proofs.Query.Acceptance
import EntitySql.Proofs.Query.BoundForm
import EntitySql.Proofs.Query.Engines
import EntitySql.Proofs.Query.FreeNames
import EntitySql.Proofs.Query.Growth
import EntitySql.Proofs.Query.Minting
import EntitySql.Proofs.Query.Phrases
import EntitySql.Proofs.Query.Reading
import EntitySql.Proofs.Query.Shapes
import EntitySql.Proofs.Query.Steps
import EntitySql.Proofs.Query.TextSearch
import EntitySql.Proofs.Result.Columns
import EntitySql.Proofs.Result.Inserted
import EntitySql.Proofs.Result.LastValues
import EntitySql.Proofs.Result.Views
import EntitySql.Proofs.Session.Atomicity
import EntitySql.Proofs.Session.BatchTrace
import EntitySql.Proofs.Session.EarlyFaults
import EntitySql.Proofs.Session.Handover
import EntitySql.Proofs.Session.NullOrder
import EntitySql.Proofs.Session.PageFigures
import EntitySql.Proofs.Session.Protocol
import EntitySql.Proofs.Session.Transactions
import EntitySql.Proofs.Sql.Dialect
import EntitySql.Proofs.Sql.Lexemes
import EntitySql.Proofs.Sql.Occurrences
import EntitySql.Proofs.Sql.Placeholder
import EntitySql.Proofs.Statement.Batches
import EntitySql.Proofs.Statement.Drafts
import EntitySql.Proofs.Statement.Engines
import EntitySql.Proofs.Statement.Forms
import EntitySql.Proofs.Statement.Located
import EntitySql.Proofs.Statement.Names
import EntitySql.Proofs.Statement.Pages
import EntitySql.Proofs.Statement.Positional
import EntitySql.Proofs.Statement.Rows
import EntitySql.Proofs.Statement.Shapes
import EntitySql.Proofs.Statement.Validation
import EntitySql.Proofs.Statement.Written
import EntitySql.Proofs.Text.Digits
import EntitySql.Proofs.Text.Names
import EntitySql.Proofs.Timestamp
import EntitySql.Proofs.Uuid
import EntitySql.Proofs.Value.Serial
import EntitySql.Proofs.WholeNumbers
import EntitySql.Query.Binding
import EntitySql.Query.Expression
import EntitySql.Query.Operator
import EntitySql.Result.Reader
import EntitySql.Result.Row
import EntitySql.Scalar
import EntitySql.Session.Basic
import EntitySql.Session.Operations
import EntitySql.Session.Script
import EntitySql.Sql.Bound
import EntitySql.Sql.Dialect
import EntitySql.Sql.Parameter
import EntitySql.Sql.Phrase
import EntitySql.Sql.Placeholder
import EntitySql.Statement.Basic
import EntitySql.Statement.Build
import EntitySql.Statement.Delete
import EntitySql.Statement.Insert
import EntitySql.Statement.Page
import EntitySql.Statement.Select
import EntitySql.Statement.Update
import EntitySql.Text.Blank
import EntitySql.Text.Digits
import EntitySql.Text.Letters
import EntitySql.Timestamp
import EntitySql.Uuid
import EntitySql.Value.Basic
import EntitySql.Value.JsonForm
import EntitySql.Value.Serial
