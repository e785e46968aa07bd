import LakeSchema.Check.Consistency
import LakeSchema.Check.Table
import LakeSchema.Cli.Help
import LakeSchema.Cli.Request
import LakeSchema.Cli.Run
import LakeSchema.Cli.Surroundings
import LakeSchema.Cli.Switch
import LakeSchema.Cli.Workspace
import LakeSchema.Compile.Ddl
import LakeSchema.Compile.Graph
import LakeSchema.Compile.MetricDefinition
import LakeSchema.Compile.Script
import LakeSchema.Decimal.Binary64
import LakeSchema.Decimal.Shortest
import LakeSchema.Document.Decode
import LakeSchema.Document.Encode
import LakeSchema.Document.Format
import LakeSchema.Document.LegacyType
import LakeSchema.Document.Load
import LakeSchema.Document.Normalise
import LakeSchema.Edit.Change
import LakeSchema.Edit.Import
import LakeSchema.Edit.Linking
import LakeSchema.Edit.Removal
import LakeSchema.Edit.TableEdit
import LakeSchema.Edit.ViewEdit
import LakeSchema.ForeignKey.Origin
import LakeSchema.ForeignKey.Propagation
import LakeSchema.Json.Decode
import LakeSchema.Json.Printer
import LakeSchema.Json.Reader
import LakeSchema.Json.Value
import LakeSchema.Main
import LakeSchema.Proofs.Check.Consistency
import LakeSchema.Proofs.Check.FieldNames
import LakeSchema.Proofs.Compile.Agreement
import LakeSchema.Proofs.Compile.ClosedStatements
import LakeSchema.Proofs.Compile.ColumnNesting
import LakeSchema.Proofs.Compile.Compilation
import LakeSchema.Proofs.Compile.ConstraintNames
import LakeSchema.Proofs.Compile.Countdown
import LakeSchema.Proofs.Compile.CreationOrder
import LakeSchema.Proofs.Compile.Cycles
import LakeSchema.Proofs.Compile.DollarBody
import LakeSchema.Proofs.Compile.Graph
import LakeSchema.Proofs.Compile.JoinTree
import LakeSchema.Proofs.Compile.Order
import LakeSchema.Proofs.Compile.Reach
import LakeSchema.Proofs.Compile.Reordering
import LakeSchema.Proofs.Compile.ScriptReading
import LakeSchema.Proofs.Compile.Search
import LakeSchema.Proofs.Compile.ShortestPath
import LakeSchema.Proofs.Compile.Statements
import LakeSchema.Proofs.Document.Accounting
import LakeSchema.Proofs.Document.Canonical
import LakeSchema.Proofs.Document.Decode
import LakeSchema.Proofs.Document.DottedKey
import LakeSchema.Proofs.Document.Entries
import LakeSchema.Proofs.Document.FieldForm
import LakeSchema.Proofs.Document.Parameters
import LakeSchema.Proofs.Document.Repair
import LakeSchema.Proofs.Document.RoundTrip
import LakeSchema.Proofs.Document.TableSource
import LakeSchema.Proofs.Document.Timestamps
import LakeSchema.Proofs.Document.TypeText
import LakeSchema.Proofs.Edit.BulkDeletion
import LakeSchema.Proofs.Edit.CommutingDeletion
import LakeSchema.Proofs.Edit.Deletion
import LakeSchema.Proofs.Edit.DeletionReport
import LakeSchema.Proofs.Edit.FieldEdit
import LakeSchema.Proofs.Edit.Import
import LakeSchema.Proofs.Edit.IndependentKey
import LakeSchema.Proofs.Edit.LinkPreview
import LakeSchema.Proofs.Edit.Linking
import LakeSchema.Proofs.Edit.Patch
import LakeSchema.Proofs.Edit.Provenance
import LakeSchema.Proofs.Edit.Reconciliation
import LakeSchema.Proofs.Edit.RelationshipDeletion
import LakeSchema.Proofs.Edit.Removal
import LakeSchema.Proofs.Edit.Undated
import LakeSchema.Proofs.Edit.Views
import LakeSchema.Proofs.ForeignKey.Heir
import LakeSchema.Proofs.ForeignKey.NameClash
import LakeSchema.Proofs.ForeignKey.Propagation
import LakeSchema.Proofs.ForeignKey.Renaming
import LakeSchema.Proofs.Json.Members
import LakeSchema.Proofs.Json.Reading
import LakeSchema.Proofs.Json.Source
import LakeSchema.Proofs.Schema.LegacyTag
import LakeSchema.Proofs.Schema.MeasureReference
import LakeSchema.Proofs.Schema.StorageKey
import LakeSchema.Proofs.Schema.WindowMeasure
import LakeSchema.Proofs.Service.Repository
import LakeSchema.Proofs.Session.ChangeStamps
import LakeSchema.Proofs.Session.Connection
import LakeSchema.Proofs.Session.Deletion
import LakeSchema.Proofs.Session.FieldEdit
import LakeSchema.Proofs.Session.Import
import LakeSchema.Proofs.Session.Invariant
import LakeSchema.Proofs.Session.KeyShape
import LakeSchema.Proofs.Session.Names
import LakeSchema.Proofs.Session.OriginStability
import LakeSchema.Proofs.Session.Provenance
import LakeSchema.Proofs.Session.RenameClash
import LakeSchema.Proofs.Session.StoredAnswer
import LakeSchema.Proofs.Session.SyncedNames
import LakeSchema.Proofs.Sql.Arithmetic
import LakeSchema.Proofs.Sql.Closed
import LakeSchema.Proofs.Sql.Comments
import LakeSchema.Proofs.Sql.ConstraintName
import LakeSchema.Proofs.Sql.Detection
import LakeSchema.Proofs.Sql.Identifier
import LakeSchema.Proofs.Sql.Layout
import LakeSchema.Proofs.Sql.LetterCase
import LakeSchema.Proofs.Sql.Lexis
import LakeSchema.Proofs.Sql.Nesting
import LakeSchema.Proofs.Sql.Reading
import LakeSchema.Proofs.Sql.Requalification
import LakeSchema.Proofs.Sql.Respelling
import LakeSchema.Proofs.Sql.StarQuery
import LakeSchema.Proofs.Sql.TableReference
import LakeSchema.Proofs.Sql.ViewQuery
import LakeSchema.Proofs.Sql.Word
import LakeSchema.Proofs.Text.Cutting
import LakeSchema.Proofs.Text.Spaces
import LakeSchema.Proofs.Text.TopLevel
import LakeSchema.Proofs.Text.WordChar
import LakeSchema.Proofs.Time.SignedYear
import LakeSchema.Proofs.Time.Text
import LakeSchema.Proofs.Yaml.Dollars
import LakeSchema.Schema.DataType
import LakeSchema.Schema.Error
import LakeSchema.Schema.Field
import LakeSchema.Schema.LegacyTag
import LakeSchema.Schema.Measure
import LakeSchema.Schema.Name
import LakeSchema.Schema.Project
import LakeSchema.Schema.Relationship
import LakeSchema.Schema.Table
import LakeSchema.Schema.TagMap
import LakeSchema.Schema.View
import LakeSchema.Schema.Vocabulary
import LakeSchema.Service.Catalog
import LakeSchema.Service.Execution
import LakeSchema.Service.Repository
import LakeSchema.Session.Answer
import LakeSchema.Session.Basic
import LakeSchema.Session.Command
import LakeSchema.Settings.Basic
import LakeSchema.Settings.Text
import LakeSchema.Sql.Identifier
import LakeSchema.Sql.Query
import LakeSchema.Sql.Scan
import LakeSchema.Text.Case
import LakeSchema.Text.CaseTable
import LakeSchema.Text.CharClass
import LakeSchema.Text.Ranges
import LakeSchema.Text.Words
import LakeSchema.Time.Date
import LakeSchema.Time.Layout
import LakeSchema.Time.Reader
import LakeSchema.Time.Timestamp
import LakeSchema.Toml.Quotes
import LakeSchema.Toml.Reader
import LakeSchema.Toml.Scalar
import LakeSchema.Toml.Value
import LakeSchema.Yaml.Cursor
import LakeSchema.Yaml.Node
import LakeSchema.Yaml.Plain
import LakeSchema.Yaml.Printer
import LakeSchema.Yaml.Reader
import LakeSchema.Yaml.ScalarText
import LakeSchema.Yaml.Tag
import LakeSchema.Yaml.Token
