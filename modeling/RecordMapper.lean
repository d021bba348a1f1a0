import RecordMapper.Attempt
import RecordMapper.Calendar.Civil
import RecordMapper.Calendar.Text
import RecordMapper.Calendar.Window
import RecordMapper.Calendar.WordDate
import RecordMapper.Classifier
import RecordMapper.Condition.Basic
import RecordMapper.Condition.Operator
import RecordMapper.Condition.Predicate
import RecordMapper.Decimal
import RecordMapper.Dialect.Basic
import RecordMapper.Dialect.Markers
import RecordMapper.Document.Conditions
import RecordMapper.Document.Errors
import RecordMapper.Document.Instances
import RecordMapper.Document.Names
import RecordMapper.Document.Schema
import RecordMapper.Document.Statements
import RecordMapper.Document.Values
import RecordMapper.Error
import RecordMapper.Fetch.Hydrate
import RecordMapper.Fetch.Plan
import RecordMapper.Field.Basic
import RecordMapper.Field.Check
import RecordMapper.Field.Coerce
import RecordMapper.Instance.Basic
import RecordMapper.Instance.Heap
import RecordMapper.Json.Access
import RecordMapper.Json.Basic
import RecordMapper.Json.Number
import RecordMapper.Json.Parser
import RecordMapper.Json.Printer
import RecordMapper.KeyedList
import RecordMapper.Model.Basic
import RecordMapper.Model.Declaration
import RecordMapper.Model.Registry
import RecordMapper.Pattern.Basic
import RecordMapper.Pattern.Engine
import RecordMapper.Pattern.Reader
import RecordMapper.Proofs.Attempt
import RecordMapper.Proofs.Calendar.Civil
import RecordMapper.Proofs.Calendar.Order
import RecordMapper.Proofs.Calendar.Reading
import RecordMapper.Proofs.Calendar.Spelling
import RecordMapper.Proofs.Calendar.Text
import RecordMapper.Proofs.Calendar.Window
import RecordMapper.Proofs.Calendar.WordDate
import RecordMapper.Proofs.Calendar.Words
import RecordMapper.Proofs.Condition.Acceptance
import RecordMapper.Proofs.Condition.Clause
import RecordMapper.Proofs.Condition.Compile
import RecordMapper.Proofs.Condition.Key
import RecordMapper.Proofs.Condition.Truth
import RecordMapper.Proofs.Dialect.Literals
import RecordMapper.Proofs.Dialect.Markers
import RecordMapper.Proofs.Dialect.Tokens
import RecordMapper.Proofs.Fetch.Attaching
import RecordMapper.Proofs.Fetch.Documents
import RecordMapper.Proofs.Fetch.Hydrate
import RecordMapper.Proofs.Fetch.Joins
import RecordMapper.Proofs.Fetch.Labels
import RecordMapper.Proofs.Fetch.Occurrences
import RecordMapper.Proofs.Fetch.Trees
import RecordMapper.Proofs.Field.Coerce
import RecordMapper.Proofs.Field.Midnight
import RecordMapper.Proofs.Field.Order
import RecordMapper.Proofs.Field.Plain
import RecordMapper.Proofs.Field.Window
import RecordMapper.Proofs.Instance.Canonical
import RecordMapper.Proofs.Instance.Changes
import RecordMapper.Proofs.Instance.Pending
import RecordMapper.Proofs.Instance.Record
import RecordMapper.Proofs.Json.RoundTrip
import RecordMapper.Proofs.Json.Tidy
import RecordMapper.Proofs.Model.Declarations
import RecordMapper.Proofs.Session.Answering
import RecordMapper.Proofs.Session.Atomicity
import RecordMapper.Proofs.Session.CacheCalls
import RecordMapper.Proofs.Session.Canonical
import RecordMapper.Proofs.Session.Cascade
import RecordMapper.Proofs.Session.Deletion
import RecordMapper.Proofs.Session.Entries
import RecordMapper.Proofs.Session.Filing
import RecordMapper.Proofs.Session.Flush
import RecordMapper.Proofs.Session.Identity
import RecordMapper.Proofs.Session.Keeping
import RecordMapper.Proofs.Session.Mapping
import RecordMapper.Proofs.Session.Moves
import RecordMapper.Proofs.Session.Probing
import RecordMapper.Proofs.Session.Reconcile
import RecordMapper.Proofs.Session.Relocation
import RecordMapper.Proofs.Session.Removal
import RecordMapper.Proofs.Session.RowKey
import RecordMapper.Proofs.Session.Sameness
import RecordMapper.Proofs.Session.Saving
import RecordMapper.Proofs.Session.SessionCalls
import RecordMapper.Proofs.Session.Shelf
import RecordMapper.Proofs.Session.Sweep
import RecordMapper.Proofs.Session.Table
import RecordMapper.Proofs.Session.Targeting
import RecordMapper.Proofs.Statement.Finish
import RecordMapper.Proofs.Statement.Template
import RecordMapper.Proofs.Storage.Batches
import RecordMapper.Proofs.Storage.Comparison
import RecordMapper.Proofs.Storage.Constant
import RecordMapper.Proofs.Storage.RoundTrip
import RecordMapper.Proofs.Text.Escaped
import RecordMapper.Proofs.Text.Quoted
import RecordMapper.Proofs.Text.Utf8
import RecordMapper.Proofs.Value.KeyText
import RecordMapper.Row
import RecordMapper.Session.Backend
import RecordMapper.Session.Basic
import RecordMapper.Session.Cache
import RecordMapper.Session.Flush
import RecordMapper.Session.Read
import RecordMapper.Session.Reconcile
import RecordMapper.Session.Scripted
import RecordMapper.Session.Tracker
import RecordMapper.Session.Write
import RecordMapper.Statement.Fragment
import RecordMapper.Statement.Select
import RecordMapper.Statement.Write
import RecordMapper.Storage.Configuration
import RecordMapper.Storage.Connection
import RecordMapper.Storage.Engine
import RecordMapper.Storage.Literal
import RecordMapper.Storage.Real
import RecordMapper.Storage.Selection
import RecordMapper.Storage.Stored
import RecordMapper.Storage.Tables
import RecordMapper.Text.Blank
import RecordMapper.Text.Digits
import RecordMapper.Text.Numeral
import RecordMapper.Text.Quoted
import RecordMapper.Text.Utf8
import RecordMapper.Value.Basic
import RecordMapper.Value.Encoded
import RecordMapper.Word
